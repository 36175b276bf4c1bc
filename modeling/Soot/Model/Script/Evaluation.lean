import Mathlib.Data.Int.Bitwise
import Soot.Program.Script.Quasiquote
import Soot.Program.Script.Numbers

/-!
# What the interpreter evaluates

The vocabulary for applications, the binding of arguments, templates and the arithmetic primitives.
-/

set_option autoImplicit false

namespace Soot.Model.Script

open Soot.Computation Soot.Computation.StatefulExcept Soot.Program.Script

/-!
## Three ways of applying a function

`(apply f args)`, `call_lambda_internal` and the call form `(f 'a1 ... 'an)` are alike for a
function and its arguments when they signal an error all three, or start its body from the same
bindings and end in the same way (`AppliedAlike`). `Condition` says of a function and arguments
when that is so: on the whole, when every parameter is positional and has its argument.
-/

section Application

inductive Ending where
  | value (value : Object)
  | error
  | unfinished

def ending : Except Failure Object → Ending
  | .ok v => .value v
  | .error .unfinished => .unfinished
  | .error _ => .error

/-- `'a`. -/
def quoted (a : Object) : Object := .ofList [.symbol (text "quote"), a]

/-- `(f 'a1 ... 'an)`. -/
def callForm (f : Text) (args : List Object) : Object :=
  .pair (.symbol f) (.ofList (args.map quoted))

/-- A function that evaluation of a `lambda` form made. -/
def UserDefined (P : Printing) (lam : FunctionObject) : Prop :=
  ∃ form params, parseArgSpec P form params = .ok lam.args

def StartsFrom (enter : Eval ℕ) (w : World) (vars : Text → Option Object) : Prop :=
  ∃ env w', enter.runFrom w = (.ok env, w') ∧ (w'.environments[env]?).map (·.vars) = some vars

/-! ### Bindings -/

def bindFrom (vars : Text → Option Object) (l : List (Text × Object)) : Text → Option Object :=
  l.foldl (fun vars (name, value) => Function.update vars name (some value)) vars

def bindings (spec : ArgumentSpec) (args : Arguments) : List (Text × Object) :=
  (spec.unnamed.zip args.unnamed).map (fun (parameter, value) => (parameter.name, value)) ++
    spec.named.filterMap (fun (name, _) => (args.named.lookup name).map ((name, ·))) ++
    if spec.rest = [] then []
    else [(spec.rest, if args.rest.isNone then .emptyList else args.rest)]

/-- The environment in which a function's body is evaluated: how it is labelled depends on the way
in which the function is applied. -/
def bodyEnvironment (label : Text) (ctx : Object) (ref : ℕ) (lam : FunctionObject)
    (args : Arguments) : Environment where
  name := label
  ctx := ctx
  isFunction := true
  ownerFunction := .function ref
  parentEnv := lam.parentEnv
  vars := bindFrom (fun _ => none) (bindings lam.args args)

def enterWorld (w : World) (environment : Environment) : World :=
  { w with environments := w.environments ++ [environment] }

def bodyEnding (P : Printing) (ev : Evaluator) (w : World) (lam : FunctionObject)
    (environment : Environment) : Ending :=
  ending ((evalListReturnLast P ev w.environments.length lam.body).runFrom
    (enterWorld w environment)).1

/-! ### The three ways -/

variable (B : Builtins) (n depth : ℕ) (w : World) (env : ℕ) (f : Text) (ref : ℕ)
  (lam : FunctionObject) (form ctx : Object) (args : List Object)

/-- `(apply f args)`, in a form. -/
def applied : Eval Object :=
  evalApply B (evalWithRewind B n) depth form { unnamed := [.function ref, .ofList args] } env

/-- `call_lambda_internal(ctx, f, args)`. -/
def called : Eval Object :=
  callLambdaInternal B.printing (evalWithRewind B n) ctx (.function ref) args

/-- `(f 'a1 ... 'an)`. -/
def evaluated : Eval Object :=
  evalPair B (evalWithRewind B n) depth (callForm f args) env

/-- All three signal an error, or all three start the body from the same bindings and end in the
same way. -/
def AppliedAlike : Prop :=
  (ending ((applied B n depth env ref form args).runFrom w).1 = .error ∧
    ending ((called B n ref ctx args).runFrom w).1 = .error ∧
    ending ((evaluated B n depth env f args).runFrom w).1 = .error) ∨
  ∃ vars e,
    (StartsFrom (enterApply form ref lam { unnamed := args }) w vars ∧
      ending ((applied B n depth env ref form args).runFrom w).1 = e) ∧
    (StartsFrom (enterLambda ctx ref lam args) w vars ∧
      ending ((called B n ref ctx args).runFrom w).1 = e) ∧
    (StartsFrom (enterForm B.printing (evalWithRewind B n) (callForm f args)
        (.ofList (args.map quoted)) ref lam env) w vars ∧
      ending ((evaluated B n depth env f args).runFrom w).1 = e)

/-! ### The condition -/

/-- The forms of a call in the order of the parameters, defaults for those that are left out. -/
def formArguments : Arguments where
  unnamed := (args.map quoted).take lam.args.unnamed.length ++
    (lam.args.unnamed.drop args.length).map (·.defaultValue)
  named := lam.args.named.foldl
    (fun named (name, parameter) => assign name parameter.defaultValue named) []
  rest := if args.length ≤ lam.args.unnamed.length then .none
    else .ofList ((args.drop lam.args.unnamed.length).map quoted)

def restArguments (rest : Object) : Arguments where
  unnamed := args.take lam.args.unnamed.length
  rest := rest

/-- The call form fails: a parameter without a default is left out, arguments are left over, or
evaluation of the defaults fails, or that of the body. -/
def FormFails : Prop :=
  (∃ parameter ∈ lam.args.unnamed.drop args.length, parameter.isOptional = false) ∨
  (lam.args.unnamed.length < args.length ∧ lam.args.rest = []) ∨
  (∃ parameter ∈ lam.args.named, parameter.2.hasDefault = false) ∨
  match (evalArgs (evalWithRewind B n) (formArguments lam args) env).runFrom w with
  | (.error e, _) => ending (.error e) = .error
  | (.ok values, w') =>
    bodyEnding B.printing (evalWithRewind B n) w' lam
      (bodyEnvironment (text "lambda-call") (callForm f args) ref lam values) = .error

/-- The ways of applying the function to the arguments are alike: every parameter is positional and
has its argument, and the body does not depend on how its environment is labelled; or there are too
many arguments for no rest list; or there are for a rest list, which `apply` leaves empty, and the
body fails with it and without it; or arguments are left out or keys are declared, and the call
form fails. -/
def Condition : Prop :=
  let label := text "lambda-call"
  let body := fun label ctx args =>
    bodyEnding B.printing (evalWithRewind B n) w lam (bodyEnvironment label ctx ref lam args)
  (lam.args.named = [] ∧ args.length = lam.args.unnamed.length ∧
    let values := restArguments lam args .emptyList
    body (text "apply") form values = body label ctx values ∧
      body label ctx values = body label (callForm f args) values) ∨
  (lam.args.named = [] ∧ lam.args.unnamed.length < args.length ∧ lam.args.rest = []) ∨
  (lam.args.named = [] ∧ lam.args.unnamed.length < args.length ∧ lam.args.rest ≠ [] ∧
    let values := restArguments lam args (.ofList (args.drop lam.args.unnamed.length))
    body (text "apply") form (restArguments lam args .emptyList) = .error ∧
      body label ctx values = .error ∧ body label (callForm f args) values = .error) ∨
  ((lam.args.named ≠ [] ∨ args.length < lam.args.unnamed.length) ∧
    FormFails B n w env f ref lam args)

end Application

/-!
## What a lambda list promises

A lambda list declares positional parameters, keys and a rest list (`declared`). For the arguments
of a call it says which parameter gets which value, or that the call is faulty (`expected`). Binding
keeps this promise (`BindsParameters`) if every call that goes through is not faulty and binds each
parameter once, to its value. `BindsWhen` says for which lambda lists and arguments it does.
-/

/-! ### Lambda lists -/

structure Parameter where
  name : Text
  default : Option Object

structure LambdaList where
  positional : List Parameter := []
  keys : List Parameter := []
  rest : Option Text := none

def optionalParameter : Object → Parameter
  | .symbol name => ⟨name, some .emptyList⟩
  | .pair (.symbol name) (.pair value _) => ⟨name, some value⟩
  | .pair (.symbol name) _ => ⟨name, some .none⟩
  | _ => ⟨[], none⟩

def keyParameter : Object → Parameter
  | .symbol name => ⟨name, none⟩
  | .pair (.symbol name) (.pair value _) => ⟨name, some value⟩
  | .pair (.symbol name) _ => ⟨name, none⟩
  | _ => ⟨[], none⟩

def restParameter : Object → Option Text
  | .pair (.symbol name) _ => some name
  | _ => none

/-- The parameters that a lambda list declares after a word that says of which kind they are. -/
def declaredFrom : ParameterKind → Object → LambdaList
  | kind, .pair arg current =>
    if arg.symbolName = some (text "&rest") then
      { rest := restParameter current }
    else if arg.symbolName = some (text "&key") then declaredFrom .key current
    else if arg.symbolName = some (text "&optional") then declaredFrom .optional current
    else
      let later := declaredFrom kind current
      match kind with
      | .positional =>
        { later with positional := ⟨arg.symbolName.getD [], none⟩ :: later.positional }
      | .optional => { later with positional := optionalParameter arg :: later.positional }
      | .key => { later with keys := keyParameter arg :: later.keys }
  | _, _ => {}

def declared (params : Object) : LambdaList := declaredFrom .positional params

/-! ### Values of parameters -/

/-- The i-th positional parameter gets the i-th argument or its default. -/
def positionalBindings : List Parameter → List Object → Option (List (Text × Object))
  | [], _ => some []
  | parameter :: parameters, args => do
    let value ← args.head?.or parameter.default
    let bindings ← positionalBindings parameters args.tail
    return (parameter.name, value) :: bindings

/-- The keywords at the start of a list with their values, and what follows them; none if the last
one has no value. -/
def keySection : List Object → Option (List (Text × Object) × List Object)
  | [] => some ([], [])
  | arg :: args =>
    match arg.keywordName with
    | none => some ([], arg :: args)
    | some name =>
      match args with
      | [] => none
      | value :: args => do
        let (given, tail) ← keySection args
        return ((name, value) :: given, tail)

def keyBindings (given : List (Text × Object)) (keys : List Parameter) :
    Option (List (Text × Object)) :=
  keys.mapM fun key => ((given.lookup key.name).or key.default).map (key.name, ·)

def KnownOnce (given : List (Text × Object)) (keys : List Parameter) : Prop :=
  (∀ name ∈ given.map Prod.fst, name ∈ keys.map Parameter.name) ∧ (given.map Prod.fst).Nodup

instance (given : List (Text × Object)) (keys : List Parameter) :
    Decidable (KnownOnce given keys) := inferInstanceAs (Decidable (_ ∧ _))

def restBindings : Option Text → List Object → Option (List (Text × Object))
  | none, [] => some []
  | none, _ :: _ => none
  | some rest, tail => some [(rest, .ofList tail)]

/-- The keywords of a call, if there are keys, and what follows. -/
def LambdaList.keyArguments (l : LambdaList) (args : List Object) :
    Option (List (Text × Object) × List Object) :=
  if l.keys.isEmpty then some ([], args.drop l.positional.length)
  else keySection (args.drop l.positional.length)

/-- The value of each parameter; none if a required argument is missing, an argument is left over,
or a keyword is unknown, given twice or without a value. -/
def LambdaList.expected (l : LambdaList) (args : List Object) : Option (List (Text × Object)) := do
  let positional ← positionalBindings l.positional args
  let (given, tail) ← l.keyArguments args
  if KnownOnce given l.keys then
    let keys ← keyBindings given l.keys
    let rest ← restBindings l.rest tail
    return positional ++ keys ++ rest
  else none

/-! ### Binding -/

/-- `get_args_with_spec` followed by `set_args_in_env`, in a new environment. -/
def bindArguments (P : Printing) (form rest : Object) (spec : ArgumentSpec) : Eval ℕ := do
  let args ← ofExcept (getArgsWithSpec P form rest spec)
  let env ← newEnvironment {}
  setArgsInEnv form args spec env
  return env

/-- A call that goes through is not faulty and binds every parameter exactly once, to its value, and
nothing else. -/
def BindsParameters (P : Printing) (l : LambdaList) (spec : ArgumentSpec) (args : List Object) :
    Prop :=
  ∀ form w env w', (bindArguments P form (.ofList args) spec).runFrom w = (.ok env, w') →
    ∃ expected E, l.expected args = some expected ∧ (expected.map Prod.fst).Nodup ∧
      w'.environments[env]? = some E ∧
      ∀ name value, E.vars name = some value ↔ (name, value) ∈ expected

/-! ### The condition -/

def LambdaList.names (l : LambdaList) : List Text :=
  l.positional.map Parameter.name ++ l.keys.map Parameter.name ++ l.rest.toList

/-- The keywords of a call as the interpreter takes them: also those of a call without keys, if
`&key` is in force at the end of the lambda list. -/
def LambdaList.keysTaken (l : LambdaList) (varkeys : Bool) (args : List Object) :
    Option (List (Text × Object) × List Object) :=
  if varkeys then keySection (args.drop l.positional.length) else l.keyArguments args

/-- The call is faulty in a way that is always seen: a required argument is missing, a keyword has no
value, an argument is left over, or a keyword is unknown or given twice when `&key` is not in
force. -/
def LambdaList.Rejected (l : LambdaList) (varkeys : Bool) (args : List Object) : Prop :=
  positionalBindings l.positional args = none ∨
  match l.keysTaken varkeys args with
  | none => True
  | some (given, tail) =>
    keyBindings given l.keys = none ∨ (tail ≠ [] ∧ l.rest.getD [] = []) ∨
      (varkeys = false ∧ ¬KnownOnce given l.keys)

/-- The parameters have different names, that of the rest list is not empty, and if `&key` is in
force the keywords of the call are known and given once; or the call is rejected. -/
def LambdaList.BindsWhen (l : LambdaList) (varkeys : Bool) (args : List Object) : Prop :=
  l.Rejected varkeys args ∨
  (l.names.Nodup ∧ l.rest ≠ some [] ∧
    (varkeys = true →
      ∀ given tail, l.keysTaken varkeys args = some (given, tail) → KnownOnce given l.keys))

/-!
## What a template stands for

A template has expressions embedded in it, in order from left to right. Filling it with their values
replaces every `(unquote e)` by the value of `e` and every `(unquote-splicing e)` by the elements of
its value, wherever it stands: as an element, as the tail of a list or as the whole template.
-/

/-- `(unquote e)` or `(unquote-splicing e)`: whether it is spliced, and the expression. -/
def unquoted : Object → Option (Bool × Object)
  | .pair (.symbol name) (.pair e .emptyList) =>
    if name = text "unquote" then some (false, e)
    else if name = text "unquote-splicing" then some (true, e)
    else none
  | _ => none

/-- The expressions of a template from left to right, with whether they are spliced. -/
def embedded : Object → List (Bool × Object)
  | .pair car cdr =>
    match unquoted (.pair car cdr) with
    | some e => [e]
    | none => embedded car ++ embedded cdr
  | _ => []

/-- A template with its expressions replaced by these values, in order. The elements of a value that
takes the place of a tail are a list, which is the value. -/
def fill : Object → List Object → Object
  | .pair car cdr, values =>
    match unquoted (.pair car cdr) with
    | some _ => values.headD .none
    | none =>
      let here := values.take (embedded car).length
      let rest := fill cdr (values.drop (embedded car).length)
      match unquoted car with
      | some (true, _) => (here.headD .none).elements.foldr .pair rest
      | _ => .pair (fill car here) rest
  | o, _ => o

def SplicesLists (t : Object) (values : List Object) : Prop :=
  ∀ x ∈ (embedded t).zip values, x.1.1 = true → ∃ l, x.2 = .ofList l

/-- If the expressions of a template, evaluated once each from left to right, have values and those
that are spliced are proper lists, then this is what quasiquotation does, and it gives the template
filled with them. -/
def Quasiquotes (P : Printing) (ev : Evaluator) (t : Object) : Prop :=
  ∀ form env w values w',
    ((embedded t).mapM fun e => ev e.2 env).runFrom w = (.ok values, w') → SplicesLists t values →
      (evalQuasiquoteSpecial P ev form (.pair t .emptyList) env).runFrom w = (.ok (fill t values), w')

/-! ### Templates -/

/-- Every element that is headed by `unquote` or `unquote-splicing` has one argument. -/
def WellFormed : Object → Prop
  | .pair car cdr =>
    (headSymbol car = some (text "unquote") ∨ headSymbol car = some (text "unquote-splicing") →
      (unquoted car).isSome) ∧
      (unquoted car = none → WellFormed car) ∧ WellFormed cdr
  | _ => True

instance decidableWellFormed : DecidablePred WellFormed
  | .pair car cdr =>
    have := decidableWellFormed car
    have := decidableWellFormed cdr
    inferInstanceAs (Decidable (_ ∧ (unquoted car = none → WellFormed car) ∧ WellFormed cdr))
  | .none | .emptyList | .int _ | .float _ | .char _ | .symbol _ | .string _ | .array _
  | .function _ | .macroObject _ | .primitive _ | .specialForm _ | .heapObject _ _ => .isTrue trivial

/-- What is unquoted are elements of lists: neither the whole template nor the tail of a list is an
`(unquote e)` or `(unquote-splicing e)`. -/
def UnquotesElements : Object → Prop
  | .pair car cdr =>
    unquoted (.pair car cdr) = none ∧ (unquoted car = none → UnquotesElements car) ∧
      UnquotesElements cdr
  | _ => True

instance decidableUnquotesElements : DecidablePred UnquotesElements
  | .pair car cdr =>
    have := decidableUnquotesElements car
    have := decidableUnquotesElements cdr
    inferInstanceAs
      (Decidable (_ ∧ (unquoted car = none → UnquotesElements car) ∧ UnquotesElements cdr))
  | .none | .emptyList | .int _ | .float _ | .char _ | .symbol _ | .string _ | .array _
  | .function _ | .macroObject _ | .primitive _ | .specialForm _ | .heapObject _ _ => .isTrue trivial

/-!
## What the integer primitives are for

Each primitive has a result over the integers (`NumberPrimitive.mathematical`). A call is
arithmetical if it is answered, with a value or an evaluation error, and an integer that it returns
is the result over the integers where that is in range (`Arithmetical`). The operands for which the
primitives are so are `NumberPrimitive.Allows`.
-/

inductive NumberPrimitive where
  | plus | times | minus | divide | mod | ash | lshift | rshift | abs | max | min | expt
  | logand | logior | logxor | lognot

namespace NumberPrimitive

def run (F : FloatArithmetic) (P : Printing) (form : Object) (args : Arguments) :
    NumberPrimitive → Except Failure Object
  | plus => evalPlus F form args
  | times => evalTimes F form args
  | minus => evalMinus F form args
  | divide => evalDivide F P form args
  | mod => evalMod P form args
  | ash => evalAsh F P form args
  | lshift => evalLshift P form args
  | rshift => evalRshift P form args
  | abs => evalAbs F form args
  | max => evalMax F form args
  | min => evalMin F form args
  | expt => evalExpt F P form args
  | logand => evalLogand F args
  | logior => evalLogior F args
  | logxor => evalLogxor F args
  | lognot => evalLognot F P form args

/-- The result over the integers. A quotient is rounded towards zero, and a number shifted to the
right is rounded down. -/
def mathematical : NumberPrimitive → List ℤ → Option ℤ
  | plus, l => some l.sum
  | times, l => some l.prod
  | minus, [] => some 0
  | minus, [a] => some (-a)
  | minus, a :: l => some (a - l.sum)
  | divide, [a, b] => if b = 0 then none else some (a.tdiv b)
  | mod, [a, b] => if b = 0 then none else some (a.tmod b)
  | ash, [a, s] => some (if 0 ≤ s then a * 2 ^ s.toNat else a / 2 ^ (-s).toNat)
  | lshift, [a, s] => if s < 0 then none else some (a * 2 ^ s.toNat)
  | rshift, [a, s] => if s < 0 then none else some (a / 2 ^ s.toNat)
  | abs, [a] => some a.natAbs
  | max, a :: l => some (l.foldl Max.max a)
  | min, a :: l => some (l.foldl Min.min a)
  | expt, [a, n] => if n < 0 then none else some (a ^ n.toNat)
  | logand, l => some (l.foldl Int.land (-1))
  | logior, l => some (l.foldl Int.lor 0)
  | logxor, l => some (l.foldl Int.xor 0)
  | lognot, [a] => some a.lnot
  | _, _ => none

/-- A division of integers is by neither zero nor, of the least integer, by -1; no shift is by more
bits than a word has, but for one to the right of what is not negative. -/
def Allows (F : FloatArithmetic) : NumberPrimitive → List Object → Prop
  | divide, [.int a, b] => ∀ j, numberToInteger F b = .ok j → j ≠ 0 ∧ ¬(a = intMin ∧ j = -1)
  | mod, [.int a, .int b] => ¬(a = intMin ∧ b = -1)
  | ash, [a, s] => ∀ i j, numberToInteger F a = .ok i → numberToInteger F s = .ok j → j.toInt < 64
  | rshift, [.int a, .int s] => a.toInt < 0 → s.toInt < 64
  | _, _ => True

variable (a b : ℤ) (l : List ℤ)

@[simp] theorem mathematical_divide :
    divide.mathematical [a, b] = if b = 0 then none else some (a.tdiv b) := rfl

@[simp] theorem mathematical_mod :
    mod.mathematical [a, b] = if b = 0 then none else some (a.tmod b) := rfl

@[simp] theorem mathematical_ash : ash.mathematical [a, b] =
    some (if 0 ≤ b then a * 2 ^ b.toNat else a / 2 ^ (-b).toNat) := rfl

@[simp] theorem mathematical_lshift :
    lshift.mathematical [a, b] = if b < 0 then none else some (a * 2 ^ b.toNat) := rfl

@[simp] theorem mathematical_rshift :
    rshift.mathematical [a, b] = if b < 0 then none else some (a / 2 ^ b.toNat) := rfl

@[simp] theorem mathematical_expt :
    expt.mathematical [a, b] = if b < 0 then none else some (a ^ b.toNat) := rfl

end NumberPrimitive

/-- A value or an `EvalException`. -/
def Answered {α : Type} (result : Except Failure α) : Prop :=
  (∃ value, result = .ok value) ∨ ∃ e, result = .error (.eval e)

/-- A call is answered, and an integer that it returns is what its arguments give over the integers
if that is an `int64_t`. -/
def Arithmetical (F : FloatArithmetic) (P : Printing) (form : Object) (op : NumberPrimitive)
    (args : Arguments) : Prop :=
  Answered (op.run F P form args) ∧
  ∀ n l m, op.run F P form args = .ok (.int n) → args.named = [] →
    args.unnamed.mapM (numberToInteger F) = .ok l →
    op.mathematical (l.map BitVec.toInt) = some m → -2 ^ 63 ≤ m → m < 2 ^ 63 → n.toInt = m

end Soot.Model.Script
