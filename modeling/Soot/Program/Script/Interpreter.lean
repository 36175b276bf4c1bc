import Soot.Computation.StatefulExcept
import Soot.Program.Script.Arguments

/-!
# The script interpreter

Evaluation of forms in environments. The functions that call one another through
`eval_with_rewind` are given it, and `evalWithRewind` ties the knot with a number of steps. The
special forms and the primitives other than `quote`, `lambda` and `apply` are a parameter.
-/

set_option autoImplicit false

namespace Soot.Program.Script

open Soot.Computation

/-- SRCLINE: Object.hpp:1310-1326 -/
structure Environment where
  name : Text := []
  parentEnv : Option ℕ := none
  vars : Text → Option Object := fun _ => none
  isFunction : Bool := false
  ctx : Object := .none
  ownerFunction : Object := .none
  errorHandler : Object := .none

/-- SRCLINE: Object.hpp:1432-1441 -/
structure FunctionObject where
  parentEnv : Option ℕ
  body : Object
  args : ArgumentSpec

/-- SRCLINE: Object.hpp:1480-1485 -/
structure MacroObject where
  parentEnv : Option ℕ
  body : Object
  args : ArgumentSpec

structure World where
  environments : List Environment := []
  functions : List FunctionObject := []
  macros : List MacroObject := []
  globalConstants : Text → Option Object := fun _ => none
  dynamicStack : List ℕ := []

abbrev Eval (α : Type) := StatefulExcept World Failure α

abbrev Evaluator := Object → ℕ → Eval Object

/-- The special forms and primitives that are not modelled, with their specifications; a custom
primitive is not a `BuiltinFunctionObject`. -/
structure Builtins where
  printing : Printing
  special : ℕ → Evaluator → Object → Object → ℕ → Eval Object
  specs : ℕ → ArgumentSpec
  isCustom : ℕ → Bool
  primitive : ℕ → Evaluator → Object → Arguments → ℕ → Eval Object
  deref : ℕ → Eval Object

/-! ## Environments -/

/-- The search through an environment and its parents. SRCLINE: Interpreter.cpp:371-378 -/
def World.find (w : World) (name : Text) : ℕ → Option ℕ → Option Object
  | 0, _ => none
  | _ + 1, none => none
  | n + 1, some env =>
    match w.environments[env]? with
    | none => none
    | some environment =>
      match environment.vars name with
      | some value => some value
      | none => w.find name n environment.parentEnv

/-- `try_symbol_lookup`; a chain of environments is no longer than there are any.
SRCLINE: Interpreter.cpp:361-388 -/
def World.lookup (w : World) (name : Text) (env : ℕ) : Option Object :=
  if name = text "#t" ∨ name = text "#f" then some (.symbol name)
  else
    match w.find name w.environments.length (some env) with
    | some value => some value
    | none => w.globalConstants name

def newEnvironment (environment : Environment) : Eval ℕ := do
  let w ← get
  set { w with environments := w.environments ++ [environment] }
  return w.environments.length

def Environment.set (environment : Environment) (name : Text) (value : Object) : Environment :=
  { environment with vars := Function.update environment.vars name (some value) }

/-- `env->vars.set`. -/
def setVar (env : ℕ) (name : Text) (value : Object) : Eval Unit :=
  modify fun w => { w with environments := w.environments.modify env (·.set name value) }

/-- `env->vars.set` of a named argument. SRCLINE: Interpreter.cpp:410 -/
def setNamed (args : Arguments) (env : ℕ) (name : Text) : Eval Unit :=
  match args.named.lookup name with
  | none => throw .outOfRange
  | some value => setVar env name value

/-- `set_args_in_env`. SRCLINE: Interpreter.cpp:390-427 -/
def setArgsInEnv (form : Object) (args : Arguments) (spec : ArgumentSpec) (env : ℕ) :
    Eval Unit := do
  if spec.rest = [] ∧ args.unnamed.length ≠ spec.unnamed.length then
    throw (evalError form (text "did not get the expected number of unnamed arguments (got " ++
      digits args.unnamed.length ++ text ", expected " ++ digits spec.unnamed.length ++ text ")"))
  else if spec.rest ≠ [] ∧ args.unnamed.length < spec.unnamed.length then
    throw (evalError form (text "args with rest didn't get enough arguments (got " ++
      digits args.unnamed.length ++ text " but need at least " ++ digits spec.unnamed.length ++
      text ")"))
  (spec.unnamed.zip args.unnamed).forM fun (parameter, value) => setVar env parameter.name value
  spec.named.forM fun (name, _) => setNamed args env name
  if spec.rest ≠ [] then
    setVar env spec.rest (if args.rest.isNone then .emptyList else args.rest)
  else if args.hasRest then
    throw (evalError form (text "got too many arguments"))

/-! ## Forms -/

/-- `eval_list_return_last`. SRCLINE: Interpreter.cpp:974-992 -/
def evalListReturnLast (P : Printing) (ev : Evaluator) (env : ℕ) : Object → Eval Object
  | .emptyList => return .emptyList
  | .pair item next =>
    if next.isNull then ev item env
    else do
      let _ ← ev item env
      evalListReturnLast P ev env next
  | rest => throw (asPairError P rest)

/-- The values of a rest list, in a new list. SRCLINE: Interpreter.cpp:1982-2004 -/
def evalRest (ev : Evaluator) (rest : Object) (env : ℕ) : Eval Object := do
  if rest.isPair then
    let values ← rest.elements.mapM fun arg => ev arg env
    return .ofList values
  else
    return rest

/-- `eval_args`: unnamed forms, keys by their names, and the rest list.
SRCLINE: Interpreter.cpp:1970-2005 -/
def evalArgs (ev : Evaluator) (args : Arguments) (env : ℕ) : Eval Arguments := do
  let unnamed ← args.unnamed.mapM fun arg => ev arg env
  let named ← args.named.mapM fun (name, arg) => do return (name, ← ev arg env)
  let rest ← evalRest ev args.rest env
  return ⟨unnamed, named, rest⟩

def functionAt (ref : ℕ) : Eval FunctionObject := do
  match (← get).functions[ref]? with
  | some lam => return lam
  | none => throw .undefinedBehaviour

/-- The environment in which a call form's function runs: its arguments are put in order and
evaluated, and bound. SRCLINE: Interpreter.cpp:1076-1090 -/
def enterForm (P : Printing) (ev : Evaluator) (obj rest : Object) (ref : ℕ) (lam : FunctionObject)
    (env : ℕ) : Eval ℕ := do
  let args ← ofExcept (getArgsWithSpec P obj rest lam.args)
  let args ← evalArgs ev args env
  let lamEnv ← newEnvironment
    { name := text "lambda-call", ctx := obj, isFunction := true, ownerFunction := .function ref,
      parentEnv := lam.parentEnv }
  setArgsInEnv obj args lam.args lamEnv
  return lamEnv

/-- The environment in which `call_lambda_internal` runs its function.
SRCLINE: Interpreter.cpp:672-721 -/
def enterLambda (form : Object) (ref : ℕ) (lam : FunctionObject) (args : List Object) :
    Eval ℕ := do
  let minArgs := lam.args.unnamed.length
  let hasRest := lam.args.rest ≠ [] ∨ lam.args.varargs
  if args.length < minArgs ∨ (¬ hasRest ∧ args.length > minArgs) then
    throw (evalError (.function ref) (text "call_lambda: wrong number of arguments (expected " ++
      (if hasRest then text "at least " ++ digits minArgs else digits minArgs) ++ text ", got " ++
      digits args.length ++ text ")"))
  let funcArgs : Arguments :=
    { unnamed := args.take minArgs
      rest := if hasRest then Object.ofList (args.drop minArgs) else .none }
  let lamEnv ← newEnvironment
    { name := text "lambda-call", parentEnv := lam.parentEnv, isFunction := true,
      ownerFunction := .function ref, ctx := form }
  setArgsInEnv (.symbol (text "call-lambda")) funcArgs lam.args lamEnv
  return lamEnv

/-- `call_lambda_internal`. SRCLINE: Interpreter.cpp:662-727 -/
def callLambdaInternal (P : Printing) (ev : Evaluator) (form lambda : Object)
    (args : List Object) : Eval Object := do
  match lambda with
  | .function ref =>
    let lam ← functionAt ref
    let lamEnv ← enterLambda form ref lam args
    evalListReturnLast P ev lamEnv lam.body
  | _ => throw (.runtime (text "call_lambda: object is not a lambda"))

/-- The types that a checked argument may have, by their names; none stands for all. -/
abbrev Allowed := List Text

/-- The part of `vararg_check` that is about unnamed arguments, for a pattern that is not empty,
where no key is allowed. SRCLINE: Interpreter.cpp:2188-2245 -/
def varargCheck (P : Printing) (form : Object) (args : Arguments) (unnamed : List Allowed) :
    Except Failure Unit := do
  if args.unnamed.length ≠ unnamed.length then
    throw (evalError form (text "arity mismatch: expected " ++ digits unnamed.length ++
      text " arguments, but got " ++ digits args.unnamed.length ++ text " in: " ++
      args.printFull P))
  for ((arg, allowed), index) in (args.unnamed.zip unnamed).zipIdx do
    if allowed ≠ [] ∧ arg.typeName ∉ allowed then
      throw (evalError form (text "type error at argument [" ++ digits index ++
        text "]: expected one of [" ++ List.intercalate (text ", ") allowed ++
        text "], but got [" ++ arg.typeName ++ text "] in: " ++ args.printFull P))
  match args.named with
  | [] => pure ()
  | (name, _) :: _ =>
    throw (evalError form (text "unexpected named argument ':" ++ name ++ text "' in: " ++
      args.printFull P))

/-- The environment in which `apply` runs a function. SRCLINE: Interpreter.cpp:3410-3418 -/
def enterApply (form : Object) (ref : ℕ) (lam : FunctionObject) (args : Arguments) : Eval ℕ := do
  let lamEnv ← newEnvironment
    { name := text "apply", ctx := form, isFunction := true, ownerFunction := .function ref,
      parentEnv := lam.parentEnv }
  setArgsInEnv form args lam.args lamEnv
  return lamEnv

mutual

def callPrimitive (B : Builtins) (ev : Evaluator) (method : Primitive) (depth : ℕ) (form : Object)
    (args : Arguments) (env : ℕ) : Eval Object :=
  match depth, method with
  | 0, _ => throw .unfinished
  | depth + 1, .apply => evalApply B ev depth form args env
  | _ + 1, .other index => B.primitive index ev form args env

/-- `eval_apply`; a primitive that is applied may be `apply` again, at most so often.
SRCLINE: Interpreter.cpp:3375-3430 -/
def evalApply (B : Builtins) (ev : Evaluator) (depth : ℕ) (form : Object) (args : Arguments)
    (env : ℕ) : Eval Object := do
  ofExcept (varargCheck B.printing form args
    [[text "symbol", text "function", text "primitive", text "specialform"], []])
  match args.unnamed with
  | callable :: argsList :: _ =>
    let callable ← if callable.symbolName.isSome then ev callable env else pure callable
    let appliedArgs : Arguments := { unnamed := argsList.elements }
    match callable with
    | .primitive method =>
      match method with
      | .other index => if B.isCustom index then throw .undefinedBehaviour
      | .apply => pure ()
      callPrimitive B ev method depth form appliedArgs env
    | .function ref =>
      let lam ← functionAt ref
      let lamEnv ← enterApply form ref lam appliedArgs
      evalListReturnLast B.printing ev lamEnv lam.body
    | .specialForm _ =>
      throw (evalError form
        (text "apply: cannot apply a special form (like 'if' or 'define')"))
    | _ => throw (evalError form (text "apply: first argument is not a procedure"))
  | _ => throw .outOfRange

end

/-! ## Evaluation -/

/-- `eval_quote_special`. SRCLINE: Interpreter.cpp:1350-1358 -/
def evalQuoteSpecial (P : Printing) (form rest : Object) : Eval Object := do
  let args ← ofExcept (getArgsNoNamed P form rest { varargs := true })
  match args.unnamed with
  | [] => throw (evalError form (text "quote requires one argument"))
  | arg :: _ => return arg

/-- `eval_lambda_special`. SRCLINE: Interpreter.cpp:1297-1320 -/
def evalLambdaSpecial (P : Printing) (form rest : Object) (env : ℕ) : Eval Object := do
  match rest with
  | .pair paramsObj bodyObj =>
    if !paramsObj.isNull && !paramsObj.isPair then
      throw (evalError form (text "lambda: parameter list must be a list"))
    let args ← ofExcept (parseArgSpec P form paramsObj)
    if bodyObj.isNull then
      throw (evalError form (text "lambda: expected body after parameter list"))
    let w ← get
    set { w with functions := w.functions ++ [FunctionObject.mk (some env) bodyObj args] }
    return .function w.functions.length
  | _ => throw (asPairError P rest)

/-- `eval_symbol`. SRCLINE: Interpreter.cpp:994-1002 -/
def evalSymbol (name : Text) (env : ℕ) : Eval Object := do
  match (← get).lookup name env with
  | some value => return value
  | none => throw (evalError (.symbol name) (text "Unbound variable: " ++ name))

/-- `eval_pair`; `apply` may be applied to itself so many times.
SRCLINE: Interpreter.cpp:1004-1099 -/
def evalPair (B : Builtins) (ev : Evaluator) (depth : ℕ) (obj : Object) (env : ℕ) :
    Eval Object := do
  match obj with
  | .pair head rest =>
    let evalHead ← ev head env
    match evalHead with
    | .specialForm method =>
      match method with
      | .quote => evalQuoteSpecial B.printing obj rest
      | .lambda => evalLambdaSpecial B.printing obj rest env
      | .other index => B.special index ev obj rest env
    | .primitive method =>
      let specs : ArgumentSpec := match method with
        | .apply => { varargs := true }
        | .other index => B.specs index
      let args ← ofExcept (getArgs B.printing obj rest specs)
      let args ← evalArgs ev args env
      callPrimitive B ev method depth obj args env
    | .macroObject ref =>
      match (← get).macros[ref]? with
      | none => throw .undefinedBehaviour
      | some expander =>
        let args ← ofExcept (getArgsWithSpec B.printing obj rest expander.args)
        let macEnv ← newEnvironment { ctx := obj, isFunction := false, parentEnv := some env }
        setArgsInEnv obj args expander.args macEnv
        let expansion ← evalListReturnLast B.printing ev macEnv expander.body
        ev expansion env
    | .function ref =>
      let lam ← functionAt ref
      let lamEnv ← enterForm B.printing ev obj rest ref lam env
      evalListReturnLast B.printing ev lamEnv lam.body
    | _ => throw (evalError obj (text "Object is not callable: " ++ evalHead.typeName ++
        text " " ++ evalHead.print B.printing))
  | _ => throw (asPairError B.printing obj)

/-- `eval`. SRCLINE: Interpreter.cpp:923-949 -/
def eval (B : Builtins) (ev : Evaluator) (depth : ℕ) (obj : Object) (env : ℕ) : Eval Object :=
  match obj with
  | .symbol name => if obj.keywordName.isSome then return obj else evalSymbol name env
  | .pair _ _ => evalPair B ev depth obj env
  | .heapObject .pointer ref => B.deref ref
  | .heapObject .nativeObject _ | .int _ | .float _ | .string _ | .char _ | .emptyList | .array _
  | .heapObject .hashTable _ | .heapObject .reader _ | .function _ => return obj
  | _ => throw (evalError obj
      (text "cannot evaluate this object '" ++ obj.print B.printing ++ text "'"))

/-- `call_error_handler`. SRCLINE: Interpreter.cpp:880-901 -/
def callErrorHandler (P : Printing) (ev : Evaluator) (form handler : Object) (e : EvalException) :
    Eval Object :=
  let traceList := e.trace.foldr
    (fun (frame, message) list => .pair (.pair frame (.string message)) list) Object.emptyList
  callLambdaInternal P ev form handler [.string e.message, e.form, traceList]

/-- What the handler's answer says. SRCLINE: Interpreter.cpp:843-872 -/
def handlerResponse (response : Object) (e : EvalException) : Eval Object :=
  match response with
  | .emptyList => return response
  | .pair newCtx next =>
    let newMsg := match next with
      | .pair (.string message) _ => message
      | _ => text "Additional context"
    throw (.eval { e with trace := e.trace ++ [(newCtx, newMsg)] })
  | _ => if response.symbolName = some (text "#f") then return response else throw (.eval e)

/-- What an environment makes of an exception that comes through it.
SRCLINE: Interpreter.cpp:825-875 -/
def handleError (B : Builtins) (ev : Evaluator) (obj : Object) (env : ℕ) (e : EvalException) :
    Eval Object := do
  match (← get).environments[env]? with
  | none => throw .undefinedBehaviour
  | some environment =>
    let trace := if e.stackCounter > 0 then e.trace ++ [(obj, environment.name)] else e.trace
    let e := { e with trace := trace, stackCounter := e.stackCounter + 1 }
    match environment.errorHandler with
    | .function ref =>
      let response ← callErrorHandler B.printing ev obj (.function ref) e
      handlerResponse response e
    | _ => throw (.eval e)

def World.pop (w : World) : World := { w with dynamicStack := w.dynamicStack.tail }

/-- `eval_with_rewind`, for what evaluates the forms within.
SRCLINE: Interpreter.cpp:816-876 -/
def rewind (B : Builtins) (ev : Evaluator) (depth : ℕ) (obj : Object) (env : ℕ) : Eval Object :=
  fun w =>
    match (eval B ev depth obj env).runFrom { w with dynamicStack := env :: w.dynamicStack } with
    | (.ok value, w) => (.ok value, w.pop)
    | (.error (.eval e), w) => (handleError B ev obj env e).runFrom w.pop
    | (.error failure, w) => (.error failure, w)

/-- `eval_with_rewind`. SRCLINE: Interpreter.cpp:816-876 -/
def evalWithRewind (B : Builtins) : ℕ → Evaluator
  | 0, _, _ => throw .unfinished
  | depth + 1, obj, env => rewind B (evalWithRewind B depth) depth obj env

end Soot.Program.Script
