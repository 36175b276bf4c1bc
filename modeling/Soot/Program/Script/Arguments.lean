import Soot.Program.Script.Object

/-!
# Lambda lists and arguments

A lambda list is parsed into a specification, and the forms of a call are put in order by it
before they are evaluated.
-/

set_option autoImplicit false

namespace Soot.Program.Script

open Soot.Computation

/-! ## Errors -/

/-- What is used of an `EvalException`. SRCLINE: Errors.hpp:17-39 -/
structure EvalException where
  form : Object
  message : Text
  stackCounter : ℕ := 0
  trace : List (Object × Text) := []

/-- How evaluation fails: by a throw, by what C++ leaves undefined, or not within the steps that
are given. -/
inductive Failure where
  | eval (exception : EvalException)
  | runtime (what : Text)
  | outOfRange
  | undefinedBehaviour
  | unfinished

/-- `throw_eval_error`. -/
def evalError (form : Object) (message : Text) : Failure := .eval ⟨form, message, 0, []⟩

/-- What `as_pair` throws. SRCLINE: Object.cpp:531-537 -/
def asPairError (P : Printing) (o : Object) : Failure :=
  .runtime (text "as_pair called on a " ++ o.typeName ++ text " " ++ o.print P)

/-! ## Specifications -/

/-- SRCLINE: Object.hpp:1189-1199 -/
structure NamedArg where
  hasDefault : Bool := false
  defaultValue : Object := .none

/-- SRCLINE: Object.hpp:1206-1219 -/
structure PositionalArg where
  name : Text := []
  isOptional : Bool
  defaultValue : Object := .none

/-- The named ones are in the order in which the map has them.
SRCLINE: Object.hpp:1224-1246 -/
structure ArgumentSpec where
  varargs : Bool := false
  varkeys : Bool := false
  unnamed : List PositionalArg := []
  named : List (Text × NamedArg) := []
  rest : Text := []

/-- `print`. SRCLINE: Object.cpp:1217-1222 -/
def ArgumentSpec.print (spec : ArgumentSpec) : Text :=
  text "#<arg-spec u:" ++ digits spec.unnamed.length ++ text " n:" ++ digits spec.named.length ++
    text " r:" ++ (if spec.rest = [] then text "0" else text "1") ++
    (if spec.varkeys then text " +rest" else []) ++
    (if spec.varargs then text " +vararg" else []) ++ text ">"

def spaced (l : List Text) : Text := List.intercalate [byte ' '] l

/-- `print_full` with its default limits. SRCLINE: Object.cpp:1224-1267 -/
def ArgumentSpec.printFull (P : Printing) (spec : ArgumentSpec) : Text :=
  let named := spec.named.map fun (name, arg) =>
    if arg.defaultValue.isNone then name
    else byte '(' :: name ++ text " " ++ truncateText (arg.defaultValue.print P) 64 ++ text ")"
  let groups :=
    (if spec.unnamed = [] then [] else
      [spaced (spec.unnamed.map fun arg => truncateText arg.name 64)]) ++
    (if spec.named = [] then [] else [text "&key " ++ spaced named]) ++
    (if spec.rest = [] then [] else [text "&rest: " ++ truncateText spec.rest 64])
  let result := byte '(' :: spaced groups ++ text ")"
  if result.length > 512 then result.take 508 ++ text "...\x7d" else result

/-- What the words `&key` and `&optional` have been seen last. -/
inductive ParameterKind where
  | positional
  | optional
  | key
  deriving DecidableEq

/-- A parameter that is a key: its name and default. SRCLINE: Interpreter.cpp:2063-2087 -/
def parseKey (form arg : Object) : Except Failure (Text × NamedArg) :=
  match arg with
  | .symbol name => .ok (name, {})
  | .pair (.symbol name) (.pair value _) => .ok (name, ⟨true, value⟩)
  | .pair (.symbol name) _ => .ok (name, {})
  | .pair _ _ => .error (evalError form (text "key name must be a symbol"))
  | _ => .error (evalError form (text "invalid key argument"))

/-- A parameter that is optional. SRCLINE: Interpreter.cpp:2094-2120 -/
def parseOptional (P : Printing) (form arg : Object) : Except Failure PositionalArg :=
  match arg with
  | .symbol name => .ok ⟨name, true, .emptyList⟩
  | .pair (.symbol name) (.pair value _) => .ok ⟨name, true, value⟩
  | .pair (.symbol name) _ => .ok ⟨name, true, .none⟩
  | .pair _ _ => .error (evalError form (text "optional name must be a symbol"))
  | _ => .error (evalError form (text "invalid optional argument " ++ arg.print P))

/-- The name after `&rest`. SRCLINE: Interpreter.cpp:2029-2044 -/
def parseRest (form : Object) : Object → Except Failure Text
  | .pair (.symbol name) tail =>
    if tail.isNull then .ok name
    else .error (evalError form (text "rest must be the last argument"))
  | .pair _ _ => .error (evalError form (text "rest name must be a symbol"))
  | _ => .error (evalError form (text "rest arg must have a name"))

/-- The loop of `parse_arg_spec`. SRCLINE: Interpreter.cpp:2016-2132 -/
def parseArgSpecFrom (P : Printing) (form : Object) :
    ArgumentSpec → ParameterKind → Object → Except Failure ArgumentSpec
  | spec, _, .emptyList => .ok spec
  | spec, kind, .pair arg current =>
    if arg.symbolName = some (text "&rest") then do
      return { spec with rest := ← parseRest form current }
    else if arg.symbolName = some (text "&key") then
      parseArgSpecFrom P form { spec with varkeys := true } .key current
    else if arg.symbolName = some (text "&optional") then
      parseArgSpecFrom P form { spec with varkeys := false } .optional current
    else match kind with
      | .key =>
        match parseKey form arg with
        | .error e => .error e
        | .ok (name, named) =>
          if spec.named.any (·.1 = name) then
            .error (evalError form
              (text "key argument " ++ name ++ text " multiply defined"))
          else
            parseArgSpecFrom P form { spec with named := spec.named ++ [(name, named)] } .key current
      | .optional =>
        match parseOptional P form arg with
        | .error e => .error e
        | .ok optional =>
          parseArgSpecFrom P form { spec with unnamed := spec.unnamed ++ [optional] } .optional
            current
      | .positional =>
        match arg with
        | .symbol name =>
          parseArgSpecFrom P form { spec with unnamed := spec.unnamed ++ [⟨name, false, .none⟩] }
            .positional current
        | _ => .error (evalError form (text "positional args must be symbols"))
  | _, _, _ => .error (evalError form (text "argument spec must be a list"))

/-- `parse_arg_spec`. SRCLINE: Interpreter.cpp:2010-2130 -/
def parseArgSpec (P : Printing) (form rest : Object) : Except Failure ArgumentSpec :=
  parseArgSpecFrom P form {} .positional rest

/-! ## Arguments -/

/-- `Arguments`; the named ones are in the order of their names.
SRCLINE: Object.hpp:1123-1126 -/
structure Arguments where
  unnamed : List Object := []
  named : List (Text × Object) := []
  rest : Object := .none

/-- `has_rest`. SRCLINE: Object.hpp:1145-1149 -/
def Arguments.hasRest (args : Arguments) : Bool := !args.rest.isNone && !args.rest.isNull

/-- An assignment to a `std::map`. -/
def assign {α : Type} (name : Text) (value : α) : List (Text × α) → List (Text × α)
  | [] => [(name, value)]
  | (other, old) :: named =>
    if name = other then (name, value) :: named
    else if name < other then (name, value) :: (other, old) :: named
    else (other, old) :: assign name value named

/-- `print_full` with its default limits. SRCLINE: Object.cpp:1274-1329 -/
def Arguments.printFull (P : Printing) (args : Arguments) : Text :=
  let groups :=
    (if args.unnamed = [] then [] else
      [spaced (args.unnamed.map fun arg => truncateText (arg.print P) 64)]) ++
    (if args.named = [] then [] else
      [text "&key " ++ spaced (args.named.map fun (name, value) =>
        byte ':' :: name ++ text " " ++ truncateText (value.print P) 64)]) ++
    (if args.hasRest then
      [text "&rest: " ++ spaced (args.rest.elements.map fun arg => truncateText (arg.print P) 64)]
      else [])
  let result := byte '(' :: spaced groups ++ text ")"
  if result.length > 512 then result.take 508 ++ text "...\x7d" else result

/-- The positional forms of a call, with defaults for those that are left out, and the forms that
follow. SRCLINE: Interpreter.cpp:1827-1850 -/
def takePositional (P : Printing) (form : Object) (spec : ArgumentSpec) :
    List PositionalArg → Object → Except Failure (List Object × Object)
  | [], current => .ok ([], current)
  | parameter :: parameters, .emptyList =>
    if parameter.isOptional then
      (takePositional P form spec parameters .emptyList).map fun (forms, current) =>
        (parameter.defaultValue :: forms, current)
    else
      .error (evalError form (text "Not enough arguments. Required positional argument '" ++
        parameter.name ++ text "' is missing in " ++ spec.print ++ text "."))
  | _ :: parameters, .pair value current =>
    (takePositional P form spec parameters current).map fun (forms, current) =>
      (value :: forms, current)
  | _ :: _, current => .error (asPairError P current)

/-- The keys of a call, and the forms of the rest list.
SRCLINE: Interpreter.cpp:1852-1901 -/
def takeNamed (P : Printing) (form : Object) (spec : ArgumentSpec) :
    List (Text × Object) → Object → Except Failure (List (Text × Object) × Object)
  | named, .emptyList => .ok (named, .none)
  | named, .pair arg current =>
    match arg.keywordName with
    | some name =>
      if spec.varkeys || !spec.named.isEmpty then
        if !spec.varkeys && !spec.named.any (·.1 = name) then
          .error (evalError form (text "Unknown key argument: " ++ name ++ text " in " ++
            spec.printFull P))
        else if !spec.varkeys && named.any (·.1 = name) then
          .error (evalError form (text "Key argument: " ++ name ++ text " multiply defined in " ++
            spec.printFull P))
        else match current with
          | .emptyList =>
            .error (evalError form (text "Key " ++ name ++ text " is missing a value in " ++
              spec.printFull P))
          | .pair value current => takeNamed P form spec (assign name value named) current
          | current => .error (asPairError P current)
      else if spec.rest ≠ [] ∨ spec.varargs then .ok (named, .pair arg current)
      else .error (evalError form
        (text "Too many arguments (no &rest or &key expected) in " ++ spec.printFull P))
    | none =>
      if spec.rest ≠ [] ∨ spec.varargs then .ok (named, .pair arg current)
      else .error (evalError form
        (text "Too many arguments (no &rest or &key expected) in " ++ spec.printFull P))
  | _, current => .error (asPairError P current)

/-- Defaults for the keys that are left out. SRCLINE: Interpreter.cpp:1903-1914 -/
def fillNamed (P : Printing) (form : Object) (spec : ArgumentSpec) :
    List (Text × NamedArg) → List (Text × Object) → Except Failure (List (Text × Object))
  | [], named => .ok named
  | (name, parameter) :: parameters, named =>
    if named.any (·.1 = name) then fillNamed P form spec parameters named
    else if parameter.hasDefault then
      fillNamed P form spec parameters (assign name parameter.defaultValue named)
    else
      .error (evalError form (text "Required key argument " ++ name ++ text " is missing in " ++
        spec.printFull P))

/-- `get_args_with_spec`. SRCLINE: Interpreter.cpp:1821-1917 -/
def getArgsWithSpec (P : Printing) (form rest : Object) (spec : ArgumentSpec) :
    Except Failure Arguments := do
  let (unnamed, current) ← takePositional P form spec spec.unnamed rest
  let (named, rest) ← takeNamed P form spec [] current
  let named ← fillNamed P form spec spec.named named
  return ⟨unnamed, named, rest⟩

/-- The loop of `get_args`: unnamed and named forms, and what is left.
SRCLINE: Interpreter.cpp:1746-1782 -/
def takeArgs (P : Printing) (form : Object) (spec : ArgumentSpec) :
    Arguments → Object → Except Failure Arguments
  | args, .emptyList => .ok args
  | args, .pair arg current =>
    match (if spec.varkeys then arg.keywordName else none) with
    | some name =>
      if !spec.varargs && !spec.named.any (·.1 = name) then
        .error (evalError form (text "Key argument " ++ name ++ text " wasn't expected"))
      else if args.named.any (·.1 = name) then
        .error (evalError form (text "Key argument " ++ name ++ text " multiply defined"))
      else match current with
        | .emptyList => .error (evalError form (text "Key argument didn't have a value"))
        | .pair value current =>
          takeArgs P form spec { args with named := assign name value args.named } current
        | current => .error (asPairError P current)
    | none =>
      if spec.varargs || args.unnamed.length < spec.unnamed.length then
        takeArgs P form spec { args with unnamed := args.unnamed ++ [arg] } current
      else .ok { args with rest := .pair arg current }
  | _, current => .error (asPairError P current)

/-- `get_args`. SRCLINE: Interpreter.cpp:1743-1811 -/
def getArgs (P : Printing) (form rest : Object) (spec : ArgumentSpec) :
    Except Failure Arguments := do
  let args ← takeArgs P form spec {} rest
  let named ← spec.named.foldlM (fun named (name, parameter) =>
    if named.any (·.1 = name) then .ok named
    else if parameter.hasDefault then .ok (assign name parameter.defaultValue named)
    else .error (evalError form (text "key argument \"" ++ name ++
      text "\" wasn't given and has no default value"))) args.named
  let args := { args with named := named }
  if !spec.varargs then
    if args.unnamed.length < spec.unnamed.length then
      throw (evalError form (text "didn't get enough arguments"))
    if args.hasRest && spec.rest = [] then
      throw (evalError form (text "got too many arguments"))
  return args

/-- `get_args_no_named`. SRCLINE: Interpreter.cpp:1922-1958 -/
def getArgsNoNamed (P : Printing) (form rest : Object) (spec : ArgumentSpec) :
    Except Failure Arguments := do
  if !spec.named.isEmpty then
    throw (evalError form (text "key arguments were expected in get_args_no_named"))
  let args ← takeArgs P form { spec with varkeys := false } {} rest
  if !spec.varargs then
    if args.unnamed.length < spec.unnamed.length then
      throw (evalError form (text "didn't get enough arguments"))
    if args.hasRest && spec.rest = [] then
      throw (evalError form (text "got too many arguments"))
  return args

end Soot.Program.Script
