import Soot.Program.Object
import Soot.Program.Node

/-!
# The type system

Type specifications, the types with their fields, methods and states, and what the node
builder, the emitters and the binary builder ask about them. A `Type *` of the source is
represented by the name under which the type is registered. A lookup that throws is `none`,
and so is one that never ends: a chain of parents or of forward declarations that is longer
than the table it runs through repeats itself.
-/

set_option autoImplicit false

namespace Soot.Program

/-! ## Type specifications -/

/-- A base type with arguments and tags. SRCLINE: TypeSpec.hpp -/
inductive TypeSpec where
  | mk (baseType : String) (arguments : List TypeSpec) (tags : List (String × String))

namespace TypeSpec

def ofName (name : String) : TypeSpec := mk name [] []

/-- `TypeSpec("function", args)`. -/
def function (args : List TypeSpec) : TypeSpec := mk "function" args []

def baseType : TypeSpec → String
  | mk base _ _ => base

def arguments : TypeSpec → List TypeSpec
  | mk _ args _ => args

def tags : TypeSpec → List (String × String)
  | mk _ _ tags => tags

def empty (t : TypeSpec) : Bool := t.arguments.isEmpty

def tryGetTag (t : TypeSpec) (name : String) : Option String := t.tags.lookup name

mutual

/-- `substitute_for_method_call`: the placeholder `_type_` becomes the receiver's type.
SRCLINE: TypeSpec.cpp:218-231 -/
def substituteForMethodCall (methodType : String) : TypeSpec → TypeSpec
  | mk base args tags =>
    mk (if base = "_type_" then methodType else base) (substituteAll methodType args) tags

@[inherit_doc substituteForMethodCall]
def substituteAll (methodType : String) : List TypeSpec → List TypeSpec
  | [] => []
  | t :: ts => substituteForMethodCall methodType t :: substituteAll methodType ts

end

end TypeSpec

/-! ## Types -/

/-- SRCLINE: Type.hpp:78-108 -/
structure MethodInfo where
  id : ℕ
  name : String
  type : TypeSpec
  definedInType : String
  noVirtual : Bool
  overridesParent : Bool
  onlyOverridesDocstring : Bool

/-- SRCLINE: Type.hpp:118-190 -/
structure Field where
  name : String
  type : TypeSpec
  offset : ℤ
  isInline : Bool
  isDynamic : Bool
  isArray : Bool
  arraySize : ℤ
  alignment : ℕ

/-- SRCLINE: Type.hpp:259-282 -/
inductive StateHandler where
  | ENTER | EXIT | CODE | UPDATE | POST | EVENT
  deriving DecidableEq

structure StateHandlerBody where
  kind : StateHandler
  eventId : String
  bodyAst : Object

/-- A reactive trigger of a track; the frame number is not compiled. -/
structure FrameTrigger where
  body : List Object

structure TrackInfo where
  name : String
  body : List Object
  frames : List FrameTrigger

/-- One state of a type. SRCLINE: Type.hpp:251-289 -/
structure StateDef where
  name : String
  handlers : List StateHandlerBody
  tracks : List TrackInfo

/-- A registered type: what the emitters read of it, its parent, its fields when it is a
structure, whether it is a basic and whether that is final, how its values are laid out, its
methods in the order they were added, its `new` method and its states.
SRCLINE: Type.hpp:295-690 -/
structure SootType where
  desc : TypeDesc
  parent : String
  fields : Option (List Field)
  isBasic : Bool
  isFinal : Bool
  isDynamic : Bool
  isPacked : Bool
  allowMisalign : Bool
  methods : List MethodInfo
  newMethod : Option MethodInfo
  stateDefs : List StateDef

namespace SootType

def name (t : SootType) : String := t.desc.name

def isReference (t : SootType) : Bool := t.desc.isReference

def hasParent (t : SootType) : Bool := t.parent ≠ "" && t.name ≠ "object"

def lookupField (t : SootType) (name : String) : Option Field :=
  t.fields.bind fun fs => fs.find? (·.name == name)

/-- `get_my_method` by name. SRCLINE: Type.cpp:349-361 -/
def getMyMethod (t : SootType) (name : String) : Option MethodInfo :=
  match t.methods.find? (·.name == name) with
  | some m => some m
  | none => if name = "new" then t.newMethod else none

/-- `get_my_method` by id. SRCLINE: Type.cpp:363-375 -/
def getMyMethodById (t : SootType) (id : ℕ) : Option MethodInfo :=
  match t.methods.find? (·.id == id) with
  | some m => some m
  | none => if id = 0 then t.newMethod else none

/-- `get_my_last_method`. SRCLINE: Type.cpp:377-386 -/
def getMyLastMethod (t : SootType) : Option MethodInfo :=
  t.methods.reverse.find? fun m => !m.overridesParent && !m.onlyOverridesDocstring

end SootType

/-! ## The table of types -/

/-- SRCLINE: TypeSystem.hpp -/
structure TypeSystem where
  types : List (String × SootType)
  forwardDeclaredTypes : List (String × String)

namespace TypeSystem

variable (ts : TypeSystem)

def lookupTypeNoThrow (name : String) : Option SootType := ts.types.lookup name

def followForward : ℕ → String → Option SootType
  | 0, _ => none
  | n + 1, name =>
    match ts.forwardDeclaredTypes.lookup name with
    | none => none
    | some next =>
      match ts.types.lookup next with
      | some t => some t
      | none => followForward n next

/-- `lookup_type_allow_partial_def`. SRCLINE: TypeSystem.cpp:247-268 -/
def lookupTypeAllowPartialDef (name : String) : Option SootType :=
  match ts.types.lookup name with
  | some t => some t
  | none => ts.followForward (ts.forwardDeclaredTypes.length + 1) name

/-! ## Type checking -/

/-- The walk up the parents of a type in search of `exp`. -/
def hasAncestor (exp : String) : ℕ → SootType → Option Bool
  | 0, _ => none
  | n + 1, t =>
    if t.hasParent then
      match ts.lookupTypeAllowPartialDef t.parent with
      | none => none
      | some p => if exp = t.parent then some true else hasAncestor exp n p
    else some false

/-- The names `typecheck_base_types` identifies before it compares. -/
def canonicalBase (allowAlias : Bool) (name : String) : String :=
  if name = "meters" ∨ name = "degrees" then "float"
  else if allowAlias ∧ name = "time-frame" then "int"
  else name

/-- `typecheck_base_types`. SRCLINE: TypeSystem.cpp:399-451 -/
def typecheckBaseTypes (allowAlias allowAbstract : Bool) (expected actual : String) :
    Option Bool :=
  let exp := canonicalBase allowAlias expected
  let act := canonicalBase allowAlias actual
  if allowAbstract ∧ exp = "_type_" then some (ts.lookupTypeAllowPartialDef act).isSome
  else
    match ts.lookupTypeAllowPartialDef exp with
    | none => none
    | some _ =>
      if exp = act then some true
      else
        match ts.lookupTypeAllowPartialDef act with
        | none => none
        | some t =>
          if exp = t.name then some true else ts.hasAncestor exp (ts.types.length + 1) t

/-- The tags of an expected type: `behavior` is the only one known.
SRCLINE: TypeSystem.cpp:349-366 -/
def typecheckTags (allowAlias allowAbstract : Bool) (actual : TypeSpec) :
    List (String × String) → Option Bool
  | [] => some true
  | (name, value) :: rest =>
    if name = "behavior" then do
      let here ← match actual.tryGetTag name with
        | none => some false
        | some got => ts.typecheckBaseTypes allowAlias allowAbstract value got
      return (← typecheckTags allowAlias allowAbstract actual rest) && here
    else none

mutual

/-- `typecheck_and_throw` with `throw_on_error` off: `none` where looking a type up throws.
SRCLINE: TypeSystem.cpp:322-385 -/
def typecheck (allowAlias allowAbstract : Bool) : TypeSpec → TypeSpec → Option Bool
  | .mk base args tags, actual => do
    let baseOk ← ts.typecheckBaseTypes allowAlias allowAbstract base actual.baseType
    let argsOk ←
      if args.length = actual.arguments.length then
        typecheckArgs allowAlias allowAbstract args actual.arguments
      else some args.isEmpty
    return (← ts.typecheckTags allowAlias allowAbstract actual tags) && baseOk && argsOk

def typecheckArgs (allowAlias allowAbstract : Bool) :
    List TypeSpec → List TypeSpec → Option Bool
  | e :: es, a :: as => do
    if ← typecheck allowAlias allowAbstract e a then typecheckArgs allowAlias allowAbstract es as
    else return false
  | _, _ => some true

end

/-- `tc`: whether the second type is accepted where the first is expected.
SRCLINE: TypeSystem.cpp:395-397 -/
def tc (expected actual : TypeSpec) : Bool :=
  (ts.typecheck false false expected actual).getD false

/-! ## Methods -/

/-- The search for a method from a type up its parents; a parent that is not registered
makes `lookup_type` throw. -/
def findMethod (own : SootType → Option MethodInfo) : ℕ → SootType → Except Unit (Option MethodInfo)
  | 0, _ => .error ()
  | n + 1, t =>
    match own t with
    | some m => .ok (some m)
    | none =>
      if t.hasParent then
        match ts.lookupTypeNoThrow t.parent with
        | none => .error ()
        | some p => findMethod own n p
      else .ok none

def ownMethod (name : String) (t : SootType) : Option MethodInfo :=
  if name = "new" then t.newMethod else t.getMyMethod name

/-- `try_lookup_method` by name; a type that is only forward declared is looked up through what
it was declared as, when that is a basic. SRCLINE: TypeSystem.cpp:2344-2358, 496-515 -/
def tryLookupMethod (typeName name : String) : Except Unit (Option MethodInfo) :=
  match ts.lookupTypeNoThrow typeName with
  | some t => ts.findMethod (ownMethod name) (ts.types.length + 1) t
  | none =>
    match ts.lookupTypeAllowPartialDef typeName with
    | none => .error ()
    | some t =>
      match ts.typecheck false false (.ofName "basic") (.ofName t.name) with
      | none => .error ()
      | some true => ts.findMethod (ownMethod name) (ts.types.length + 1) t
      | some false => .ok none

/-- `lookup_method` by name. SRCLINE: TypeSystem.cpp:521-542 -/
def lookupMethod (typeName name : String) : Except Unit MethodInfo :=
  match ts.lookupTypeNoThrow typeName with
  | none => .error ()
  | some t =>
    match ts.findMethod (ownMethod name) (ts.types.length + 1) t with
    | .ok (some m) => .ok m
    | _ => .error ()

def ownMethodById (id : ℕ) (t : SootType) : Option MethodInfo :=
  if id = 0 then t.newMethod else t.getMyMethodById id

/-- `lookup_method` by id. SRCLINE: TypeSystem.cpp:2273-2296 -/
def lookupMethodById (typeName : String) (id : ℕ) : Except Unit MethodInfo :=
  match ts.lookupTypeNoThrow typeName with
  | none => .error ()
  | some t =>
    match ts.findMethod (ownMethodById id) (ts.types.length + 1) t with
    | .ok (some m) => .ok m
    | _ => .error ()

/-! ## What a `new` expression asks -/

end TypeSystem

end Soot.Program
