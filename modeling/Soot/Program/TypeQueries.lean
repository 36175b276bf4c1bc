import Soot.Computation.Collecting
import Soot.Computation.CommonAncestors
import Soot.Program.Deftype

/-!
# What the type system is asked besides definitions

Method signatures, the fields of bitfield types, forward declarations, the common ancestor of two
types and the search for a field by its offset.
-/

set_option autoImplicit false

namespace Soot.Program

open Soot.Computation

/-!
## Type specifications with their argument vectors

A `TypeSpec` points to the vector of its arguments, and the pointer may be null; two are equal only
if both point to equal vectors or neither to any. Signatures keep that difference, which the
specifications of the type system leave out.
-/

/-- A `TypeSpec` without an argument vector, or with one. SRCLINE: TypeSpec.hpp:43-121 -/
inductive Signature where
  | simple (type : String) (tags : List (String × String))
  | compound (type : String) (arguments : List Signature) (tags : List (String × String))

namespace Signature

def type : Signature → String
  | simple type _ => type
  | compound type _ _ => type

def arguments : Signature → List Signature
  | simple _ _ => []
  | compound _ arguments _ => arguments

def getArgsCount (s : Signature) : ℕ := s.arguments.length

def substituteType (methodType type : String) : String :=
  if type = "_type_" then methodType else type

def baseTypeOk (childType type implementation : String) : Bool :=
  implementation == type || (type == "_type_" && implementation == childType)

mutual

/-- `substitute_for_method_call`. SRCLINE: TypeSpec.cpp:218-231 -/
def substituteForMethodCall (methodType : String) : Signature → Signature
  | simple type tags => simple (substituteType methodType type) tags
  | compound type arguments tags =>
    compound (substituteType methodType type) (substituteAll methodType arguments) tags

@[inherit_doc substituteForMethodCall]
def substituteAll (methodType : String) : List Signature → List Signature
  | [] => []
  | s :: ss => substituteForMethodCall methodType s :: substituteAll methodType ss

end

mutual

/-- `is_compatible_child_method`; where it returns false, what it stores as the bad argument.
SRCLINE: TypeSpec.cpp:233-260 -/
def isCompatibleChildMethod (childType : String) : Signature → Signature → Except ℤ Unit
  | simple type _, implementation =>
    if !baseTypeOk childType type implementation.type then .error (-1)
    else if implementation.getArgsCount ≠ 0 then .error (-1)
    else .ok ()
  | compound type arguments _, implementation =>
    if !baseTypeOk childType type implementation.type then .error (-1)
    else if implementation.getArgsCount ≠ arguments.length then .error (-1)
    else areCompatible childType 0 arguments implementation.arguments

def areCompatible (childType : String) : ℕ → List Signature → List Signature → Except ℤ Unit
  | i, s :: ss, t :: ts =>
    match isCompatibleChildMethod childType s t with
    | .error _ => .error i
    | .ok _ => areCompatible childType (i + 1) ss ts
  | _, _, _ => .ok ()

end

mutual

/-- The specification of the type system, where no arguments are an empty list of them. -/
def toTypeSpec : Signature → TypeSpec
  | simple type tags => .mk type [] tags
  | compound type arguments tags => .mk type (toTypeSpecs arguments) tags

@[inherit_doc toTypeSpec]
def toTypeSpecs : List Signature → List TypeSpec
  | [] => []
  | s :: ss => toTypeSpec s :: toTypeSpecs ss

end

end Signature

/-!
## Bit fields

The fields of a bit field type, each added by name, type, bit offset and size. What is checked is
that a field is no larger than its type and ends inside the bit field type.
-/

/-- SRCLINE: Type.hpp:200-228 -/
structure BitField where
  type : TypeSpec
  name : String
  offset : ℤ
  size : ℤ
  skipInDecomp : Bool

/-- A bit field type is a value type with fields. SRCLINE: Type.hpp:639-658 -/
structure BitFieldType where
  type : SootType
  fields : List BitField

/-- `get_load_size`. SRCLINE: Type.cpp:563-565, 664-666 -/
def SootType.getLoadSize (t : SootType) : Except TypeFault ℤ :=
  if t.desc.typeClass = .null then .error .thrown else .ok t.desc.loadSize

/-- The arguments of `add_field_to_bitfield`. -/
structure BitfieldRequest where
  fieldName : String
  fieldType : TypeSpec
  offset : ℤ
  fieldSize : ℤ
  skipInDecomp : Bool

namespace BitfieldRequest

def size (r : BitfieldRequest) (loadBits : ℤ) : ℤ :=
  if r.fieldSize = -1 then loadBits else r.fieldSize

def field (r : BitfieldRequest) (loadBits : ℤ) : BitField :=
  ⟨r.fieldType, r.fieldName, r.offset, r.size loadBits, r.skipInDecomp⟩

end BitfieldRequest

def TypeSystem.loadBits (ts : TypeSystem) (fieldType : TypeSpec) : Except TypeFault ℤ := do
  let t ← ts.lookupType fieldType.baseType
  checkInt ((← t.getLoadSize) * 8)

/-- `add_field_to_bitfield`. SRCLINE: TypeSystem.cpp:1631-1656 -/
def addFieldToBitfield (ts : TypeSystem) (r : BitfieldRequest) :
    StatefulExcept BitFieldType TypeFault Unit := do
  let type ← get
  let loadBits ← ofExcept (ts.loadBits r.fieldType)
  ofExcept (requireThat (r.size loadBits ≤ loadBits))
  let end_ ← ofExcept (checkInt (r.size loadBits + r.offset))
  let loadSize ← ofExcept type.type.getLoadSize
  let width ← ofExcept (checkInt (loadSize * 8))
  ofExcept (requireThat (end_ ≤ width))
  set { type with fields := type.fields ++ [r.field loadBits] }

/-!
## The table of types with all that forward declarations say

Types may be declared before they are defined: as children of another type, as types, or with the
number of their methods. A definition is checked against what was declared.
-/

/-- The types, what was declared of them, and which may be redefined.
SRCLINE: TypeSystem.hpp:496-504 -/
structure DeclarationTable extends TypeSystem where
  forwardDeclaredMethodCounts : List (String × ℤ)
  allowRedefinition : Bool
  typesAllowedToBeRedefined : List String

abbrev TableM (α : Type) := StatefulExcept DeclarationTable TypeFault α

/-- An operation on the types and forward declarations of the table. -/
def onTypes {α : Type} (x : TypeM α) : TableM α := fun s =>
  ((x.runFrom s.toTypeSystem).1, { s with toTypeSystem := (x.runFrom s.toTypeSystem).2 })

/-- A number of methods must not disagree with what was declared before or with the type. -/
def checkDeclaredCount (disagree : ℤ → ℤ → Bool) (s : DeclarationTable) (name : String)
    (numMethods : ℤ) : Except TypeFault Unit := do
  match s.forwardDeclaredMethodCounts.lookup name with
  | some existing => requireThat !disagree existing numMethods
  | none => pure ()
  match s.types.lookup name with
  | some t => requireThat !disagree (← s.getNextMethodId t) numMethods
  | none => pure ()

def declareMethodCount (disagree : ℤ → ℤ → Bool) (name : String) (numMethods : ℤ) :
    TableM Unit := do
  let s ← get
  ofExcept (checkDeclaredCount disagree s name numMethods)
  set { s with
    forwardDeclaredMethodCounts := (name, numMethods) :: s.forwardDeclaredMethodCounts }

/-- `forward_declare_type_method_count`. SRCLINE: TypeSystem.cpp:2161-2182 -/
def forwardDeclareTypeMethodCount : String → ℤ → TableM Unit :=
  declareMethodCount fun existing numMethods => existing ≠ numMethods

/-- `forward_declare_type_method_count_multiple_of_4`.
SRCLINE: TypeSystem.cpp:2316-2338 -/
def forwardDeclareTypeMethodCountMultipleOf4 : String → ℤ → TableM Unit :=
  declareMethodCount fun existing numMethods => existing + 3 < numMethods

def checkMethodCount (s : DeclarationTable) (name : String)
    (t : SootType) : Except TypeFault Unit :=
  match s.forwardDeclaredMethodCounts.lookup name with
  | some declared => do requireThat (((← s.getNextMethodId t) : ℤ) == declared)
  | none => .ok ()

/-- What is asked of the parent of a type under a name that is new. -/
def checkNewType (ts : TypeSystem) (name : String) (t : SootType) : Except TypeFault Unit :=
  requireThat (isRootName name ||
    (ts.forwardDeclaredTypes.lookup t.parent).isNone &&
      ((ts.types.lookup t.parent).isSome || t.parent == "bitfield"))

/-- A type is entered under a new name, and checked against what the name was declared as. It stays
registered where the check throws. -/
def enterTypeAs (name : String) (t : SootType) : TypeM Unit := do
  let ts ← get
  let registered := { ts with types := (name, t) :: ts.types }
  set registered
  match ts.forwardDeclaredTypes.lookup name with
  | none => pure ()
  | some declared => ofExcept (requireThat (registered.tc (.ofName declared) (.ofName name)))
  set (registered.eraseForward name)

def redefineType (name : String) (t : SootType) : TypeM Unit :=
  modify fun ts => { ts with
    types := ts.types.map fun (key, u) => if key = name then (key, t) else (key, u) }

/-- `add_type`, by the name and the type it is given; `same` is the comparison of two types.
SRCLINE: TypeSystem.cpp:88-171 -/
def addTypeAs (same : SootType → SootType → Bool) (name : String) (t : SootType) :
    TableM Unit := do
  let s ← get
  ofExcept (checkMethodCount s name t)
  match s.types.lookup name with
  | some old =>
    if same old t then pure ()
    else if t.desc.typeClass == .null && old.desc.typeClass == .null then pure ()
    else if s.allowRedefinition || s.typesAllowedToBeRedefined.contains name then
      onTypes (redefineType name t)
    else throw .thrown
  | none => do
    ofExcept (checkNewType s.toTypeSystem name t)
    onTypes (enterTypeAs name t)

/-- How `lookup_type_allow_partial_def` ends, if it does: with the type that a name or the names it
is declared as lead to, or with an exception where they lead to a name that nothing is known of.
SRCLINE: TypeSystem.cpp:247-268 -/
inductive PartialLookup (ts : TypeSystem) : String → Option SootType → Prop
  | found {name : String} {t : SootType} (registered : ts.types.lookup name = some t) :
      PartialLookup ts name (some t)
  | unknown {name : String} (unregistered : ts.types.lookup name = none)
      (undeclared : ts.forwardDeclaredTypes.lookup name = none) : PartialLookup ts name none
  | follow {name next : String} {outcome : Option SootType}
      (unregistered : ts.types.lookup name = none)
      (declared : ts.forwardDeclaredTypes.lookup name = some next)
      (rest : PartialLookup ts next outcome) : PartialLookup ts name outcome

/-!
## Lowest common ancestors

The type that stands for several: the paths of two names up the table are compared from the top,
and the arguments of two specifications with as many arguments are joined one by one. `none` is a
lookup that throws.
-/

namespace TypeSystem

variable (ts : TypeSystem)

/-- `make_typespec`. SRCLINE: TypeSystem.cpp:278-285 -/
def makeTypespec (name : String) : Option TypeSpec :=
  if (ts.types.lookup name).isSome || (ts.forwardDeclaredTypes.lookup name).isSome then
    some (.ofName name)
  else none

/-- `get_path_up_tree`. SRCLINE: TypeSystem.cpp:1475-1489 -/
def getPathUpTree : ℕ → String → Option (List String)
  | 0, _ => none
  | n + 1, current => do
    let currentType ← ts.lookupTypeAllowPartialDef current
    if currentType.hasParent then
      return current :: (← getPathUpTree n currentType.parent)
    else return [current]

/-- `lca_base`: the last name that the two paths have in common, from the top down.
SRCLINE: TypeSystem.cpp:1491-1517 -/
def lcaBase (a b : String) : Option String :=
  if a = b then some a
  else do
    let aPath ← ts.getPathUpTree (ts.types.length + 2) a
    let bPath ← ts.getPathUpTree (ts.types.length + 2) b
    return lastCommon "object" aPath.reverse bPath.reverse

mutual

/-- `lowest_common_ancestor`. SRCLINE: TypeSystem.cpp:1519-1531 -/
def lowestCommonAncestor : TypeSpec → TypeSpec → Option TypeSpec
  | .mk aBase aArgs _, b => do
    let result ← ts.makeTypespec (← ts.lcaBase aBase b.baseType)
    let args ←
      if !aArgs.isEmpty && !b.empty && aArgs.length = b.arguments.length then
        lowestCommonAncestors aArgs b.arguments
      else some []
    return .mk result.baseType (result.arguments ++ args) result.tags

@[inherit_doc lowestCommonAncestor]
def lowestCommonAncestors : List TypeSpec → List TypeSpec → Option (List TypeSpec)
  | a :: as, b :: bs => do
    let first ← lowestCommonAncestor a b
    let rest ← lowestCommonAncestors as bs
    return first :: rest
  | _, _ => some []

end

def foldCommonAncestor : TypeSpec → List TypeSpec → Option TypeSpec
  | result, [] => some result
  | result, t :: rest => do foldCommonAncestor (← ts.lowestCommonAncestor result t) rest

/-- `lowest_common_ancestor` of a list; it is asserted not to be empty.
SRCLINE: TypeSystem.cpp:1533-1543 -/
def lowestCommonAncestorOf : List TypeSpec → Option TypeSpec
  | [] => none
  | [t] => some t
  | a :: b :: rest => do ts.foldCommonAncestor (← ts.lowestCommonAncestor a b) rest

end TypeSystem

/-!
## Reverse field lookup

Which field lies at an offset of a structure: a search through the fields, the elements of their
arrays, inline structures and the parents, ten levels deep. The kind of the access and the stride
are part of a request, but the search does not look at them. A path also carries scores; they are
added up after the first of the best paths is chosen, so all are zero in the comparison, and the
first path is the one that is returned.
-/

/-- SRCLINE: type_system/Config.hpp:10 -/
inductive RegClass where
  | GPR_8 | GPR_16 | GPR_32 | GPR_64 | FPR | INVALID
  deriving DecidableEq

/-- SRCLINE: TypeSystem.hpp:84-89 -/
structure DerefKind where
  isStore : Bool
  size : ℤ
  signExtend : Bool
  regKind : RegClass

/-- SRCLINE: TypeSystem.hpp:91-96 -/
structure FieldReverseLookupInput where
  deref : Option DerefKind
  offset : ℤ
  stride : ℤ
  baseType : TypeSpec

/-- SRCLINE: TypeSystem.hpp:99-116 -/
inductive PathToken where
  | field (name : String)
  | constantIdx (idx : ℤ)
  | varIdx
  deriving DecidableEq

/-- SRCLINE: TypeSystem.hpp:98-138 -/
structure FieldReverseLookupOutput where
  success : Bool
  addrOf : Bool
  resultType : TypeSpec
  tokens : List PathToken

namespace FieldReverseLookupOutput

def found (type : TypeSpec) (tokens : List PathToken) : FieldReverseLookupOutput :=
  ⟨true, false, type, tokens⟩

def failed : FieldReverseLookupOutput := ⟨false, false, .ofName "", []⟩

end FieldReverseLookupOutput

abbrev PathSearch :=
  SootType → ℤ → List PathToken → Except TypeFault (List FieldReverseLookupOutput)

namespace TypeSystem

variable (ts : TypeSystem)

/-- The bytes of an element of an array that has `fieldSize` bytes.
SRCLINE: TypeSystem.cpp:2488-2496 -/
def elementSize (f : Field) (fieldSize : ℤ) : Except TypeFault ℤ :=
  if f.isInline then do return (← ts.fieldType f).desc.sizeInMemory
  else .ok (fieldSize / f.arraySize)

/-- The paths through an array that the offset is in: only an element that is stored inline is
searched further. SRCLINE: TypeSystem.cpp:2486-2528 -/
def elementPaths (inner : PathSearch) (target : ℤ) (path : List PathToken) (f : Field)
    (fieldSize : ℤ) : Except TypeFault (List FieldReverseLookupOutput) := do
  let size ← ts.elementSize f fieldSize
  let index := (target - f.offset) / size
  let remainder := (target - f.offset) % size
  let path' := path ++ [.field f.name, .constantIdx index]
  if f.isInline ∧ 0 < remainder then
    let t ← orThrow (ts.lookupTypeAllowPartialDef f.type.baseType)
    if t.fields.isSome then inner t remainder path' else return []
  else return [.found f.type path']

/-- The paths through an inline structure that the offset is in.
SRCLINE: TypeSystem.cpp:2530-2546 -/
def inlinePaths (inner : PathSearch) (target : ℤ) (path : List PathToken) (f : Field)
    (fieldSize : ℤ) : Except TypeFault (List FieldReverseLookupOutput) := do
  let t ← orThrow (ts.lookupTypeAllowPartialDef f.type.baseType)
  if t.fields.isSome ∧ f.offset ≤ target ∧ target < f.offset + fieldSize then
    inner t (target - f.offset) (path ++ [.field f.name])
  else return []

/-- The paths through one field. SRCLINE: TypeSystem.cpp:2459-2547 -/
def fieldAccessPaths (inner : PathSearch) (target : ℤ) (path : List PathToken) (f : Field) :
    Except TypeFault (List FieldReverseLookupOutput) := do
  let size ← ts.getSizeInType f
  if f.isArray then
    if f.isDynamic = false ∧ f.offset ≤ target ∧ target < f.offset + size then
      ts.elementPaths inner target path f size
    else return []
  else if f.offset = target then return [.found f.type (path ++ [.field f.name])]
  else if f.isInline then ts.inlinePaths inner target path f size
  else return []

/-- `find_field_access_paths`, on a number of levels.
SRCLINE: TypeSystem.cpp:2447-2551 -/
def findFieldAccessPaths : ℕ → PathSearch
  | 0, _, _, _ => .ok []
  | n + 1, t, target, path => do
    let own ← collect (ts.fieldAccessPaths (findFieldAccessPaths n) target path) (t.fields.getD [])
    if t.hasParent then
      let parent ← orThrow (ts.lookupTypeAllowPartialDef t.parent)
      if parent.fields.isSome then return own ++ (← findFieldAccessPaths n parent target path)
      else return own
    else return own

def searchLevels : ℕ := 11

/-- `reverse_field_lookup`; `bitFields` are the fields of a type that is a bit field type.
SRCLINE: TypeSystem.cpp:2557-2660 -/
def reverseFieldLookup (bitFields : SootType → Option (List BitField))
    (input : FieldReverseLookupInput) : Except TypeFault FieldReverseLookupOutput := do
  let base ← orThrow (ts.lookupTypeAllowPartialDef input.baseType.baseType)
  if base.fields.isSome then
    return (← ts.findFieldAccessPaths searchLevels base input.offset []).headD .failed
  else
    match (bitFields base).bind (List.find? fun f =>
      input.offset < f.offset + f.size ∧ input.offset = f.offset) with
    | some f => return .found f.type [.field f.name]
    | none => return .failed

end TypeSystem

end Soot.Program
