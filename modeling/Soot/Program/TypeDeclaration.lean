import Soot.Program.TypeSystem
import Soot.Computation.StatefulExcept

/-!
# Declaring types

The operations that fill the table of types: forward declarations, structures laid out field
by field, methods declared, replaced and documented, and the built-in types. An operation that
throws keeps what it wrote before it threw. Placing a field beyond the range of `int` has no
defined behaviour and is kept apart from an exception.
-/

set_option autoImplicit false

namespace Soot.Program

open Soot.Computation

inductive TypeFault where
  /-- it throws -/
  | thrown
  /-- an `int` overflows or is divided by zero -/
  | undefined
  deriving DecidableEq

abbrev TypeM (α : Type) := StatefulExcept TypeSystem TypeFault α

/-- A lookup that throws. -/
def orThrow {α : Type} : Option α → Except TypeFault α
  | some a => .ok a
  | none => .error .thrown

@[inherit_doc orThrow]
def orThrown {α : Type} : Except Unit α → Except TypeFault α
  | .ok a => .ok a
  | .error () => .error .thrown

/-- The condition of an `if` whose other branch throws. -/
def requireThat (condition : Bool) : Except TypeFault Unit :=
  if condition then .ok () else .error .thrown

/-- The value of an `int`. -/
def checkInt (z : ℤ) : Except TypeFault ℤ :=
  if -2 ^ 31 ≤ z ∧ z < 2 ^ 31 then .ok z else .error .undefined

/-! ## Compatible methods -/

namespace TypeSpec

mutual

/-- `is_compatible_child_method`. SRCLINE: TypeSpec.cpp:233-260 -/
def isCompatibleChildMethod (childType : String) : TypeSpec → TypeSpec → Bool
  | mk base args _, implementation =>
    (implementation.baseType == base ||
      (base == "_type_" && implementation.baseType == childType)) &&
    implementation.arguments.length == args.length &&
    areCompatible childType args implementation.arguments

@[inherit_doc isCompatibleChildMethod]
def areCompatible (childType : String) : List TypeSpec → List TypeSpec → Bool
  | t :: ts, i :: is => isCompatibleChildMethod childType t i && areCompatible childType ts is
  | _, _ => true

end

end TypeSpec

/-! ## Types before they are registered -/

namespace TypeConfig

def pointerSize : ℕ := 8

def structAlignment : ℕ := 16

def structArrayStrideAlignment : ℕ := 16

def structArrayStartAlignment : ℕ := 16

def basicArrayStartAlignment : ℕ := 16

end TypeConfig

namespace SootType

def bare (desc : TypeDesc) (parent : String) : SootType :=
  { desc
    parent
    fields := none
    isBasic := false
    isFinal := false
    isDynamic := false
    isPacked := false
    allowMisalign := false
    methods := []
    newMethod := none
    stateDefs := [] }

/-- SRCLINE: Type.cpp:558-588 -/
def nullType (name : String) : SootType := bare ⟨name, .null, false, 0, false, 0, 0⟩ "object"

/-- SRCLINE: Type.cpp:608-663 -/
def valueType (parent name : String) (size : ℕ) (signExtend floatRegister : Bool) : SootType :=
  bare ⟨name, .value, floatRegister, size, signExtend, size, size⟩ parent

/-- SRCLINE: Type.cpp:709-712 -/
def structureType (parent name : String) : SootType :=
  { bare ⟨name, .reference, false, TypeConfig.pointerSize, false, 0, TypeConfig.structAlignment⟩
      parent with fields := some [] }

/-- SRCLINE: Type.cpp:819-820 -/
def basicType (parent name : String) : SootType :=
  { structureType parent name with isBasic := true }

/-- `StructureType::inherit`. SRCLINE: Type.cpp:723-733 -/
def inherit (t parent : SootType) : SootType :=
  { t with
    fields := parent.fields
    desc := { t.desc with sizeInMemory := parent.desc.sizeInMemory }
    isDynamic := parent.isDynamic }

/-- `get_inline_array_stride_alignment`. -/
def inlineArrayStrideAlignment (t : SootType) : ℕ :=
  if t.isReference then if t.isPacked then 1 else TypeConfig.structArrayStrideAlignment
  else t.desc.alignment

/-- `get_inline_array_start_alignment`. -/
def inlineArrayStartAlignment (t : SootType) : ℕ :=
  if t.isBasic then TypeConfig.basicArrayStartAlignment
  else if t.isReference then
    if t.isPacked || t.allowMisalign then 1 else TypeConfig.structArrayStartAlignment
  else t.desc.alignment

end SootType

/-! ## Fields -/

/-- What `add_field_to_type` is asked: `-1` stands for no array size and for no explicit
offset. -/
structure FieldRequest where
  name : String
  type : TypeSpec
  isInline : Bool
  isDynamic : Bool
  arraySize : ℤ
  offsetOverride : ℤ

def FieldRequest.toField (r : FieldRequest) : Field :=
  { name := r.name
    type := r.type
    offset := -1
    isInline := r.isInline
    isDynamic := r.isDynamic
    isArray := r.isDynamic || r.arraySize ≠ -1
    arraySize := if r.arraySize ≠ -1 then r.arraySize else 0
    alignment := 0 }

/-- `(value + alignment - 1) & ~(alignment - 1)`: clearing the bits of a mask takes away the
bits that are set. SRCLINE: TypeSystem.cpp:2363-2365 -/
def align (value alignment : ℕ) : ℕ :=
  (value + alignment - 1) - ((value + alignment - 1) &&& (alignment - 1))

namespace TypeSystem

variable (ts : TypeSystem)

/-- `is_type`: `make_typespec` throws for a name that is not known, and the comparison where a type
is looked up in vain. SRCLINE: Deftype.cpp:53-55, TypeSystem.cpp:278-285 -/
def isType (expected actual : String) : Except TypeFault Bool := do
  requireThat ((ts.types.lookup expected).isSome ||
    (ts.forwardDeclaredTypes.lookup expected).isSome)
  orThrow (ts.typecheck false false (.ofName expected) (.ofName actual))

/-- The type of a field; what the layout asks of a null type throws. -/
def fieldType (f : Field) : Except TypeFault SootType :=
  match ts.lookupTypeAllowPartialDef f.type.baseType with
  | none => .error .thrown
  | some t => if t.desc.typeClass = .null then .error .thrown else .ok t

/-- `get_alignment_in_type`. SRCLINE: TypeSystem.cpp:2367-2390 -/
def getAlignmentInType (f : Field) : Except TypeFault ℕ := do
  let t ← ts.fieldType f
  if t.isReference then
    if f.isInline then
      return if f.isArray then t.inlineArrayStartAlignment else t.desc.alignment
    else return TypeConfig.pointerSize
  else return t.desc.alignment

/-- `get_size_in_type`. SRCLINE: TypeSystem.cpp:2391-2430 -/
def getSizeInType (f : Field) : Except TypeFault ℤ :=
  if f.isDynamic then .ok 0
  else do
    let t ← ts.fieldType f
    if f.isArray then
      if f.isInline then checkInt (f.arraySize * t.desc.sizeInMemory)
      else if t.isReference then checkInt (f.arraySize * TypeConfig.pointerSize)
      else checkInt (f.arraySize * align t.desc.sizeInMemory t.desc.alignment)
    else if f.isInline then return t.desc.sizeInMemory
    else if t.isReference then return TypeConfig.pointerSize
    else return align t.desc.sizeInMemory t.desc.alignment

/-- `value` rounded up to a multiple of `alignment` where it is none. -/
def roundUp (value alignment : ℕ) : Except TypeFault ℕ :=
  if alignment = 0 then .error .undefined
  else if value % alignment = 0 then .ok value
  else do
    let _ ← checkInt (value + alignment - 1)
    return align value alignment

/-- The bytes a field takes: an inline structure takes its size rounded up to its alignment.
SRCLINE: TypeSystem.cpp:944-963 -/
def fieldSize (f : Field) : Except TypeFault ℤ := do
  let size ← ts.getSizeInType f
  if f.isInline ∧ ¬ f.isArray then
    let t ← ts.fieldType f
    if t.isReference then return ← roundUp t.desc.sizeInMemory t.desc.alignment
    else return size
  else return size

/-- Where a field goes: behind everything the structure holds, unless its offset is given. -/
def fieldOffset (t : SootType) (r : FieldRequest) (alignment : ℕ) : Except TypeFault ℤ :=
  if r.offsetOverride = -1 then do return ← roundUp t.desc.sizeInMemory alignment
  else .ok r.offsetOverride

/-- `add_field_to_type`. SRCLINE: TypeSystem.cpp:906-988 -/
def addFieldToType (t : SootType) (r : FieldRequest) : Except TypeFault (SootType × ℤ) := do
  let fields ← orThrow t.fields
  requireThat (t.lookupField r.name).isNone
  let alignment ← ts.getAlignmentInType r.toField
  let offset ← fieldOffset t r alignment
  let size ← ts.fieldSize r.toField
  let afterField ← checkInt (offset + size)
  let placed : Field := { r.toField with offset, alignment }
  return ({ t with
    fields := some (fields ++ [placed])
    isDynamic := t.isDynamic || r.isDynamic
    desc := { t.desc with sizeInMemory := max t.desc.sizeInMemory afterField.toNat } }, offset)

/-! ## Methods -/

/-- `get_next_method_id`. SRCLINE: TypeSystem.cpp:475-490 -/
def nextMethodId : ℕ → SootType → Except TypeFault ℕ
  | 0, _ => .error .thrown
  | n + 1, t =>
    match t.getMyLastMethod with
    | some m => .ok (m.id + 1)
    | none =>
      if t.hasParent then
        match ts.lookupTypeNoThrow t.parent with
        | none => .error .thrown
        | some p => nextMethodId n p
      else .ok 1

@[inherit_doc nextMethodId]
def getNextMethodId (t : SootType) : Except TypeFault ℕ := ts.nextMethodId (ts.types.length + 1) t

/-- What `add_method` asserts: a method that does not replace one of the parent is numbered on
from the last new one of the type. -/
def numberedOn (t : SootType) (info : MethodInfo) : Bool :=
  info.overridesParent || t.getMyLastMethod.all fun last => last.id + 1 == info.id

/-- `add_method`: an assertion that fails throws. SRCLINE: Type.cpp:407-418 -/
def addMethod (t : SootType) (info : MethodInfo) : Except TypeFault SootType := do
  requireThat (numberedOn t info)
  return { t with methods := t.methods ++ [info] }

/-- `add_new_method`. SRCLINE: TypeSystem.cpp:649-665 -/
def addNewMethod (t : SootType) (type : TypeSpec) : Except TypeFault SootType :=
  match t.newMethod with
  | some existing =>
    if existing.type.isCompatibleChildMethod t.name type then .ok t else .error .thrown
  | none => .ok { t with newMethod := some ⟨0, "new", type, t.name, false, false, false⟩ }

/-- The search `try_lookup_method` makes from a type. -/
def tryLookupMethodFrom (t : SootType) (name : String) : Except TypeFault (Option MethodInfo) :=
  orThrown (ts.findMethod (ownMethod name) (ts.types.length + 1) t)

/-- `declare_method`. SRCLINE: TypeSystem.cpp:575-624 -/
def declareMethod (t : SootType) (name : String) (noVirtual : Bool) (type : TypeSpec)
    (overrideType : Bool) : Except TypeFault SootType :=
  if name = "new" then
    if overrideType then .error .thrown else addNewMethod t type
  else do
    match ← ts.tryLookupMethodFrom t name, overrideType with
    | none, true => .error .thrown
    | some existing, true => addMethod t ⟨existing.id, name, type, t.name, noVirtual, true, false⟩
    | some existing, false =>
      if existing.type.isCompatibleChildMethod t.name type then .ok t else .error .thrown
    | none, false =>
      addMethod t ⟨← ts.getNextMethodId t, name, type, t.name, noVirtual, false, false⟩

/-- `overlay_method`. SRCLINE: TypeSystem.cpp:714-732 -/
def overlayMethod (t : SootType) (name overlayName : String) (type : TypeSpec) :
    Except TypeFault SootType := do
  match ← ts.tryLookupMethodFrom t overlayName with
  | none => .error .thrown
  | some existing => addMethod t ⟨existing.id, name, type, t.name, false, true, false⟩

/-- `override_method`: a method of the parent documented anew.
SRCLINE: TypeSystem.cpp:737-752 -/
def overrideMethod (t : SootType) (name : String) : Except TypeFault SootType := do
  match ← orThrown (ts.tryLookupMethod t.parent name) with
  | none => .error .thrown
  | some existing =>
    addMethod t ⟨existing.id, name, existing.type, t.name, existing.noVirtual, false, true⟩

/-! ## The table -/

def update (t : SootType) : TypeSystem :=
  { ts with types := ts.types.map fun (key, old) => if key = t.name then (key, t) else (key, old) }

/-- `m_forward_declared_types.erase`. -/
def eraseForward (name : String) : TypeSystem :=
  { ts with forwardDeclaredTypes := ts.forwardDeclaredTypes.filter fun e => e.1 != name }

end TypeSystem

def isRootName (name : String) : Bool :=
  name = "object" || name = "none" || name = "_type_" || name = "_varargs_"

/-- What `add_type` asks of the parent of a new type. -/
def checkParent (ts : TypeSystem) (t : SootType) : Except TypeFault Unit :=
  requireThat (isRootName t.name ||
    (ts.forwardDeclaredTypes.lookup t.parent).isNone &&
      ((ts.types.lookup t.parent).isSome || t.parent == "bitfield"))

/-- A new type is entered, and checked against what it was forward declared as. A type that
turns out not to be that is registered before the call throws. -/
def enterType (t : SootType) : TypeM Unit := do
  let ts ← get
  let registered := { ts with types := (t.name, t) :: ts.types }
  set registered
  match ts.forwardDeclaredTypes.lookup t.name with
  | none => pure ()
  | some declared => ofExcept (requireThat (registered.tc (.ofName declared) (.ofName t.name)))
  set (registered.eraseForward t.name)

/-- `add_type`. A type that is registered already stays as it is, whether it is the same
(`same`, the comparison of two types) or not: nothing allows a redefinition.
SRCLINE: TypeSystem.cpp:88-171 -/
def addType (same : SootType → SootType → Bool) (t : SootType) : TypeM Unit := do
  let ts ← get
  match ts.types.lookup t.name with
  | some old => ofExcept (requireThat (same old t))
  | none => do
    ofExcept (checkParent ts t)
    enterType t

/-- `forward_declare_type_as_type`. SRCLINE: TypeSystem.cpp:173-186 -/
def forwardDeclareTypeAsType (name : String) : TypeM Unit := do
  let ts ← get
  if (ts.types.lookup name).isSome then pure ()
  else
    match ts.forwardDeclaredTypes.lookup name with
    | some _ => throw .thrown
    | none => set { ts with forwardDeclaredTypes := (name, "object") :: ts.forwardDeclaredTypes }

/-- `forward_declare_type_as`. SRCLINE: TypeSystem.cpp:188-213 -/
def forwardDeclareTypeAs (newType parentType : String) : TypeM Unit := do
  let ts ← get
  if (ts.types.lookup newType).isSome then
    ofExcept (requireThat (ts.tc (.ofName parentType) (.ofName newType)))
  else
    match ts.forwardDeclaredTypes.lookup newType with
    | some declared => ofExcept (requireThat (declared == parentType))
    | none => set { ts with forwardDeclaredTypes := (newType, parentType) :: ts.forwardDeclaredTypes }

end Soot.Program
