import Soot.Program.TypeDeclaration

/-!
# The maps of types

`add_type` and `parse_deftype` with everything that they read of the type system: the forward
declared method counts and the names that may be defined anew. The body of a form, with its
fields, methods, states and options, is whatever is read from it.
-/

set_option autoImplicit false

namespace Soot.Program

open Soot.Computation

/-- The maps of a type system and what decides whether a type may be redefined.
SRCLINE: TypeSystem.hpp:490-510 -/
structure TypeMaps extends TypeSystem where
  methodCounts : List (String × ℕ)
  allowRedefinition : Bool
  typesAllowedToBeRedefined : List String

/-- A `deftype` form: the names of the type and of its parent, and what becomes of the empty type
when the rest of the form is read, unless that throws. -/
structure DeftypeForm where
  name : String
  parent : String
  body : TypeSystem → SootType → Option SootType

abbrev TypeMapsM (α : Type) := StatefulExcept TypeMaps TypeFault α

namespace TypeMaps

variable (same : SootType → SootType → Bool) (r : TypeMaps)

/-- The methods of a type are as many as were declared.
SRCLINE: TypeSystem.cpp:90-98 -/
def checkMethodCount (name : String) (t : SootType) : Except TypeFault Unit :=
  match r.methodCounts.lookup name with
  | none => .ok ()
  | some count => do requireThat ((← r.getNextMethodId t) == count)

/-- The parent of a new type is defined. SRCLINE: TypeSystem.cpp:131-151 -/
def checkNewParent (name : String) (t : SootType) : Except TypeFault Unit :=
  requireThat (isRootName name ||
    (r.forwardDeclaredTypes.lookup t.parent).isNone &&
      ((r.types.lookup t.parent).isSome || t.parent == "bitfield"))

/-- `m_types[name]` is set. -/
def withType (name : String) (t : SootType) : TypeMaps :=
  { r with types := (name, t) :: r.types }

/-- A type becomes what it was forward declared as, if the table has it registered. -/
def meetsForward (name : String) (t : SootType) : Bool :=
  (r.forwardDeclaredTypes.lookup name).all fun declared =>
    (r.withType name t).tc (.ofName declared) (.ofName name)

/-- `add_type`, with the comparison of two types.
SRCLINE: TypeSystem.cpp:88-171 -/
def addType (name : String) (t : SootType) : TypeMapsM Unit := do
  let r ← get
  ofExcept (r.checkMethodCount name t)
  match r.types.lookup name with
  | some old =>
    if same old t then pure ()
    else if t.desc.typeClass = .null ∧ old.desc.typeClass = .null then pure ()
    else if r.allowRedefinition || r.typesAllowedToBeRedefined.contains name then
      set (r.withType name t)
    else throw .thrown
  | none => do
    ofExcept (r.checkNewParent name t)
    set (r.withType name t)
    ofExcept (requireThat (r.meetsForward name t))
    set { r.withType name t with toTypeSystem := (r.withType name t).eraseForward name }

/-- `forward_declare_type_as`. SRCLINE: TypeSystem.cpp:188-213 -/
def forwardDeclareTypeAs (newType parentType : String) : TypeMapsM Unit := do
  let r ← get
  if (r.types.lookup newType).isSome then
    ofExcept (requireThat (r.tc (.ofName parentType) (.ofName newType)))
  else
    match r.forwardDeclaredTypes.lookup newType with
    | some declared => ofExcept (requireThat (declared == parentType))
    | none => set { r with forwardDeclaredTypes := (newType, parentType) :: r.forwardDeclaredTypes }

/-- The empty type of a form, and what its name is forward declared as, if it is: a child of a
basic or of a structure. SRCLINE: Deftype.cpp:1117-1196 -/
def emptyType (form : DeftypeForm) : Except TypeFault (Option String × SootType) := do
  requireThat ((r.types.lookup form.parent).isSome ||
    (r.forwardDeclaredTypes.lookup form.parent).isSome)
  if ← r.isType "basic" form.parent then
    let pto ← orThrow (r.types.lookup form.parent)
    requireThat (pto.isBasic && !pto.isFinal)
    return (some pto.name, (SootType.basicType form.parent form.name).inherit pto)
  else if ← r.isType "structure" form.parent then
    let pto ← orThrow (r.types.lookup form.parent)
    requireThat pto.fields.isSome
    return (some pto.name, (SootType.structureType form.parent form.name).inherit pto)
  else if ← r.isType "integer" form.parent then
    let pto ← orThrow (r.types.lookup form.parent)
    requireThat (pto.desc.typeClass == .value)
    return (none, .valueType form.parent form.name pto.desc.sizeInMemory pto.desc.loadSigned
      pto.desc.floatRegister)
  else .error .thrown

def define (form : DeftypeForm) (empty : SootType) : TypeMapsM Unit := do
  let t ← ofExcept (orThrow (form.body (← get).toTypeSystem empty))
  addType same form.name t

/-- `parse_deftype`. SRCLINE: Deftype.cpp:1092-1217 -/
def parseDeftype (form : DeftypeForm) : TypeMapsM Unit := do
  match ← ofExcept ((← get).emptyType form) with
  | (some declared, empty) => do
    forwardDeclareTypeAs form.name declared
    define same form empty
  | (none, empty) => define same form empty

end TypeMaps

end Soot.Program
