import Mathlib.Data.Int.ConditionallyCompleteOrder
import Mathlib.Order.CompletePartialOrder
import Mathlib.Order.ConditionallyCompleteLattice.Basic
import Soot.Program.Deftype

/-!
# The layout of structures

Fields with the bytes they were given when they were placed, the structures that are built by
inheriting and placing fields, and what it means that a structure is laid out well.
-/

set_option autoImplicit false

namespace Soot.Model

open Soot.Program

/-- A field in its place: the bytes it was given there, the type of what it holds, and whether
its place was chosen for it rather than given. A type that is only declared by then stands for
its declared ancestor: an inline field of it gets the bytes of that. -/
structure Placement where
  field : Field
  size : ℤ
  element : SootType
  automatic : Bool

namespace Placement

def bytes (p : Placement) : Set ℤ := Set.Ico p.field.offset (p.field.offset + p.size)

def retyped (name : String) (type : TypeSpec) (p : Placement) : Placement :=
  { p with field := if p.field.name = name then { p.field with type } else p.field }

/-- A table gives the field the size it was given: its type was defined when it was placed. -/
def Settled (ts : TypeSystem) (p : Placement) : Prop := ts.fieldSize p.field = .ok p.size

end Placement

/-- The bytes a table gives a field. -/
def extent (ts : TypeSystem) (f : Field) : Set ℤ :=
  { a | ∃ size, ts.fieldSize f = .ok size ∧ a ∈ Set.Ico f.offset (f.offset + size) }

/-- The distance of two elements of an inline array. SRCLINE: TypeSystem.cpp:1594-1596,
TypeSystem.cpp:2399-2402 -/
def stride (element : SootType) : ℕ := element.desc.sizeInMemory

/-- If the field is an inline array of structures that are not packed, their size is a multiple
of the alignment of structures. -/
def Padded (ts : TypeSystem) (f : Field) : Prop :=
  f.isInline = true → f.isArray = true → ∀ element, ts.fieldType f = .ok element →
    element.isReference = true → element.isPacked = false →
      TypeConfig.structArrayStrideAlignment ∣ element.desc.sizeInMemory

/-- A type whose values lie at multiples of a power of two; a value type takes and loads just as
many bytes. -/
def WellAligned (t : SootType) : Prop :=
  t.desc.typeClass = .null ∨ ∃ k, t.desc.alignment = 2 ^ k ∧
    (t.isReference = false → t.desc.sizeInMemory = 2 ^ k ∧ t.desc.loadSize = 2 ^ k)

/-- `add_field_to_type` returns `t'`, and `p` is what it placed. -/
def Places (ts : TypeSystem) (t : SootType) (r : FieldRequest) (p : Placement) (t' : SootType) :
    Prop :=
  ∃ offset alignment, ts.addFieldToType t r = .ok (t', offset) ∧
    ts.getAlignmentInType r.toField = .ok alignment ∧
    p.field = { r.toField with offset, alignment } ∧ ts.fieldSize r.toField = .ok p.size ∧
    ts.fieldType r.toField = .ok p.element ∧ p.automatic = decide (r.offsetOverride = -1)

section Building

variable (same : SootType → SootType → Bool)

/-- Calls of `add_field_to_type`, each on a table that some run makes. -/
inductive AddsFields : SootType → List Placement → SootType → Prop where
  | done (t : SootType) : AddsFields t [] t
  | placed {t t' t'' : SootType} {r : FieldRequest} {p : Placement} {ps : List Placement}
      (ops : List TypeOperation) :
      Places (typesAfter same ops) t r p t' → AddsFields t' ps t'' → AddsFields t (p :: ps) t''

/-- The structures of a program, with their fields in place: the built-in ones, and what comes
of inheriting, of placing a field by the table of any run, and of giving an inherited field
another type. -/
inductive BuiltStructure : SootType → List Placement → Prop where
  | builtin {n : String} {t : SootType} {ps : List Placement} :
      builtinTypes.types.lookup n = some t → t.fields = some (ps.map (·.field)) →
      (∀ p ∈ ps, builtinTypes.fieldSize p.field = .ok p.size ∧
        builtinTypes.fieldType p.field = .ok p.element) → BuiltStructure t ps
  | inherited {t parent : SootType} {ps : List Placement} : BuiltStructure parent ps →
      t.fields = parent.fields →
      t.desc.sizeInMemory = parent.desc.sizeInMemory → BuiltStructure t ps
  | placed {t t' : SootType} {r : FieldRequest} {p : Placement} {ps : List Placement}
      (ops : List TypeOperation) :
      BuiltStructure t ps → Places (typesAfter same ops) t r p t' → BuiltStructure t' (ps ++ [p])
  | retyped {t t' : SootType} {ps : List Placement} (name : String) (type : TypeSpec) :
      BuiltStructure t ps → t'.desc.sizeInMemory = t.desc.sizeInMemory →
      t'.fields = t.fields.map (fun fields =>
        fields.map fun f => if f.name = name then { f with type } else f) →
      BuiltStructure t' (ps.map (Placement.retyped name type))

end Building

/-- A child with the fields `own` next to those of its parent is laid out well, by the table of
a finished program. -/
structure LaidOut (ts : TypeSystem) (parent : SootType) (ps own : List Placement) (t : SootType) :
    Prop where
  kept : parent.fields = some (ps.map (·.field)) ∧ t.fields = some ((ps ++ own).map (·.field))
  aligned : ∀ p ∈ ps ++ own, p.automatic = true → (p.field.alignment : ℤ) ∣ p.field.offset
  disjoint : (ps ++ own).Pairwise fun p q =>
    p.automatic = true → q.automatic = true → Disjoint (extent ts p.field) (extent ts q.field)
  disjointParent : ∀ p ∈ ps, ∀ q ∈ own, q.automatic = true →
    Disjoint (extent ts p.field) (extent ts q.field)
  within : ∀ p ∈ ps ++ own, ∀ size, ts.fieldSize p.field = .ok size →
    p.field.offset + size ≤ t.desc.sizeInMemory
  strides : ∀ p ∈ ps ++ own, p.field.isInline = true → p.field.isArray = true →
    ∀ element, ts.fieldType p.field = .ok element →
      element.inlineArrayStrideAlignment ∣ stride element

end Soot.Model
