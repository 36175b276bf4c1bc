import Soot.Program.TypeQueries
import Soot.Model.MethodTables

/-!
# What the answers of the type system should be

The vocabulary for signatures, bitfields, forward declarations, common ancestors and the search for
a field by its offset.
-/

set_option autoImplicit false

namespace Soot.Model

open Soot.Computation Soot.Program

/-!
## What method signatures carry besides types

The tags of two signatures of one shape, and whether each part has an argument vector.
-/

mutual

/-- Two signatures have the same tags, and an argument vector in the same places. -/
def SameTags : Signature → Signature → Prop
  | .simple _ tags, .simple _ tags' => tags = tags'
  | .compound _ arguments tags, .compound _ arguments' tags' =>
    tags = tags' ∧ SameTagsAll arguments arguments'
  | _, _ => False

@[inherit_doc SameTags]
def SameTagsAll : List Signature → List Signature → Prop
  | [], [] => True
  | s :: ss, t :: ts => SameTags s t ∧ SameTagsAll ss ts
  | _, _ => False

end

/-!
## Runs of additions to a bit field type

Fields are added one after the other; an addition that throws is rejected and the run goes on.
-/

/-- Additions with whether each was accepted, from a bit field type to another. -/
inductive BitfieldRun (ts : TypeSystem) :
    BitFieldType → List (BitfieldRequest × Bool) → BitFieldType → Prop
  | done (t : BitFieldType) : BitfieldRun ts t [] t
  | accepted {t t' u : BitFieldType} {r : BitfieldRequest} {calls : List (BitfieldRequest × Bool)}
      (step : (addFieldToBitfield ts r).runFrom t = (.ok (), t'))
          (rest : BitfieldRun ts t' calls u) :
      BitfieldRun ts t ((r, true) :: calls) u
  | rejected {t t' u : BitFieldType} {r : BitfieldRequest} {calls : List (BitfieldRequest × Bool)}
      (step : (addFieldToBitfield ts r).runFrom t = (.error .thrown, t'))
      (rest : BitfieldRun ts t' calls u) : BitfieldRun ts t ((r, false) :: calls) u

def bitWidth (t : BitFieldType) : ℤ := t.type.desc.loadSize * 8

def BitsApart (f g : BitField) : Prop :=
  f.offset + f.size ≤ g.offset ∨ g.offset + g.size ≤ f.offset

structure FieldsApart (t : BitFieldType) : Prop where
  inside : ∀ f ∈ t.fields, 0 ≤ f.offset ∧ f.offset + f.size ≤ bitWidth t
  apart : t.fields.Pairwise BitsApart

/-- The fields that a run stores for the accepted requests, in their order. -/
inductive StoredFields (ts : TypeSystem) : List (BitfieldRequest × Bool) → List BitField → Prop
  | nil : StoredFields ts [] []
  | accepted {r : BitfieldRequest} {calls : List (BitfieldRequest × Bool)} {fields : List BitField}
      {loadBits : ℤ} (bits : ts.loadBits r.fieldType = .ok loadBits)
      (small : r.size loadBits ≤ loadBits) (rest : StoredFields ts calls fields) :
      StoredFields ts ((r, true) :: calls) (r.field loadBits :: fields)
  | rejected {r : BitfieldRequest} {calls : List (BitfieldRequest × Bool)}
      {fields : List BitField} (rest : StoredFields ts calls fields) :
      StoredFields ts ((r, false) :: calls) fields

/-- What a run leaves: the fields there were and those of the accepted requests, which
end inside the type. -/
structure BitfieldsKept (ts : TypeSystem) (t : BitFieldType)
    (calls : List (BitfieldRequest × Bool)) (u : BitFieldType) : Prop where
  type : u.type = t.type
  fields : ∃ new, u.fields = t.fields ++ new ∧ StoredFields ts calls new ∧
    ∀ f ∈ new, f.offset + f.size ≤ bitWidth t

/-!
## Runs of declarations

Declarations and definitions follow each other, and each is accepted or rejected. The forward
declarations are resolved if every lookup ends and every declared name leads to a defined type.
-/

inductive Declaration where
  | forwardDeclareTypeAs (newType parentType : String)
  | forwardDeclareTypeAsType (name : String)
  | forwardDeclareTypeMethodCount (name : String) (numMethods : ℤ)
  | forwardDeclareTypeMethodCountMultipleOf4 (name : String) (numMethods : ℤ)
  | addType (name : String) (t : SootType)

namespace Declaration

def perform (same : SootType → SootType → Bool) : Declaration → TableM Unit
  | forwardDeclareTypeAs newType parentType =>
    onTypes (Program.forwardDeclareTypeAs newType parentType)
  | forwardDeclareTypeAsType name => onTypes (Program.forwardDeclareTypeAsType name)
  | forwardDeclareTypeMethodCount name numMethods =>
    Program.forwardDeclareTypeMethodCount name numMethods
  | forwardDeclareTypeMethodCountMultipleOf4 name numMethods =>
    Program.forwardDeclareTypeMethodCountMultipleOf4 name numMethods
  | addType name t => addTypeAs same name t

def declares : Declaration → Option (String × String)
  | forwardDeclareTypeAs newType parentType => some (newType, parentType)
  | forwardDeclareTypeAsType name => some (name, "object")
  | _ => none

def after (same : SootType → SootType → Bool) (s : DeclarationTable)
    (d : Declaration) : DeclarationTable :=
  ((d.perform same).runFrom s).2

end Declaration

def tableAfter (same : SootType → SootType → Bool) (ds : List Declaration)
    (start : DeclarationTable) :
    DeclarationTable :=
  ds.foldl (Declaration.after same) start

def AllAccepted (same : SootType → SootType → Bool) : List Declaration → DeclarationTable → Prop
  | [], _ => True
  | d :: ds, s => ((d.perform same).runFrom s).1 = .ok () ∧ AllAccepted same ds (d.after same s)

def newTable (allowRedefinition : Bool) (typesAllowedToBeRedefined : List String) :
    DeclarationTable where
  types := []
  forwardDeclaredTypes := []
  forwardDeclaredMethodCounts := []
  allowRedefinition
  typesAllowedToBeRedefined

/-- Something is known of a name: it is defined, or declared as a child. -/
def KnownName (ts : TypeSystem) (name : String) : Prop :=
  (ts.types.lookup name).isSome ∨ (ts.forwardDeclaredTypes.lookup name).isSome

/-- Every lookup ends, and a name that is declared leads to a defined type. -/
structure ChainsEnd (ts : TypeSystem) : Prop where
  terminates : ∀ name, ∃ outcome, PartialLookup ts name outcome
  defined : ∀ name, (ts.forwardDeclaredTypes.lookup name).isSome →
    ∃ t, PartialLookup ts name (some t)

/-- A call that declares a name of which nothing is known declares it as the child of a
name of which something is known. -/
def Grounded (ts : TypeSystem) (d : Declaration) : Prop :=
  ∀ name parent, d.declares = some (name, parent) → ¬ KnownName ts name → KnownName ts parent

/-!
## Ancestors of types

A registered type stands below its parent, a declared name below what it is declared as. A
specification is an ancestor of another if its name is one and its arguments and tags, where it
has any, are ancestors of the other's.
-/

def parentName (ts : TypeSystem) (name : String) : Option String :=
  match ts.types.lookup name with
  | some t => if t.hasParent then some t.parent else none
  | none => ts.forwardDeclaredTypes.lookup name

def AncestorOrSelf (ts : TypeSystem) (u n : String) : Prop := AtOrAbove (parentName ts) u n

mutual

/-- A specification is another one or an ancestor of it: its name is, it has no arguments or as
many, each the other's or an ancestor of it, and each of its tags is a tag of the other with the
same or a more special value. -/
def SpecAbove (ts : TypeSystem) : TypeSpec → TypeSpec → Prop
  | .mk base args tags, t => AncestorOrSelf ts base t.baseType ∧
    (args = [] ∨ SpecsAbove ts args t.arguments) ∧
    ∀ tag ∈ tags, ∃ value, t.tryGetTag tag.1 = some value ∧ AncestorOrSelf ts tag.2 value

@[inherit_doc SpecAbove]
def SpecsAbove (ts : TypeSystem) : List TypeSpec → List TypeSpec → Prop
  | [], [] => True
  | c :: cs, t :: rest => SpecAbove ts c t ∧ SpecsAbove ts cs rest
  | _, _ => False

end

/-- A name that the lookup of a declared name goes through: what the name is declared as, up to
the first registered type. -/
inductive PassedOver (ts : TypeSystem) : String → String → Prop
  | declared {n u : String} (unregistered : ts.types.lookup n = none)
      (as : ts.forwardDeclaredTypes.lookup n = some u) : PassedOver ts n u
  | further {n m u : String} (unregistered : ts.types.lookup n = none)
      (as : ts.forwardDeclaredTypes.lookup n = some m) (rest : PassedOver ts m u) :
      PassedOver ts n u

/-- Two names are one, or the lookup of neither goes through an ancestor of the other but
`object`. -/
def NamesMeet (ts : TypeSystem) (a b : String) : Prop :=
  a = b ∨ ∀ u, u ≠ "object" → (PassedOver ts a u → ¬ AncestorOrSelf ts u b) ∧
    (PassedOver ts b u → ¬ AncestorOrSelf ts u a)

mutual

/-- The names of two specifications meet, they share no tag, and so it is for their
arguments, if they have as many. -/
def SpecsMeet (ts : TypeSystem) : TypeSpec → TypeSpec → Prop
  | .mk base args tags, b => NamesMeet ts base b.baseType ∧
    (∀ tag ∈ tags, b.tryGetTag tag.1 = none) ∧
    (args.length = b.arguments.length → AllMeet ts args b.arguments)

@[inherit_doc SpecsMeet]
def AllMeet (ts : TypeSystem) : List TypeSpec → List TypeSpec → Prop
  | a :: as, b :: bs => SpecsMeet ts a b ∧ AllMeet ts as bs
  | _, _ => True

end

/-!
## Access paths

Where a path through a structure leads, read forwards: the offsets of its fields and the distances
of the elements of their arrays added up. A lookup is sound if it returns a path that leads to the
offset, and complete if it returns one whenever there is one.
-/

/-- The distance of two elements of an array. SRCLINE: TypeSystem.cpp:2397-2411 -/
def elementStride (element : SootType) (f : Field) : ℕ :=
  if f.isInline then element.desc.sizeInMemory
  else if element.isReference then TypeConfig.pointerSize
  else align element.desc.sizeInMemory element.desc.alignment

/-- An array has an element with this index; a dynamic array has elements without end. -/
def HasElement (f : Field) (k : ℤ) : Prop := 0 ≤ k ∧ (f.isDynamic = false → k < f.arraySize)

/-- Which paths there are: whether they go through dynamic arrays, and whether they lead to every
byte of an element that is not inline or to its first one only. -/
structure PathRules where
  dynamic : Bool
  everyByte : Bool

/-- A path leads from a structure to an offset and to a value of a type there, on a number of
levels. Inside an inline structure it stays in the bytes of that structure. -/
inductive PathReaches (ts : TypeSystem) (rules : PathRules) :
    ℕ → SootType → List PathToken → ℤ → TypeSpec → Prop
  | field {n : ℕ} {t : SootType} {fields : List Field} {f : Field}
      (hfields : t.fields = some fields) (hf : f ∈ fields) (hsingle : f.isArray = false) :
      PathReaches ts rules (n + 1) t [.field f.name] f.offset f.type
  | element {n : ℕ} {t u : SootType} {fields : List Field} {f : Field} {k r : ℤ}
      (hfields : t.fields = some fields) (hf : f ∈ fields) (harray : f.isArray = true)
      (hdynamic : f.isDynamic = true → rules.dynamic = true) (hu : ts.fieldType f = .ok u)
      (hk : HasElement f k) (hr : 0 ≤ r ∧ r < elementStride u f)
      (hbyte : r = 0 ∨ rules.everyByte = true ∧ f.isInline = false) :
      PathReaches ts rules (n + 1) t [.field f.name, .constantIdx k]
        (f.offset + k * elementStride u f + r) f.type
  | inside {n : ℕ} {t u : SootType} {fields : List Field} {f : Field} {path : List PathToken}
      {o : ℤ} {type : TypeSpec} (hfields : t.fields = some fields) (hf : f ∈ fields)
      (hsingle : f.isArray = false ∧ f.isDynamic = false) (hinline : f.isInline = true)
      (hu : ts.fieldType f = .ok u) (hstructure : u.fields.isSome = true)
      (hpath : PathReaches ts rules n u path o type) (ho : 0 ≤ o ∧ o < u.desc.sizeInMemory) :
      PathReaches ts rules (n + 1) t (.field f.name :: path) (f.offset + o) type
  | insideElement {n : ℕ} {t u : SootType} {fields : List Field} {f : Field}
      {path : List PathToken} {k o : ℤ} {type : TypeSpec} (hfields : t.fields = some fields)
      (hf : f ∈ fields) (harray : f.isArray = true)
      (hdynamic : f.isDynamic = true → rules.dynamic = true) (hinline : f.isInline = true)
      (hu : ts.fieldType f = .ok u) (hk : HasElement f k) (hstructure : u.fields.isSome = true)
      (hpath : PathReaches ts rules n u path o type) (ho : 0 ≤ o ∧ o < u.desc.sizeInMemory) :
      PathReaches ts rules (n + 1) t (.field f.name :: .constantIdx k :: path)
        (f.offset + k * u.desc.sizeInMemory + o) type
  | inherited {n : ℕ} {t p : SootType} {path : List PathToken} {o : ℤ} {type : TypeSpec}
      (hparent : t.hasParent = true) (hp : ts.lookupTypeAllowPartialDef t.parent = some p)
      (hstructure : p.fields.isSome = true) (hpath : PathReaches ts rules n p path o type) :
      PathReaches ts rules (n + 1) t path o type

def PathRules.exact : PathRules := ⟨true, false⟩

/-- The paths that are searched for: none through dynamic arrays, and an element that is not inline
is found at each of its bytes. -/
def PathRules.searched : PathRules := ⟨false, true⟩

/-- What is returned is accessed as the request says: its address is taken, or it is loaded or
stored with the size, sign and register class of its type. -/
def HasKind (ts : TypeSystem) (deref : Option DerefKind) (addrOf : Bool) (type : TypeSpec) : Prop :=
  match deref with
  | none => addrOf = true
  | some kind => addrOf = false ∧ ∃ t, ts.lookupTypeAllowPartialDef type.baseType = some t ∧
      kind.size = t.desc.loadSize ∧ kind.signExtend = t.desc.loadSigned ∧
      (kind.regKind = .FPR ↔ t.desc.floatRegister = true)

/-! ### The parts of a correct lookup -/

section Lookup

variable (ts : TypeSystem) (bitFields : SootType → Option (List BitField))
  (input : FieldReverseLookupInput) (base : SootType)

def Returns (out : FieldReverseLookupOutput) : Prop :=
  ts.reverseFieldLookup bitFields input = .ok out

def ReachesOffset : Prop :=
  ∀ out, Returns ts bitFields input out → out.success = true →
    ∃ n, PathReaches ts .exact n base out.tokens input.offset out.resultType

def RespectsKind : Prop :=
  ∀ out, Returns ts bitFields input out → out.success = true →
    HasKind ts input.deref out.addrOf out.resultType

def FindsPath : Prop :=
  ∀ n path type, PathReaches ts .exact n base path input.offset type →
    HasKind ts input.deref input.deref.isNone type →
    ∃ out, Returns ts bitFields input out ∧ out.success = true

def StructureBase : Prop :=
  ts.lookupTypeAllowPartialDef input.baseType.baseType = some base ∧ base.fields.isSome = true

/-- The types of all fields are known, with sizes that an `int` holds, and so are all parents. -/
def FieldsKnown : Prop :=
  ∀ name t, ts.lookupTypeAllowPartialDef name = some t →
    (∀ f ∈ t.fields.getD [], (∃ size, ts.getSizeInType f = .ok size) ∧
      (ts.lookupTypeAllowPartialDef f.type.baseType).isSome = true) ∧
    (t.hasParent = true → (ts.lookupTypeAllowPartialDef t.parent).isSome = true)

/-- What the lookup does: it succeeds exactly if there is a path of at most as many levels
as are searched, and it returns such a path; it throws only where some type is not known. -/
structure LookupSearches : Prop where
  sound : ∀ out, Returns ts bitFields input out → out.success = true →
    PathReaches ts .searched TypeSystem.searchLevels base out.tokens input.offset out.resultType
  complete : ∀ out path type, Returns ts bitFields input out →
    PathReaches ts .searched TypeSystem.searchLevels base path input.offset type →
    out.success = true
  returns : FieldsKnown ts → ∃ out, Returns ts bitFields input out

end Lookup

end Soot.Model
