import Soot.Computation.Ancestry
import Soot.Program.Deftype
import Soot.Program.MethodOwners

/-!
# Hierarchies and their method tables

The ancestors of a type, the table of methods that its deftype builds and the records that own its
entries.
-/

set_option autoImplicit false

namespace Soot.Model

open Soot.Computation Soot.Program

/-!
## Type hierarchies

What every table of types has: each type is registered under its own name and below `object`,
at a finite distance. The names a name stands below, and the type specifications whose names
the table knows.
-/

def parentType (ts : TypeSystem) (t : SootType) : Option SootType :=
  if t.hasParent then ts.types.lookup t.parent else none

/-- Every registered type is registered under its own name, with a parent that is registered,
the walk up its parents ends at `object`, and the built-in types are there. -/
structure Hierarchy (ts : TypeSystem) : Prop where
  named : ∀ {n t}, ts.types.lookup n = some t → t.name = n
  parents : ∀ {n t}, ts.types.lookup n = some t → t.hasParent = true →
    (ts.types.lookup t.parent).isSome
  lines : ∀ {n t}, ts.types.lookup n = some t → ∃ above, Ancestry (parentType ts) t above
  root : ∀ {n t}, ts.types.lookup n = some t → t.hasParent = false → n = "object"
  noEmptyName : ts.types.lookup "" = none
  underObject : ∀ n, n = "object" ∨ n = "_type_" →
    ∃ t, ts.types.lookup n = some t ∧ t.parent = "object"
  builtin : ∀ n, (builtinTypes.types.lookup n).isSome → (ts.types.lookup n).isSome

def Resolves (ts : TypeSystem) (name : String) : Prop := (ts.lookupTypeAllowPartialDef name).isSome

instance (ts : TypeSystem) (name : String) : Decidable (Resolves ts name) :=
  inferInstanceAs (Decidable (_ = true))

/-- The first name is the second, the name of the type it resolves to, or the name of a type
above that one. -/
def Below (ts : TypeSystem) (expected actual : String) : Prop :=
  expected = actual ∨ ∃ t above, ts.lookupTypeAllowPartialDef actual = some t ∧
    Ancestry (parentType ts) t above ∧ ∃ u ∈ t :: above, u.name = expected

mutual

/-- A type specification over the table, as `parse_typespec` makes it: its names resolve, and
it has at most the tag `behavior`. -/
def Over (ts : TypeSystem) : TypeSpec → Prop
  | .mk base args tags => Resolves ts base ∧ AllOver ts args ∧
    (tags = [] ∨ ∃ value, tags = [("behavior", value)] ∧ Resolves ts value)

@[inherit_doc Over]
def AllOver (ts : TypeSystem) : List TypeSpec → Prop
  | [] => True
  | t :: rest => Over ts t ∧ AllOver ts rest

end

def Accepts (ts : TypeSystem) (allowAlias allowAbstract : Bool) (expected actual : TypeSpec) :
    Prop :=
  ts.typecheck allowAlias allowAbstract expected actual = some true

instance (ts : TypeSystem) (allowAlias allowAbstract : Bool) (expected actual : TypeSpec) :
    Decidable (Accepts ts allowAlias allowAbstract expected actual) :=
  inferInstanceAs (Decidable (_ = _))

/-!
## Method tables

The numbers of methods along a line of types, nearest first; what it means that the method
tables of all types are in order, and the operations that keep them so: no new method is added
above a type that already numbers its own, and a type has one entry for a name.
-/

/-! ### Lines of types -/

def methodOf (line : List SootType) (name : String) : Option MethodInfo :=
  line.findSome? (TypeSystem.ownMethod name)

def idOf (line : List SootType) (name : String) : Option ℕ := (methodOf line name).map (·.id)

def nextIdOf : List SootType → ℕ
  | [] => 1
  | t :: above =>
    match t.getMyLastMethod with
    | some m => m.id + 1
    | none => nextIdOf above

def isNewMethod (m : MethodInfo) : Bool := !m.overridesParent && !m.onlyOverridesDocstring

def newMethods (t : SootType) : List MethodInfo := t.methods.filter isNewMethod

def records (t : SootType) : List MethodInfo := t.newMethod.toList ++ t.methods

/-- The methods of a type are in order below a line: the new ones are numbered on from it and
bear names it does not know, every other one has the number its name has above, and there is
one entry for a name. -/
structure OwnMethods (t : SootType) (above : List SootType) : Prop where
  numbered : (newMethods t).map (·.id) = List.range' (nextIdOf above) (newMethods t).length
  fresh : ∀ m ∈ newMethods t, idOf above m.name = none ∧ m.name ≠ "new"
  overriding : ∀ m ∈ t.methods, isNewMethod m = false → idOf above m.name = some m.id
  distinct : (t.methods.map (·.name)).Nodup
  constructed : ∀ m, t.newMethod = some m →
    m.id = 0 ∧ m.name = "new" ∧ "new" ∉ t.methods.map (·.name)

def WellNumbered : List SootType → Prop
  | [] => True
  | t :: above => OwnMethods t above ∧ WellNumbered above

/-! ### The tables of all types -/

/-- The numbers in a type and above it are distinct, except where the type overrides a method
of the same name above. -/
def DistinctIds (t : SootType) (above : List SootType) : Prop :=
  ((records t).map (·.id)).Nodup ∧
    ∀ u ∈ above, ∀ m ∈ records t, ∀ m' ∈ records u, m.id = m'.id →
      m.name = m'.name ∧ (isNewMethod m = false ∨ m.name = "new")

structure MethodTables (ts : TypeSystem) : Prop where
  distinct : ∀ n t above, ts.types.lookup n = some t → Ancestry (parentType ts) t above →
    DistinctIds t above
  contiguous : ∀ n t, ts.types.lookup n = some t → ∃ first,
    (newMethods t).map (·.id) = List.range' first (newMethods t).length ∧
      match parentType ts t with
      | some p => ts.getNextMethodId p = .ok first
      | none => first = 1
  inherited : ∀ n t p, ts.types.lookup n = some t → parentType ts t = some p →
    ∀ name m, ts.lookupMethod p.name name = .ok m →
      ∃ m', ts.lookupMethod n name = .ok m' ∧ m'.id = m.id
  byName : ∀ n name m, ts.lookupMethod n name = .ok m → ts.lookupMethodById n m.id = .ok m
  byId : ∀ n id m, ts.lookupMethodById n id = .ok m → ts.lookupMethod n m.name = .ok m

/-! ### Types over time -/

/-- A type is the same but for methods that are added after those it has. -/
structure Grown (t t' : SootType) : Prop where
  same : { t' with methods := t.methods, newMethod := t.newMethod } = t
  methods : t.methods <+: t'.methods
  newMethod : ∀ m, t.newMethod = some m → t'.newMethod = some m

/-- Each type that is registered stays so under its name, and grows only. -/
def KeepsTypes (ts ts' : TypeSystem) : Prop :=
  ∀ n t, ts.types.lookup n = some t → ∃ t', ts'.types.lookup n = some t' ∧ Grown t t'

/-! ### Orderly operations -/

/-- An entry that leaves one entry for a name: a method is replaced or documented where the
type says nothing of it yet, a `new` comes before its documentation is changed, and no method
is laid over another. -/
def EntryOrderly (t : SootType) : MethodDefinition → Prop
  | .declare name _ _ replace =>
    if name = "new" then "new" ∉ t.methods.map (·.name)
    else replace = true → name ∉ t.methods.map (·.name)
  | .overrideDoc name => name ∉ (records t).map (·.name)
  | .overlayAt _ _ _ => False

def EntriesOrderly (ts : TypeSystem) (t : SootType) : List MethodDefinition → Prop
  | [] => True
  | m :: ms => EntryOrderly t m ∧ ∀ t', ts.defineEntry t m = .ok t' → EntriesOrderly ts t' ms

/-- No registered type below `t` has methods of its own. -/
def NoneBelow (ts : TypeSystem) (t : SootType) : Prop :=
  ∀ n u above, ts.types.lookup n = some u → Ancestry (parentType ts) u above → t ∈ above →
    newMethods u = []

/-- The operations that keep the method tables in order: the entries of a definition are
orderly, whatever the fields of the type; an entry for a registered type is; and a method that
is new to a registered type comes before any type below it has methods of its own. -/
def Orderly (ts : TypeSystem) : TypeOperation → Prop
  | .deftype d => ∀ us t, us.types = ts.types → t.name = d.name → t.parent = d.parent →
      t.methods = [] → t.newMethod = none → EntriesOrderly us t d.methods
  | .defenum _ => True
  | .forwardDeclareTypeAs _ _ => True
  | .forwardDeclareTypeAsType _ => True
  | .declareMethod typeName name noVirtual type overrideType => ∀ t,
      ts.types.lookup typeName = some t →
      EntryOrderly t (.declare name type noVirtual overrideType) ∧
        (name ≠ "new" → overrideType = false → ts.tryLookupMethodFrom t name = .ok none →
          NoneBelow ts t)
  | .defineMethod typeName name type => ∀ t, ts.types.lookup typeName = some t →
      name = "new" → EntryOrderly t (.declare name type false false)
  | .overlayMethod _ _ _ _ => False
  | .overrideMethod typeName name => ∀ t, ts.types.lookup typeName = some t →
      EntryOrderly t (.overrideDoc name)

/-- Every operation of a run is orderly where it is made, unless it leaves the table as it
is. -/
def RunOrderly (same : SootType → SootType → Bool) (ts : TypeSystem) : List TypeOperation → Prop
  | [] => True
  | op :: ops => (op.after same ts = ts ∨ Orderly ts op) ∧ RunOrderly same (op.after same ts) ops

/-!
## Owners of methods

The type that a function belongs to is the registered one with the longest name that, with a hyphen,
the name of the function starts with. The compiler looks for it among the type declarations of the
files and records it by the file and the length of the prefix; the tables of a file agree with what
is recorded if a function stands in the table of its type alone.
-/

def functionName (typeName method : String) : String := methodPrefix typeName ++ method

/-- The types of the type declarations: neither those of state scripts nor the built-in ones. -/
def declaredTypes (files : List FileTypes) : List String := files.flatMap (·.declared)

def registeredNames (ts : TypeSystem) : List String := ts.types.map Prod.fst

/-- A type of a set has the longest name that is, with a hyphen, a prefix of a function's name. -/
structure IsLongest (types : List String) (fnName typeName : String) : Prop where
  mem : typeName ∈ types
  isPrefix : hasMethodPrefix typeName fnName = true
  longest : ∀ u ∈ types, hasMethodPrefix u fnName = true → u.length ≤ typeName.length

/-- The owner search has kept a type: one that the owner declares and whose prefix has
the length that was kept. -/
def Recorded (files : List FileTypes) (fnName typeName : String) : Prop :=
  ∃ owner ∈ files, ownerSearch files fnName = (some owner, (methodPrefix typeName).length) ∧
    typeName ∈ owner.declared ∧ hasMethodPrefix typeName fnName = true

/-- The offset of the last element of a name, 0 if there is none. -/
def lastOffset (totalEntries : ℕ) (elements : List (String × ℕ)) (name : String) : ℕ :=
  (elements.foldl (fun (pass : ℕ × ℕ) element =>
    (pass.1 + element.2, if element.1 = name then pass.1 else pass.2))
    (tableStart + totalEntries * tableEntrySize, 0)).2

/-- In the tables of a file a method has the function of its name exactly if the type is
the recorded owner of that function. -/
def TablesAgree (ts : TypeSystem) (files : List FileTypes) (file : FileTypes) (totalEntries : ℕ)
    (elements : List (String × ℕ)) : Prop :=
  ∀ typeName ∈ file.tables, ∀ t, ts.lookupTypeNoThrow typeName = some t → ∀ id info,
    ts.tryLookupMethodById t id = .ok (some info) →
    t.fields.isSome = true →
    ∃ record, tableRecord ts totalEntries elements typeName t id = some (.ok record) ∧
      (Recorded files (functionName typeName info.name) typeName →
        record.lambda = lastOffset totalEntries elements (functionName typeName info.name)) ∧
      (¬ Recorded files (functionName typeName info.name) typeName → record.lambda = 0)

/-- What is recorded of a function is the longest registered type. -/
def OwnerResolved (ts : TypeSystem) (files : List FileTypes) (fnName : String) : Prop :=
  ∀ typeName, Recorded files fnName typeName ↔ IsLongest (registeredNames ts) fnName typeName

/-- The longest registered type, if there is one, has a type declaration. -/
def OwnerDeclared (ts : TypeSystem) (files : List FileTypes) (fnName : String) : Prop :=
  ∀ typeName, IsLongest (registeredNames ts) fnName typeName → typeName ∈ declaredTypes files

/-- No method of a table of the file has a compiled function of its name whose longest
declared type is another. -/
def NamesApart (ts : TypeSystem) (files : List FileTypes) (file : FileTypes)
    (elements : List (String × ℕ)) : Prop :=
  ∀ typeName ∈ file.tables, ∀ t, ts.lookupTypeNoThrow typeName = some t → ∀ id info,
    ts.tryLookupMethodById t id = .ok (some info) → t.fields.isSome = true →
    functionName typeName info.name ∈ elements.map Prod.fst →
    IsLongest (declaredTypes files) (functionName typeName info.name) typeName

end Soot.Model
