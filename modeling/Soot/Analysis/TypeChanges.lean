import Soot.Computation.StateExcept
import Soot.Model.MethodTables

/-!
# What the operations on the table change

The table after each operation, whether it returns or throws: it is as before, a name is
forward declared, one type is registered, or one registered type has other methods.
-/

set_option autoImplicit false

namespace Soot.Analysis

open Soot.Computation Soot.Program Soot.Model StatefulExcept

variable {P : SootType → Prop} {ms : List MethodDefinition}

variable {same : SootType → SootType → Bool} {ts : TypeSystem} {t t' : SootType}

/-! ## The table -/

/-- A type entered under its name. -/
def register (ts : TypeSystem) (t : SootType) : TypeSystem :=
  { ts with types := (t.name, t) :: ts.types }

/-- What `add_type` checks before it enters a type. -/
def Registrable (ts : TypeSystem) (t : SootType) : Prop :=
  ts.types.lookup t.name = none ∧
    (isRootName t.name = true ∨ (ts.types.lookup t.parent).isSome ∨ t.parent = "bitfield")

theorem lookup_cons_eq {α : Type} (n key : String) (v : α) (rest : List (String × α)) :
    ((key, v) :: rest).lookup n = if n = key then some v else rest.lookup n := by
  by_cases h : n = key
  · simp [h]
  · simp [List.lookup_cons, h, beq_eq_false_iff_ne.mpr h]

theorem lookup_register (ts : TypeSystem) (t : SootType) (n : String) :
    (register ts t).types.lookup n = if n = t.name then some t else ts.types.lookup n :=
  lookup_cons_eq n t.name t ts.types

theorem lookup_update (ts : TypeSystem) (t : SootType) (n : String) :
    (ts.update t).types.lookup n =
      (ts.types.lookup n).map fun old => if n = t.name then t else old := by
  unfold TypeSystem.update
  generalize ts.types = types
  induction types with
  | nil => rfl
  | cons e rest ih =>
    obtain ⟨key, old⟩ := e
    by_cases hk : key = t.name
    · simp only [List.map_cons, hk, if_true, lookup_cons_eq]
      by_cases hn : n = t.name
      · simp [hn]
      · simpa [hn] using ih
    · simp only [List.map_cons, hk, if_false, lookup_cons_eq]
      by_cases hn : n = key
      · simp [hn, hk]
      · simpa [hn] using ih

@[simp] theorem types_eraseForward (ts : TypeSystem) (name : String) :
    (ts.eraseForward name).types = ts.types := rfl

/-! ## Entering a type -/

theorem requireThat_eq_ok {c : Bool} : requireThat c = .ok () ↔ c = true := by
  cases c with
  | false => simp [requireThat]
  | true => simp [requireThat]

theorem after_enterType (ts : TypeSystem) (t : SootType) :
    (runFrom (enterType t) ts).2 = register ts t ∨
      (runFrom (enterType t) ts).2 = (register ts t).eraseForward t.name := by
  unfold enterType
  simp only [runFrom_bind, runFrom_get, runFrom_set]
  cases ts.forwardDeclaredTypes.lookup t.name with
  | none =>
    right
    rfl
  | some declared =>
    dsimp only
    cases requireThat (TypeSystem.tc _ _ _) with
    | error e =>
      left
      rfl
    | ok u =>
      right
      rfl

theorem after_addType (same : SootType → SootType → Bool) (ts : TypeSystem) (t : SootType) :
    (runFrom (addType same t) ts).2 = ts ∨ Registrable ts t ∧
      ((runFrom (addType same t) ts).2 = register ts t ∨
        (runFrom (addType same t) ts).2 = (register ts t).eraseForward t.name) := by
  unfold addType
  simp only [runFrom_bind, runFrom_get]
  cases hold : ts.types.lookup t.name with
  | some old =>
    left
    exact congrArg Prod.snd (runFrom_ofExcept _ _)
  | none =>
    simp only [runFrom_bind, runFrom_ofExcept]
    cases hcheck : checkParent ts t with
    | error e =>
      left
      rfl
    | ok u =>
      right
      refine ⟨⟨hold, ?_⟩, after_enterType ts t⟩
      have hparent := requireThat_eq_ok.mp hcheck
      simp only [Bool.or_eq_true, Bool.and_eq_true, beq_iff_eq] at hparent
      rcases hparent with h | ⟨-, h | h⟩
      · exact Or.inl h
      · exact Or.inr (Or.inl h)
      · exact Or.inr (Or.inr h)

/-! ## Members of a type -/

/-- A type with its fields laid out further. -/
structure FieldsOnly (t t' : SootType) : Prop where
  name : t'.name = t.name
  parent : t'.parent = t.parent
  methods : t'.methods = t.methods
  newMethod : t'.newMethod = t.newMethod

theorem FieldsOnly.trans {u : SootType} (h : FieldsOnly t t') (h' : FieldsOnly t' u) :
    FieldsOnly t u :=
  ⟨h'.name.trans h.name, h'.parent.trans h.parent, h'.methods.trans h.methods,
    h'.newMethod.trans h.newMethod⟩

theorem orThrow_eq_ok {α : Type} {x : Option α} {a : α} : orThrow x = .ok a ↔ x = some a := by
  cases x with
  | none => simp [orThrow]
  | some b => simp [orThrow]

theorem orThrown_eq_ok {α : Type} {x : Except Unit α} {a : α} :
    orThrown x = .ok a ↔ x = .ok a := by
  cases x with
  | error e => simp [orThrown]
  | ok b => simp [orThrown]

theorem checkInt_eq_ok {z w : ℤ} : checkInt z = .ok w ↔ (-2 ^ 31 ≤ z ∧ z < 2 ^ 31) ∧ z = w := by
  unfold checkInt
  by_cases h : -2 ^ 31 ≤ z ∧ z < 2 ^ 31
  · rw [if_pos h, Except.ok.injEq]
    exact (and_iff_right h).symm
  · rw [if_neg h]
    constructor
    · intro hw
      cases hw
    · intro hw
      exact absurd hw.1 h

theorem addFieldToType_eq_ok {r : FieldRequest} {offset : ℤ}
    (h : ts.addFieldToType t r = .ok (t', offset)) :
    ∃ fields alignment size, t.fields = some fields ∧ t.lookupField r.name = none ∧
      ts.getAlignmentInType r.toField = .ok alignment ∧
      TypeSystem.fieldOffset t r alignment = .ok offset ∧ ts.fieldSize r.toField = .ok size ∧
      (-2 ^ 31 ≤ offset + size ∧ offset + size < 2 ^ 31) ∧
      t' = { t with
        fields := some (fields ++ [{ r.toField with offset, alignment }])
        isDynamic := t.isDynamic || r.isDynamic
        desc := { t.desc with
          sizeInMemory := max t.desc.sizeInMemory (offset + size).toNat } } := by
  obtain ⟨fields, hfields, h⟩ := except_bind_eq_ok.mp h
  obtain ⟨⟨⟩, hnew, h⟩ := except_bind_eq_ok.mp h
  obtain ⟨alignment, halign, h⟩ := except_bind_eq_ok.mp h
  obtain ⟨offset', hoffset, h⟩ := except_bind_eq_ok.mp h
  obtain ⟨size, hsize, h⟩ := except_bind_eq_ok.mp h
  obtain ⟨afterField, hafter, h⟩ := except_bind_eq_ok.mp h
  cases h
  obtain ⟨hint, rfl⟩ := checkInt_eq_ok.mp hafter
  exact ⟨fields, alignment, size, orThrow_eq_ok.mp hfields,
    Option.isNone_iff_eq_none.mp (requireThat_eq_ok.mp hnew), halign, hoffset, hsize, hint, rfl⟩

theorem fieldsOnly_addField {d : FieldDefinition} (h : ts.addField t d = .ok t') :
    FieldsOnly t t' := by
  unfold TypeSystem.addField at h
  split at h
  · split at h
    · cases h
    · split at h
      · cases h
        exact ⟨rfl, rfl, rfl, rfl⟩
      · cases h
  · obtain ⟨⟨u, offset⟩, hadd, h⟩ := except_bind_eq_ok.mp h
    obtain ⟨_, _, _, _, _, _, _, _, _, hu⟩ := addFieldToType_eq_ok hadd
    simp only at h
    split at h
    · cases h
      rw [hu]
      exact ⟨rfl, rfl, rfl, rfl⟩
    · cases h

theorem fieldsOnly_addFields {ds : List FieldDefinition} (h : ts.addFields t ds = .ok t') :
    FieldsOnly t t' := by
  induction ds generalizing t with
  | nil =>
    cases h
    exact ⟨rfl, rfl, rfl, rfl⟩
  | cons d ds ih =>
    obtain ⟨u, hu, h⟩ := except_bind_eq_ok.mp h
    exact (fieldsOnly_addField hu).trans (ih h)

/-- A type with one more method. -/
def withMethod (t : SootType) (m : MethodInfo) : SootType := { t with methods := t.methods ++ [m] }

/-- What one method entry makes of a type: nothing, a new method, a method of its line replaced
or documented anew, a method under the number of another, or a `new` of its own. -/
inductive MethodChange (ts : TypeSystem) (t : SootType) : MethodDefinition → SootType → Prop where
  | unchanged (entry : MethodDefinition) : MethodChange ts t entry t
  | declared {name : String} {type : TypeSpec} {noVirtual : Bool} {id : ℕ} :
      name ≠ "new" → ts.tryLookupMethodFrom t name = .ok none → ts.getNextMethodId t = .ok id →
      MethodChange ts t (.declare name type noVirtual false)
        (withMethod t ⟨id, name, type, t.name, noVirtual, false, false⟩)
  | replaced {name : String} {type : TypeSpec} {noVirtual : Bool} {existing : MethodInfo} :
      name ≠ "new" → ts.tryLookupMethodFrom t name = .ok (some existing) →
      MethodChange ts t (.declare name type noVirtual true)
        (withMethod t ⟨existing.id, name, type, t.name, noVirtual, true, false⟩)
  | documented {name : String} {existing : MethodInfo} :
      ts.tryLookupMethod t.parent name = .ok (some existing) →
      MethodChange ts t (.overrideDoc name)
        (withMethod t ⟨existing.id, name, existing.type, t.name, existing.noVirtual, false, true⟩)
  | overlaid {name overlayName : String} {type : TypeSpec} {existing : MethodInfo} :
      ts.tryLookupMethodFrom t overlayName = .ok (some existing) →
      MethodChange ts t (.overlayAt name overlayName type)
        (withMethod t ⟨existing.id, name, type, t.name, false, true, false⟩)
  | constructed {type : TypeSpec} {noVirtual : Bool} : t.newMethod = none →
      MethodChange ts t (.declare "new" type noVirtual false)
        { t with newMethod := some ⟨0, "new", type, t.name, false, false, false⟩ }

theorem addMethod_eq_ok {m : MethodInfo} (h : TypeSystem.addMethod t m = .ok t') :
    t' = withMethod t m := by
  obtain ⟨-, -, h⟩ := except_bind_eq_ok.mp h
  cases h
  rfl

theorem methodChange_addNewMethod {type : TypeSpec} (noVirtual : Bool)
    (h : TypeSystem.addNewMethod t type = .ok t') :
    MethodChange ts t (.declare "new" type noVirtual false) t' := by
  unfold TypeSystem.addNewMethod at h
  split at h
  · split at h
    · cases h
      exact .unchanged _
    · cases h
  · cases h
    exact .constructed ‹_›

theorem methodChange_declareMethod {name : String} {noVirtual overrideType : Bool}
    {type : TypeSpec} (h : ts.declareMethod t name noVirtual type overrideType = .ok t') :
    MethodChange ts t (.declare name type noVirtual overrideType) t' := by
  unfold TypeSystem.declareMethod at h
  by_cases hname : name = "new"
  · rw [if_pos hname] at h
    split at h
    · cases h
    · rename_i hreplace
      rw [Bool.not_eq_true] at hreplace
      rw [hname, hreplace]
      exact methodChange_addNewMethod noVirtual h
  · rw [if_neg hname] at h
    obtain ⟨found, hfound, h⟩ := except_bind_eq_ok.mp h
    split at h
    · cases h
    · rw [addMethod_eq_ok h]
      exact .replaced hname hfound
    · split at h
      · cases h
        exact .unchanged _
      · cases h
    · obtain ⟨id, hid, h⟩ := except_bind_eq_ok.mp h
      rw [addMethod_eq_ok h]
      exact .declared hname hfound hid

theorem methodChange_overlayMethod {name overlayName : String} {type : TypeSpec}
    (h : ts.overlayMethod t name overlayName type = .ok t') :
    MethodChange ts t (.overlayAt name overlayName type) t' := by
  obtain ⟨found, hfound, h⟩ := except_bind_eq_ok.mp h
  split at h
  · cases h
  · rw [addMethod_eq_ok h]
    exact .overlaid hfound

theorem methodChange_overrideMethod {name : String} (h : ts.overrideMethod t name = .ok t') :
    MethodChange ts t (.overrideDoc name) t' := by
  obtain ⟨found, hfound, h⟩ := except_bind_eq_ok.mp h
  split at h
  · cases h
  · rw [addMethod_eq_ok h]
    exact .documented (orThrown_eq_ok.mp hfound)

theorem methodChange_defineMethodWith {name : String} {type : TypeSpec}
    (h : ts.defineMethodWith t name type = .ok t') :
    MethodChange ts t (.declare name type false false) t' := by
  unfold TypeSystem.defineMethodWith at h
  by_cases hname : name = "new"
  · rw [if_pos hname] at h
    rw [hname]
    exact methodChange_addNewMethod false h
  · rw [if_neg hname] at h
    obtain ⟨found, -, h⟩ := except_bind_eq_ok.mp h
    split at h
    · cases h
    · split at h
      · cases h
        exact .unchanged _
      · cases h

theorem methodChange_defineEntry {m : MethodDefinition} (h : ts.defineEntry t m = .ok t') :
    MethodChange ts t m t' := by
  cases m with
  | declare name type noVirtual replace => exact methodChange_declareMethod h
  | overrideDoc name => exact methodChange_overrideMethod h
  | overlayAt name overlayName type => exact methodChange_overlayMethod h

theorem MethodChange.identity {entry : MethodDefinition} (h : MethodChange ts t entry t') :
    t'.name = t.name ∧ t'.parent = t.parent := by
  cases h with
  | unchanged => exact ⟨rfl, rfl⟩
  | declared => exact ⟨rfl, rfl⟩
  | replaced => exact ⟨rfl, rfl⟩
  | documented => exact ⟨rfl, rfl⟩
  | overlaid => exact ⟨rfl, rfl⟩
  | constructed => exact ⟨rfl, rfl⟩

theorem identity_defineEntries
    (h : ts.defineEntries t ms = .ok t') : t'.name = t.name ∧ t'.parent = t.parent := by
  induction ms generalizing t with
  | nil =>
    cases h
    exact ⟨rfl, rfl⟩
  | cons m ms ih =>
    obtain ⟨u, hu, h⟩ := except_bind_eq_ok.mp h
    obtain ⟨hname, hparent⟩ := (methodChange_defineEntry hu).identity
    obtain ⟨hname', hparent'⟩ := ih h
    exact ⟨hname'.trans hname, hparent'.trans hparent⟩

/-! ## The operations -/

theorem types_forwardDeclareTypeAs (ts : TypeSystem) (newType parentType : String) :
    (runFrom (forwardDeclareTypeAs newType parentType) ts).2.types = ts.types := by
  unfold forwardDeclareTypeAs
  simp only [runFrom_bind, runFrom_get]
  split
  · rw [runFrom_ofExcept]
  · split
    · rw [runFrom_ofExcept]
    · rfl

theorem types_forwardDeclareTypeAsType (ts : TypeSystem) (name : String) :
    (runFrom (forwardDeclareTypeAsType name) ts).2.types = ts.types := by
  unfold forwardDeclareTypeAsType
  simp only [runFrom_bind, runFrom_get]
  split
  · rfl
  · split
    · rfl
    · rfl

theorem after_onType (ts : TypeSystem) (typeName : String)
    (f : TypeSystem → SootType → Except TypeFault SootType) :
    (runFrom (onType typeName f) ts).2 = ts ∨ ∃ t t', ts.types.lookup typeName = some t ∧
      f ts t = .ok t' ∧ (runFrom (onType typeName f) ts).2 = ts.update t' := by
  unfold onType
  simp only [runFrom_bind, runFrom_get, runFrom_ofExcept, runFrom_set]
  cases hlookup : ts.lookupType typeName with
  | error e => exact Or.inl rfl
  | ok t =>
    dsimp only
    cases hf : f ts t with
    | error e => exact Or.inl rfl
    | ok t' => exact Or.inr ⟨t, t', orThrow_eq_ok.mp hlookup, hf, rfl⟩

/-- A type with the name, the parent and the method entries of a definition, made over a table
with the types of `ts`. -/
def Defines (ts : TypeSystem) (name parent : String) (ms : List MethodDefinition) (t : SootType) :
    Prop :=
  ∃ ts₁ t₀ t₁, ts₁.types = ts.types ∧ t₀.name = name ∧ t₀.parent = parent ∧ t₀.methods = [] ∧
    t₀.newMethod = none ∧ TypeSystem.defineEntries ts₁ t₀ ms = .ok t₁ ∧ FieldsOnly t₁ t

theorem Defines.identity {name parent : String}
    (h : Defines ts name parent ms t) : t.name = name ∧ t.parent = parent := by
  obtain ⟨ts₁, t₀, t₁, -, hname, hparent, -, -, hms, hfields⟩ := h
  obtain ⟨hname', hparent'⟩ := identity_defineEntries hms
  exact ⟨hfields.name.trans (hname'.trans hname), hfields.parent.trans (hparent'.trans hparent)⟩

theorem Defines.congr {us : TypeSystem} {name parent : String}
    (h : Defines ts name parent ms t) (htypes : ts.types = us.types) :
    Defines us name parent ms t := by
  obtain ⟨ts₁, t₀, t₁, hts, hrest⟩ := h
  exact ⟨ts₁, t₀, t₁, hts.trans htypes, hrest⟩

theorem parseStructureDef_eq_ok {d : Deftype} (h : ts.parseStructureDef t d = .ok t')
    (hmethods : t.methods = []) (hnew : t.newMethod = none) :
    Defines ts t.name t.parent d.methods t' := by
  obtain ⟨u, hu, h⟩ := except_bind_eq_ok.mp h
  obtain ⟨v, hv, h⟩ := except_bind_eq_ok.mp h
  obtain ⟨base, -, h⟩ := except_bind_eq_ok.mp h
  obtain ⟨⟨⟩, -, h⟩ := except_bind_eq_ok.mp h
  cases h
  have hfields := fieldsOnly_addFields hu
  exact ⟨ts, u, v, rfl, hfields.name, hfields.parent, hfields.methods.trans hmethods,
    hfields.newMethod.trans hnew, hv, rfl, rfl, rfl, rfl⟩

/-- The types after an operation that may enter one type with a property. -/
def EntersOnly (ts ts' : TypeSystem) (P : SootType → Prop) : Prop :=
  ts'.types = ts.types ∨ ∃ t, P t ∧ Registrable ts t ∧ ts'.types = (t.name, t) :: ts.types

theorem entersOnly_addType (ts : TypeSystem) (hP : P t) :
    EntersOnly ts (runFrom (addType same t) ts).2 P := by
  rcases after_addType same ts t with h | ⟨hreg, h | h⟩
  · exact Or.inl (congrArg _ h)
  · exact Or.inr ⟨t, hP, hreg, congrArg _ h⟩
  · exact Or.inr ⟨t, hP, hreg, congrArg _ h⟩

theorem EntersOnly.congr {us ts' : TypeSystem} (h : EntersOnly us ts' P)
    (htypes : us.types = ts.types) : EntersOnly ts ts' P := by
  unfold EntersOnly Registrable at h
  rwa [htypes] at h

theorem Defines.finish {name parent : String}
    (h : Defines ts name parent ms t) (o : DeftypeOptions) :
    Defines ts name parent ms (o.finish t) := by
  obtain ⟨ts₁, t₀, t₁, h₁, h₂, h₃, h₄, h₅, h₆, h₇⟩ := h
  exact ⟨ts₁, t₀, t₁, h₁, h₂, h₃, h₄, h₅, h₆, h₇.trans ⟨rfl, rfl, rfl, rfl⟩⟩

theorem entersOnly_deftypeChild_of (ts : TypeSystem) (d : Deftype)
    (allowed : SootType → Bool) {empty : SootType} (optionsAllowed : Bool)
    (hP : ∀ pto t, ts.types.lookup d.parent = some pto → allowed pto = true →
      TypeSystem.parseStructureDef (runFrom (forwardDeclareTypeAs d.name pto.name) ts).2
        (empty.inherit pto) d = .ok t → P (d.options.finish t)) :
    EntersOnly ts
      (runFrom (deftypeChild same d allowed empty optionsAllowed d.options.finish) ts).2 P := by
  unfold deftypeChild
  simp only [runFrom_bind, runFrom_get, runFrom_ofExcept]
  cases hlookup : ts.lookupType d.parent with
  | error e => exact Or.inl rfl
  | ok pto =>
    dsimp only
    cases hallowed : requireThat (allowed pto) with
    | error e => exact Or.inl rfl
    | ok u =>
      dsimp only
      have hmade := hP pto
      have htypes := types_forwardDeclareTypeAs ts d.name pto.name
      rcases hfwd : runFrom (forwardDeclareTypeAs d.name pto.name) ts with ⟨e | v, us⟩
      · rw [hfwd] at htypes
        exact Or.inl htypes
      · rw [hfwd] at htypes hmade
        dsimp only at htypes hmade ⊢
        cases hparse : us.parseStructureDef (empty.inherit pto) d with
        | error e => exact Or.inl htypes
        | ok t =>
          have ht := hmade t (orThrow_eq_ok.mp hlookup) (requireThat_eq_ok.mp hallowed) hparse
          dsimp only
          cases requireThat optionsAllowed with
          | error e => exact Or.inl htypes
          | ok u => exact (entersOnly_addType us ht).congr htypes

theorem entersOnly_deftypeBitfield_of (ts : TypeSystem) (d : Deftype)
    (hP : ∀ pto t, ts.types.lookup d.parent = some pto → pto.desc.typeClass = .value →
      ts.defineEntries (.valueType d.parent d.name pto.desc.sizeInMemory pto.desc.loadSigned
        pto.desc.floatRegister) d.methods = .ok t → P t) :
    EntersOnly ts (runFrom (deftypeBitfield same d) ts).2 P := by
  unfold deftypeBitfield
  simp only [runFrom_bind, runFrom_get, runFrom_ofExcept]
  cases hlookup : ts.lookupType d.parent with
  | error e => exact Or.inl rfl
  | ok pto =>
    dsimp only
    cases hvalue : requireThat (pto.desc.typeClass == .value) with
    | error e => exact Or.inl rfl
    | ok u =>
      dsimp only
      cases hparse : ts.parseBitfieldTypeDef _ d with
      | error e => exact Or.inl rfl
      | ok t =>
        obtain ⟨v, hv, hparse⟩ := except_bind_eq_ok.mp hparse
        obtain ⟨⟨⟩, -, hparse⟩ := except_bind_eq_ok.mp hparse
        cases hparse
        have hclass : pto.desc.typeClass = .value := by simpa using requireThat_eq_ok.mp hvalue
        exact entersOnly_addType ts (hP pto t (orThrow_eq_ok.mp hlookup) hclass hv)

theorem entersOnly_deftype_of (ts : TypeSystem) (d : Deftype)
    (hchild : ∀ (pto empty t : SootType), ts.types.lookup d.parent = some pto →
      (empty = .basicType d.parent d.name ∧ pto.isBasic = true ∨
        empty = .structureType d.parent d.name ∧ pto.fields.isSome = true) →
      TypeSystem.parseStructureDef (runFrom (forwardDeclareTypeAs d.name pto.name) ts).2
        (empty.inherit pto) d = .ok t → P (d.options.finish t))
    (hbitfield : ∀ pto t, ts.types.lookup d.parent = some pto → pto.desc.typeClass = .value →
      ts.defineEntries (.valueType d.parent d.name pto.desc.sizeInMemory pto.desc.loadSigned
        pto.desc.floatRegister) d.methods = .ok t → P t) :
    EntersOnly ts (runFrom (deftype same d) ts).2 P := by
  unfold deftype
  simp only [runFrom_bind, runFrom_get, runFrom_ofExcept]
  cases requireThat _ with
  | error e => exact Or.inl rfl
  | ok u =>
    dsimp only
    cases ts.isType "basic" d.parent with
    | error e => exact Or.inl rfl
    | ok isBasic =>
      dsimp only
      split
      · apply entersOnly_deftypeChild_of
        intro pto t hlookup hallowed hparse
        rw [Bool.and_eq_true] at hallowed
        exact hchild pto _ t hlookup (Or.inl ⟨rfl, hallowed.1⟩) hparse
      · simp only [runFrom_bind, runFrom_ofExcept]
        cases ts.isType "structure" d.parent with
        | error e => exact Or.inl rfl
        | ok isStructure =>
          dsimp only
          split
          · apply entersOnly_deftypeChild_of
            intro pto t hlookup hallowed hparse
            exact hchild pto _ t hlookup (Or.inr ⟨rfl, hallowed⟩) hparse
          · simp only [runFrom_bind, runFrom_ofExcept]
            cases ts.isType "integer" d.parent with
            | error e => exact Or.inl rfl
            | ok isInteger =>
              dsimp only
              split
              · exact entersOnly_deftypeBitfield_of ts d hbitfield
              · exact Or.inl rfl

theorem entersOnly_deftype (ts : TypeSystem) (d : Deftype) :
    EntersOnly ts (runFrom (deftype same d) ts).2 (Defines ts d.name d.parent d.methods) := by
  apply entersOnly_deftype_of
  · intro pto empty t _ hempty hparse
    have htypes := types_forwardDeclareTypeAs ts d.name pto.name
    rcases hempty with ⟨rfl, -⟩ | ⟨rfl, -⟩
    · exact ((parseStructureDef_eq_ok hparse rfl rfl).congr htypes).finish d.options
    · exact ((parseStructureDef_eq_ok hparse rfl rfl).congr htypes).finish d.options
  · intro pto t _ _ hentries
    exact ⟨ts, _, t, rfl, rfl, rfl, rfl, rfl, hentries, rfl, rfl, rfl, rfl⟩

theorem entersOnly_defenum_of (ts : TypeSystem) (d : Defenum)
    (hP : ∀ base, ts.types.lookup d.baseType = some base → base.desc.typeClass = .value →
      P (.valueType base.parent d.name base.desc.loadSize base.desc.loadSigned
        base.desc.floatRegister)) :
    EntersOnly ts (runFrom (defenum same d) ts).2 P := by
  unfold defenum
  simp only [runFrom_bind, runFrom_get, runFrom_ofExcept]
  cases hlookup : ts.lookupType d.baseType with
  | error e => exact Or.inl rfl
  | ok base =>
    dsimp only
    cases ts.isType "integer" d.baseType with
    | error e => exact Or.inl rfl
    | ok isInteger =>
      dsimp only
      split
      · simp only [runFrom_bind, runFrom_ofExcept]
        cases hvalue : requireThat (base.desc.typeClass == .value) with
        | error e => exact Or.inl rfl
        | ok u =>
          have hclass : base.desc.typeClass = .value := by simpa using requireThat_eq_ok.mp hvalue
          exact entersOnly_addType ts (hP base (orThrow_eq_ok.mp hlookup) hclass)
      · exact Or.inl rfl

theorem entersOnly_defenum (ts : TypeSystem) (d : Defenum) :
    EntersOnly ts (runFrom (defenum same d) ts).2
      fun t => t.name = d.name ∧ t.methods = [] ∧ t.newMethod = none :=
  entersOnly_defenum_of ts d fun _ _ _ => ⟨rfl, rfl, rfl⟩

end Soot.Analysis
