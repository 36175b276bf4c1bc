import Mathlib.Data.List.Induction
import Mathlib.Data.Set.List
import Mathlib.Order.Interval.Set.Disjoint
import Soot.Analysis.Hierarchies
import Soot.Model.FieldLayout

/-!
# Structures are laid out well

A field is placed behind everything its structure holds, at a multiple of its alignment,
because every alignment is a power of two. What that leaves open is the distance of the
elements of an inline array, which is their size, padded or not.
-/

set_option autoImplicit false

namespace Soot.Analysis

open Soot.Computation Soot.Program Soot.Model StatefulExcept

variable {same : SootType → SootType → Bool} {ts : TypeSystem} {t t' parent : SootType}
  {p : Placement} {ps own : List Placement}

/-! ## Rounding up -/

theorem align_two_pow (value k : ℕ) :
    align value (2 ^ k) = (value + 2 ^ k - 1) / 2 ^ k * 2 ^ k := by
  unfold align
  rw [Nat.and_two_pow_sub_one_eq_mod, Nat.div_mul_self_eq_mod_sub_self]

theorem le_align (value k : ℕ) : value ≤ align value (2 ^ k) := by
  rw [align_two_pow, Nat.div_mul_self_eq_mod_sub_self]
  have hlt := Nat.mod_lt (value + 2 ^ k - 1) (Nat.two_pow_pos k)
  omega

theorem roundUp_eq_ok {value k w : ℕ} (h : TypeSystem.roundUp value (2 ^ k) = .ok w) :
    2 ^ k ∣ w ∧ value ≤ w := by
  unfold TypeSystem.roundUp at h
  rw [if_neg (Nat.two_pow_pos k).ne'] at h
  split at h
  · rename_i hmod
    cases h
    exact ⟨Nat.dvd_of_mod_eq_zero hmod, Nat.le_refl _⟩
  · obtain ⟨-, -, h⟩ := except_bind_eq_ok.mp h
    cases h
    refine ⟨?_, le_align value k⟩
    rw [align_two_pow]
    exact Nat.dvd_mul_left _ _

/-! ## Alignments -/

theorem fieldType_eq_ok {f : Field} (h : ts.fieldType f = .ok t) :
    (∃ n, ts.types.lookup n = some t) ∧ t.desc.typeClass ≠ .null := by
  unfold TypeSystem.fieldType at h
  split at h
  · cases h
  · rename_i hlookup
    split at h
    · cases h
    · cases h
      exact ⟨registered_of_lookupAllow hlookup, ‹_›⟩

theorem alignment_two_pow (h : WellAligned t) (hclass : t.desc.typeClass ≠ .null) :
    ∃ k, t.desc.alignment = 2 ^ k := by
  rcases h with hnull | ⟨k, hk, -⟩
  · exact absurd hnull hclass
  · exact ⟨k, hk⟩

theorem getAlignmentInType_two_pow (hts : ∀ n t, ts.types.lookup n = some t → WellAligned t)
    {f : Field} {alignment : ℕ} (h : ts.getAlignmentInType f = .ok alignment) :
    ∃ k, alignment = 2 ^ k := by
  obtain ⟨t, ht, h⟩ := except_bind_eq_ok.mp h
  obtain ⟨⟨n, hn⟩, hclass⟩ := fieldType_eq_ok ht
  obtain ⟨k, hk⟩ := alignment_two_pow (hts n t hn) hclass
  have hstart : ∃ k, t.inlineArrayStartAlignment = 2 ^ k := by
    unfold SootType.inlineArrayStartAlignment
    split
    · exact ⟨4, rfl⟩
    · split
      · split
        · exact ⟨0, rfl⟩
        · exact ⟨4, rfl⟩
      · exact ⟨k, hk⟩
  split at h
  · split at h
    · split at h
      · cases h
        exact hstart
      · cases h
        exact ⟨k, hk⟩
    · cases h
      exact ⟨3, rfl⟩
  · cases h
    exact ⟨k, hk⟩

/-- The distance of the elements of an inline array is a multiple of their alignment
when structures are padded: a value is as large as its alignment. -/
theorem dvd_stride_iff {f : Field} (hts : ∀ n t, ts.types.lookup n = some t → WellAligned t) :
    (f.isInline = true → f.isArray = true → ∀ element, ts.fieldType f = .ok element →
      element.inlineArrayStrideAlignment ∣ stride element) ↔ Padded ts f := by
  apply forall_congr'
  intro _
  apply forall_congr'
  intro _
  apply forall_congr'
  intro element
  apply forall_congr'
  intro helement
  obtain ⟨⟨n, hn⟩, hclass⟩ := fieldType_eq_ok helement
  unfold SootType.inlineArrayStrideAlignment stride
  cases href : element.isReference with
  | true =>
    cases element.isPacked with
    | true => simp
    | false => simp
  | false =>
    have hsize : element.desc.alignment = element.desc.sizeInMemory := by
      rcases hts n element hn with hnull | ⟨k, hk, hvalue⟩
      · exact absurd hnull hclass
      · rw [hk, (hvalue href).1]
    simp [hsize]

/-! ## One field -/

/-- The fields of a structure are in their places. -/
structure FieldsInPlace (t : SootType) (ps : List Placement) : Prop where
  fields : t.fields = some (ps.map (·.field))
  aligned : ∀ p ∈ ps, p.automatic = true → (p.field.alignment : ℤ) ∣ p.field.offset
  disjoint : ps.Pairwise fun p q => q.automatic = true → Disjoint p.bytes q.bytes
  within : ∀ p ∈ ps, p.field.offset + p.size ≤ t.desc.sizeInMemory
  elements : ∀ p ∈ ps, WellAligned p.element ∧ p.element.desc.typeClass ≠ .null

theorem places_spec (hts : ∀ n t, ts.types.lookup n = some t → WellAligned t) {r : FieldRequest}
    (h : Places ts t r p t') :
    (∃ fields, t.fields = some fields ∧ t'.fields = some (fields ++ [p.field])) ∧
      (p.automatic = true → (p.field.alignment : ℤ) ∣ p.field.offset ∧
        (t.desc.sizeInMemory : ℤ) ≤ p.field.offset) ∧
      t.desc.sizeInMemory ≤ t'.desc.sizeInMemory ∧
      p.field.offset + p.size ≤ t'.desc.sizeInMemory ∧
      WellAligned p.element ∧ p.element.desc.typeClass ≠ .null := by
  obtain ⟨offset, alignment, hadd, halign, hfield, hsize, helement, hauto⟩ := h
  obtain ⟨fields, alignment', size, hfields, -, halign', hoffset, hsize', -, rfl⟩ :=
    addFieldToType_eq_ok hadd
  rw [halign, Except.ok.injEq] at halign'
  rw [hsize, Except.ok.injEq] at hsize'
  subst halign' hsize'
  obtain ⟨⟨n, hn⟩, hclass⟩ := fieldType_eq_ok helement
  refine ⟨⟨fields, hfields, by rw [hfield]⟩, ?_, Nat.le_max_left _ _, ?_, hts n _ hn, hclass⟩
  · intro hautomatic
    rw [hauto, decide_eq_true_eq] at hautomatic
    unfold TypeSystem.fieldOffset at hoffset
    rw [if_pos hautomatic] at hoffset
    obtain ⟨w, hw, hoffset⟩ := except_bind_eq_ok.mp hoffset
    cases hoffset
    obtain ⟨k, rfl⟩ := getAlignmentInType_two_pow hts halign
    obtain ⟨hdvd, hle⟩ := roundUp_eq_ok hw
    rw [hfield]
    exact ⟨Int.natCast_dvd_natCast.mpr hdvd, Int.ofNat_le.mpr hle⟩
  · rw [hfield]
    dsimp only
    omega

theorem FieldsInPlace.placed (h : FieldsInPlace t ps)
    (hts : ∀ n t, ts.types.lookup n = some t → WellAligned t) {r : FieldRequest}
    (hp : Places ts t r p t') : FieldsInPlace t' (ps ++ [p]) := by
  obtain ⟨⟨fields, hfields, hfields'⟩, hauto, hgrows, hwithin, helement⟩ := places_spec hts hp
  have hsame : fields = ps.map (·.field) := Option.some.inj (hfields.symm.trans h.fields)
  constructor
  · rw [hfields', hsame]
    simp
  · intro q hq
    rcases List.mem_append.mp hq with hq | hq
    · exact h.aligned q hq
    · rw [List.mem_singleton.mp hq]
      exact fun hautomatic => (hauto hautomatic).1
  · apply List.pairwise_append.mpr
    refine ⟨h.disjoint, List.pairwise_singleton _ _, ?_⟩
    intro q hq q' hq' hautomatic
    rw [List.mem_singleton.mp hq'] at hautomatic ⊢
    have hend := h.within q hq
    have hbegin := (hauto hautomatic).2
    exact Set.Ico_disjoint_Ico_same.mono_right (Set.Ico_subset_Ico_left (hend.trans hbegin))
  · intro q hq
    rcases List.mem_append.mp hq with hq | hq
    · exact (h.within q hq).trans (Int.ofNat_le.mpr hgrows)
    · rw [List.mem_singleton.mp hq]
      exact hwithin
  · intro q hq
    rcases List.mem_append.mp hq with hq | hq
    · exact h.elements q hq
    · rw [List.mem_singleton.mp hq]
      exact helement

theorem FieldsInPlace.inherited (h : FieldsInPlace parent ps) (hfields : t.fields = parent.fields)
    (hsize : t.desc.sizeInMemory = parent.desc.sizeInMemory) : FieldsInPlace t ps := by
  refine ⟨hfields.trans h.fields, h.aligned, h.disjoint, ?_, h.elements⟩
  rw [hsize]
  exact h.within

section Retyped

variable {name : String} {type : TypeSpec}

@[simp] theorem offset_retyped : (p.retyped name type).field.offset = p.field.offset := by
  unfold Placement.retyped
  dsimp only
  split
  · rfl
  · rfl

@[simp] theorem alignment_retyped : (p.retyped name type).field.alignment = p.field.alignment := by
  unfold Placement.retyped
  dsimp only
  split
  · rfl
  · rfl

@[simp] theorem bytes_retyped : (p.retyped name type).bytes = p.bytes := by
  unfold Placement.bytes
  rw [offset_retyped]
  rfl

theorem FieldsInPlace.retyped (h : FieldsInPlace t ps)
    (hsize : t'.desc.sizeInMemory = t.desc.sizeInMemory)
    (hfields : t'.fields = t.fields.map (fun fields =>
      fields.map fun f => if f.name = name then { f with type } else f)) :
    FieldsInPlace t' (ps.map (Placement.retyped name type)) := by
  constructor
  · rw [hfields, h.fields]
    simp [Placement.retyped]
  · intro q hq
    obtain ⟨p, hp, rfl⟩ := List.mem_map.mp hq
    rw [offset_retyped, alignment_retyped]
    exact h.aligned p hp
  · rw [List.pairwise_map]
    apply h.disjoint.imp
    intro p q hpq
    rw [bytes_retyped, bytes_retyped]
    exact hpq
  · intro q hq
    obtain ⟨p, hp, rfl⟩ := List.mem_map.mp hq
    rw [offset_retyped, hsize]
    exact h.within p hp
  · intro q hq
    obtain ⟨p, hp, rfl⟩ := List.mem_map.mp hq
    exact h.elements p hp

end Retyped

/-! ## All types are well aligned -/

theorem layout_methodChange {entry : MethodDefinition} (h : MethodChange ts t entry t') :
    t'.desc = t.desc ∧ t'.fields = t.fields := by
  cases h with
  | unchanged => exact ⟨rfl, rfl⟩
  | declared => exact ⟨rfl, rfl⟩
  | replaced => exact ⟨rfl, rfl⟩
  | documented => exact ⟨rfl, rfl⟩
  | overlaid => exact ⟨rfl, rfl⟩
  | constructed => exact ⟨rfl, rfl⟩

theorem layout_defineEntries {ms : List MethodDefinition} (h : ts.defineEntries t ms = .ok t') :
    t'.desc = t.desc ∧ t'.fields = t.fields := by
  induction ms generalizing t with
  | nil =>
    cases h
    exact ⟨rfl, rfl⟩
  | cons m ms ih =>
    obtain ⟨u, hu, h⟩ := except_bind_eq_ok.mp h
    obtain ⟨hdesc, hfields⟩ := layout_methodChange (methodChange_defineEntry hu)
    obtain ⟨hdesc', hfields'⟩ := ih h
    exact ⟨hdesc'.trans hdesc, hfields'.trans hfields⟩

theorem class_addFields {ds : List FieldDefinition} (h : ts.addFields t ds = .ok t') :
    t'.desc.typeClass = t.desc.typeClass ∧ t'.desc.alignment = t.desc.alignment := by
  induction ds generalizing t with
  | nil =>
    cases h
    exact ⟨rfl, rfl⟩
  | cons d ds ih =>
    obtain ⟨u, hu, h⟩ := except_bind_eq_ok.mp h
    obtain ⟨hclass, halign⟩ := ih h
    suffices u.desc.typeClass = t.desc.typeClass ∧ u.desc.alignment = t.desc.alignment from
      ⟨hclass.trans this.1, halign.trans this.2⟩
    unfold TypeSystem.addField at hu
    split at hu
    · split at hu
      · cases hu
      · split at hu
        · cases hu
          exact ⟨rfl, rfl⟩
        · cases hu
    · obtain ⟨⟨v, offset⟩, hadd, hu⟩ := except_bind_eq_ok.mp hu
      obtain ⟨_, _, _, _, _, _, _, _, _, rfl⟩ := addFieldToType_eq_ok hadd
      simp only at hu
      split at hu
      · cases hu
        exact ⟨rfl, rfl⟩
      · cases hu

theorem layout_parseStructureDef {d : Deftype} (h : ts.parseStructureDef t d = .ok t') :
    ∃ u, ts.addFields t d.fields = .ok u ∧ t'.desc = u.desc ∧ t'.fields = u.fields := by
  obtain ⟨u, hu, h⟩ := except_bind_eq_ok.mp h
  obtain ⟨v, hv, h⟩ := except_bind_eq_ok.mp h
  obtain ⟨base, -, h⟩ := except_bind_eq_ok.mp h
  obtain ⟨⟨⟩, -, h⟩ := except_bind_eq_ok.mp h
  cases h
  obtain ⟨hdesc, hfields⟩ := layout_defineEntries hv
  exact ⟨u, hu, hdesc, hfields⟩

theorem forall_types_after {P : SootType → Prop} {op : TypeOperation}
    (hts : ∀ n t, ts.types.lookup n = some t → P t)
    (hmethods : ∀ t t', t'.desc = t.desc → t'.fields = t.fields → P t → P t')
    (hchild : ∀ (d : Deftype) (pto empty t : SootType), ts.types.lookup d.parent = some pto →
      (empty = .basicType d.parent d.name ∧ pto.isBasic = true ∨
        empty = .structureType d.parent d.name ∧ pto.fields.isSome = true) →
      TypeSystem.parseStructureDef (runFrom (forwardDeclareTypeAs d.name pto.name) ts).2
        (empty.inherit pto) d = .ok t → P t)
    (hvalue : ∀ (n : String) (t : SootType) (parent name : String), ts.types.lookup n = some t →
      t.desc.typeClass = .value → ∀ size, size = t.desc.sizeInMemory ∨ size = t.desc.loadSize →
        P (.valueType parent name size t.desc.loadSigned t.desc.floatRegister)) :
    ∀ n t, (op.after same ts).types.lookup n = some t → P t := by
  have henters : ∀ {us : TypeSystem}, EntersOnly ts us P →
      ∀ n t, us.types.lookup n = some t → P t := by
    intro us h n t ht
    rcases h with h | ⟨u, hu, -, h⟩
    · rw [h] at ht
      exact hts n t ht
    · rw [h, lookup_cons_eq] at ht
      split at ht
      · cases ht
        exact hu
      · exact hts n t ht
  have honType : ∀ (typeName : String)
      (f : TypeSystem → SootType → Except TypeFault SootType) (entry : MethodDefinition),
      (∀ t t', f ts t = .ok t' → MethodChange ts t entry t') →
      ∀ n t, (runFrom (onType typeName f) ts).2.types.lookup n = some t → P t := by
    intro typeName f entry hf n u hu
    rcases after_onType ts typeName f with h | ⟨t, t', ht, hft, h⟩
    · rw [h] at hu
      exact hts n u hu
    · rw [h, lookup_update, Option.map_eq_some_iff] at hu
      obtain ⟨v, hv, rfl⟩ := hu
      split
      · obtain ⟨hdesc, hfields⟩ := layout_methodChange (hf t t' hft)
        exact hmethods t t' hdesc hfields (hts typeName t ht)
      · exact hts n v hv
  cases op with
  | deftype d =>
    apply henters
    apply entersOnly_deftype_of
    · intro pto empty t hpto hempty hparse
      exact hmethods t _ rfl rfl (hchild d pto empty t hpto hempty hparse)
    · intro pto t hpto hclass hentries
      obtain ⟨hdesc, hfields⟩ := layout_defineEntries hentries
      exact hmethods _ t hdesc hfields (hvalue d.parent pto _ _ hpto hclass _ (Or.inl rfl))
  | defenum d =>
    apply henters
    apply entersOnly_defenum_of
    intro base hbase hclass
    exact hvalue d.baseType base _ _ hbase hclass _ (Or.inr rfl)
  | forwardDeclareTypeAs newType parentType =>
    exact henters (Or.inl (types_forwardDeclareTypeAs ts newType parentType))
  | forwardDeclareTypeAsType name =>
    exact henters (Or.inl (types_forwardDeclareTypeAsType ts name))
  | declareMethod typeName name noVirtual type overrideType =>
    exact honType _ _ _ fun _ _ => methodChange_declareMethod
  | defineMethod typeName name type =>
    exact honType _ _ _ fun _ _ => methodChange_defineMethodWith
  | overlayMethod typeName name overlayName type =>
    exact honType _ _ _ fun _ _ => methodChange_overlayMethod
  | overrideMethod typeName name => exact honType _ _ _ fun _ _ => methodChange_overrideMethod

theorem typesAfter_append (ops : List TypeOperation) (op : TypeOperation) :
    typesAfter same (ops ++ [op]) = op.after same (typesAfter same ops) := by
  simp [typesAfter]

theorem wellAligned_typesAfter (same : SootType → SootType → Bool) (ops : List TypeOperation) :
    ∀ n t, (typesAfter same ops).types.lookup n = some t → WellAligned t := by
  induction ops using List.reverseRecOn with
  | nil =>
    have hall : (builtinTypes.types.all fun e => e.2.desc.typeClass == .null ||
        [0, 1, 2, 3, 4].any fun k => e.2.desc.alignment == 2 ^ k &&
          (e.2.isReference || e.2.desc.sizeInMemory == 2 ^ k && e.2.desc.loadSize == 2 ^ k)) =
        true := by
      with_unfolding_all decide
    intro n t ht
    have hmem := List.all_eq_true.mp hall _ (mem_of_lookup ht)
    simp only [Bool.or_eq_true, Bool.and_eq_true, beq_iff_eq, List.any_eq_true] at hmem
    rcases hmem with hnull | ⟨k, -, halign, hvalue⟩
    · exact Or.inl hnull
    · refine Or.inr ⟨k, halign, fun href => ?_⟩
      rcases hvalue with h | h
      · rw [href] at h
        cases h
      · exact h
  | append_singleton ops op ih =>
    rw [typesAfter_append]
    apply forall_types_after ih
    · intro t t' hdesc _ ht
      unfold WellAligned SootType.isReference at ht ⊢
      rwa [hdesc]
    · intro d pto empty t _ hempty hparse
      obtain ⟨u, hu, hdesc, -⟩ := layout_parseStructureDef hparse
      obtain ⟨hclass, halign⟩ := class_addFields hu
      have hboth : empty.desc.typeClass = .reference ∧ empty.desc.alignment = 2 ^ 4 := by
        rcases hempty with ⟨rfl, -⟩ | ⟨rfl, -⟩
        · exact ⟨rfl, rfl⟩
        · exact ⟨rfl, rfl⟩
      refine Or.inr ⟨4, ?_, fun href => ?_⟩
      · rw [hdesc, halign]
        exact hboth.2
      · have hreference : t.isReference = true := by
          unfold SootType.isReference TypeDesc.isReference
          rw [hdesc, hclass]
          exact beq_iff_eq.mpr hboth.1
        rw [hreference] at href
        cases href
    · intro n t parent name ht hclass size hsize
      rcases ih n t ht with hnull | ⟨k, -, hvalue⟩
      · rw [hclass] at hnull
        cases hnull
      · obtain ⟨hmem, hload⟩ := hvalue (by
          unfold SootType.isReference TypeDesc.isReference
          rw [hclass]
          rfl)
        have hk : size = 2 ^ k := by
          rcases hsize with rfl | rfl
          · exact hmem
          · exact hload
        exact Or.inr ⟨k, hk, fun _ => ⟨hk, hk⟩⟩

/-! ## Structures are in place -/

/-- A field ends by an offset, in the table of the built-in types. -/
def endsBy (limit : ℤ) (f : Field) : Bool :=
  (builtinTypes.fieldSize f).toOption.any fun size => f.offset + size ≤ limit

theorem le_of_endsBy {limit : ℤ} (h : endsBy limit p.field = true)
    (hsize : builtinTypes.fieldSize p.field = .ok p.size) :
    p.field.offset + p.size ≤ limit := by
  unfold endsBy at h
  rw [hsize] at h
  simpa [Except.toOption] using h

theorem inPlace_builtin {n : String} (ht : builtinTypes.types.lookup n = some t)
    (hfields : t.fields = some (ps.map (·.field)))
    (hps : ∀ p ∈ ps, builtinTypes.fieldSize p.field = .ok p.size ∧
      builtinTypes.fieldType p.field = .ok p.element) : FieldsInPlace t ps := by
  have hall : (builtinTypes.types.all fun e => e.2.fields.all fun fields =>
      (fields.all fun f => f.offset % f.alignment == 0 && endsBy e.2.desc.sizeInMemory f) &&
        decide (fields.Pairwise fun f g => endsBy g.offset f = true)) = true := by
    with_unfolding_all decide
  have hmem := List.all_eq_true.mp hall _ (mem_of_lookup ht)
  simp only [hfields, Option.all_some, Bool.and_eq_true, decide_eq_true_eq, List.all_eq_true,
    beq_iff_eq, List.pairwise_map] at hmem
  obtain ⟨heach, hdisjoint⟩ := hmem
  constructor
  · exact hfields
  · intro p hp _
    exact Int.dvd_of_emod_eq_zero (heach _ (List.mem_map_of_mem hp)).1
  · apply hdisjoint.imp_of_mem
    intro p q hp _ hpq _
    have hle := le_of_endsBy hpq (hps p hp).1
    exact Set.Ico_disjoint_Ico_same.mono_right (Set.Ico_subset_Ico_left hle)
  · intro p hp
    exact le_of_endsBy (heach _ (List.mem_map_of_mem hp)).2 (hps p hp).1
  · intro p hp
    obtain ⟨⟨n, hn⟩, hclass⟩ := fieldType_eq_ok (hps p hp).2
    exact ⟨wellAligned_typesAfter (fun _ _ => true) [] n _ hn, hclass⟩

theorem inPlace_of_built (h : BuiltStructure same t ps) : FieldsInPlace t ps := by
  induction h with
  | builtin ht hfields hps => exact inPlace_builtin ht hfields hps
  | inherited _ hfields hsize ih => exact ih.inherited hfields hsize
  | placed ops _ hp ih => exact ih.placed (wellAligned_typesAfter same ops) hp
  | retyped name type _ hsize hfields ih => exact ih.retyped hsize hfields

theorem inPlace_of_addsFields (h : AddsFields same t own t') (ht : FieldsInPlace t ps) :
    FieldsInPlace t' (ps ++ own) := by
  induction h generalizing ps with
  | done t => simpa using ht
  | placed ops hp _ ih =>
    have hnext := ih (ht.placed (wellAligned_typesAfter same ops) hp)
    rwa [List.append_assoc] at hnext

/-! ## Registered structures are built -/

theorem places_of_addFieldToType {r : FieldRequest} {offset : ℤ}
    (h : ts.addFieldToType t r = .ok (t', offset)) : ∃ p, Places ts t r p t' := by
  obtain ⟨fields, alignment, size, -, -, halign, -, hsize, -, -⟩ := addFieldToType_eq_ok h
  obtain ⟨element, helement, -⟩ := except_bind_eq_ok.mp halign
  exact ⟨⟨{ r.toField with offset, alignment }, size, element, decide (r.offsetOverride = -1)⟩,
    offset, alignment, h, halign, rfl, hsize, helement, rfl⟩

theorem built_addField {d : FieldDefinition} (ops : List TypeOperation)
    (h : (typesAfter same ops).addField t d = .ok t')
    (ht : t.fields.isSome = true → ∃ ps, BuiltStructure same t ps)
    (hsome : t'.fields.isSome = true) :
    ∃ ps, BuiltStructure same t' ps := by
  unfold TypeSystem.addField at h
  split at h
  · split at h
    · cases h
    · split at h
      · cases h
        rw [Option.isSome_map] at hsome
        obtain ⟨ps, hps⟩ := ht hsome
        exact ⟨_, .retyped d.name d.type hps rfl rfl⟩
      · cases h
  · obtain ⟨⟨u, offset⟩, hadd, h⟩ := except_bind_eq_ok.mp h
    obtain ⟨p, hp⟩ := places_of_addFieldToType hadd
    obtain ⟨fields, _, _, hfields, -⟩ := addFieldToType_eq_ok hadd
    obtain ⟨ps, hps⟩ := ht (by simp [hfields])
    simp only at h
    split at h
    · cases h
      exact ⟨_, .placed ops hps hp⟩
    · cases h

theorem built_addFields {ds : List FieldDefinition} (ops : List TypeOperation)
    (h : (typesAfter same ops).addFields t ds = .ok t')
    (ht : t.fields.isSome = true → ∃ ps, BuiltStructure same t ps)
    (hsome : t'.fields.isSome = true) :
    ∃ ps, BuiltStructure same t' ps := by
  induction ds generalizing t with
  | nil =>
    cases h
    exact ht hsome
  | cons d ds ih =>
    obtain ⟨u, hu, h⟩ := except_bind_eq_ok.mp h
    exact ih h (built_addField ops hu ht)

theorem ok_of_isSome {α : Type} {x : Except TypeFault α} (hx : x.toOption.isSome = true) :
    ∃ a, x = .ok a := by
  cases x with
  | error e => simp [Except.toOption] at hx
  | ok a => exact ⟨a, rfl⟩

theorem built_builtin {n : String} (ht : builtinTypes.types.lookup n = some t)
    (hsome : t.fields.isSome = true) : ∃ ps, BuiltStructure same t ps := by
  have hall : (builtinTypes.types.all fun e => e.2.fields.all fun fields => fields.all fun f =>
      (builtinTypes.fieldSize f).toOption.isSome && (builtinTypes.fieldType f).toOption.isSome) =
      true := by
    with_unfolding_all decide
  obtain ⟨fields, hfields⟩ := Option.isSome_iff_exists.mp hsome
  have hmem := List.all_eq_true.mp hall _ (mem_of_lookup ht)
  simp only [hfields, Option.all_some, Bool.and_eq_true, List.all_eq_true] at hmem
  have hplaced : fields ∈ Set.range (List.map fun p : { p : Placement //
      builtinTypes.fieldSize p.field = .ok p.size ∧
        builtinTypes.fieldType p.field = .ok p.element } => p.1.field) := by
    rw [Set.range_list_map]
    intro f hf
    obtain ⟨size, hsize⟩ := ok_of_isSome (hmem f hf).1
    obtain ⟨element, helement⟩ := ok_of_isSome (hmem f hf).2
    exact ⟨⟨⟨f, size, element, true⟩, hsize, helement⟩, rfl⟩
  obtain ⟨placed, rfl⟩ := hplaced
  refine ⟨placed.map Subtype.val, .builtin ht ?_ ?_⟩
  · rw [hfields, List.map_map]
    rfl
  · intro p hp
    obtain ⟨q, -, rfl⟩ := List.mem_map.mp hp
    exact q.2

theorem built_typesAfter (same : SootType → SootType → Bool) (ops : List TypeOperation) :
    ∀ n t, (typesAfter same ops).types.lookup n = some t → t.fields.isSome = true →
      ∃ ps, BuiltStructure same t ps := by
  induction ops using List.reverseRecOn with
  | nil => exact fun n t => built_builtin
  | append_singleton ops op ih =>
    rw [typesAfter_append]
    apply forall_types_after
      (P := fun t => t.fields.isSome = true → ∃ ps, BuiltStructure same t ps) ih
    · intro t t' hdesc hfields ht hsome
      rw [hfields] at hsome
      obtain ⟨ps, hps⟩ := ht hsome
      exact ⟨ps, .inherited hps hfields (by rw [hdesc])⟩
    · intro d pto empty t hpto _ hparse hsome
      have hstate : (runFrom (forwardDeclareTypeAs d.name pto.name) (typesAfter same ops)).2 =
          typesAfter same (ops ++ [.forwardDeclareTypeAs d.name pto.name]) := by
        rw [typesAfter_append]
        rfl
      rw [hstate] at hparse
      obtain ⟨u, hu, hdesc, hfields⟩ := layout_parseStructureDef hparse
      rw [hfields] at hsome
      have hinherit : (empty.inherit pto).fields.isSome = true →
          ∃ ps, BuiltStructure same (empty.inherit pto) ps := by
        intro hp
        obtain ⟨ps, hps⟩ := ih d.parent pto hpto hp
        exact ⟨ps, .inherited hps rfl rfl⟩
      obtain ⟨ps, hps⟩ := built_addFields _ hu hinherit hsome
      exact ⟨ps, .inherited hps hfields (by rw [hdesc])⟩
    · intro n t parent name _ _ size _ hsome
      cases hsome

/-! ## The layout -/

theorem built_structureType (parent name : String) :
    BuiltStructure same (.structureType parent name) [] := by
  have hroot : (builtinTypes.types.lookup "structure").map
      (fun t => (t.fields.map List.length, t.desc.sizeInMemory)) = some (some 0, 0) := by
    with_unfolding_all decide
  obtain ⟨t, ht, hfields⟩ := Option.map_eq_some_iff.mp hroot
  rw [Prod.mk.injEq, Option.map_eq_some_iff] at hfields
  obtain ⟨⟨fields, hsome, hnil⟩, hsize⟩ := hfields
  obtain rfl := List.eq_nil_of_length_eq_zero hnil
  have hbuilt : BuiltStructure same t [] := .builtin ht hsome (by simp)
  exact .inherited hbuilt hsome.symm hsize.symm

/-! ### Sizes that stay -/

theorem extent_of_settled (h : p.Settled ts) : extent ts p.field = p.bytes := by
  unfold Placement.Settled at h
  ext a
  simp [extent, Placement.bytes, h]

theorem except_ok_bind {ε α β : Type} (a : α) (f : α → Except ε β) :
    (Except.ok a >>= f) = f a := rfl

theorem fieldSize_congr {us : TypeSystem} {f : Field} {u : SootType}
    (ht : ts.fieldType f = .ok t) (hu : us.fieldType f = .ok u) (hdesc : u.desc = t.desc) :
    us.fieldSize f = ts.fieldSize f := by
  unfold TypeSystem.fieldSize TypeSystem.getSizeInType SootType.isReference
  rw [ht, hu]
  simp only [except_ok_bind, hdesc]

/-- A field whose type is registered when it is placed has the same size ever after. -/
theorem settled_of_registered {before : List TypeOperation} {r : FieldRequest}
    (h : Places (typesAfter same before) t r p t')
    (hregistered : ((typesAfter same before).types.lookup r.type.baseType).isSome)
    (after : List TypeOperation) : p.Settled (typesAfter same (before ++ after)) := by
  obtain ⟨offset, alignment, -, -, hfield, hsize, htype, -⟩ := h
  obtain ⟨e, he⟩ := Option.isSome_iff_exists.mp hregistered
  have hkeeps : KeepsTypes (typesAfter same before) (typesAfter same (before ++ after)) := by
    rw [typesAfter, typesAfter, List.foldl_append]
    exact keepsTypes_run (hierarchy_typesAfter same before) after
  obtain ⟨u, hu, hgrown⟩ := hkeeps _ e he
  have hdesc : u.desc = e.desc := by
    have hsame := congrArg SootType.desc hgrown.same
    exact hsame
  have helement : p.element = e := by
    unfold TypeSystem.fieldType TypeSystem.lookupTypeAllowPartialDef at htype
    rw [show r.toField.type = r.type from rfl, he] at htype
    dsimp only at htype
    split at htype
    · cases htype
    · exact (Except.ok.inj htype).symm
  subst helement
  have hclass := (fieldType_eq_ok htype).2
  have hlater : (typesAfter same (before ++ after)).fieldType r.toField = .ok u := by
    unfold TypeSystem.fieldType TypeSystem.lookupTypeAllowPartialDef
    rw [show r.toField.type = r.type from rfl, hu]
    dsimp only
    rw [hdesc, if_neg hclass]
  rw [Placement.Settled, ← hsize, hfield]
  exact fieldSize_congr htype hlater hdesc

/-! ### Inline arrays -/

/-- The field of a structure of one number, four bytes long. -/
def cellNumber : FieldRequest := ⟨"n", .ofName "int32", false, false, -1, -1⟩

/-- A structure of one number. -/
def cellType : Deftype :=
  ⟨"cell", by decide, "structure", [⟨cellNumber, false, none⟩], [], [],
    ⟨none, none, none, none, false, false, false, false⟩⟩

/-- The request for a cell inside a structure. -/
def innerCell : FieldRequest := ⟨"inner", .ofName "cell", true, false, -1, -1⟩

/-- The request for three cells in a row. -/
def cells : FieldRequest := ⟨"cells", .ofName "cell", true, false, 3, -1⟩

/-- After any operations, also such that throw, the fields of a structure that is registered are in
their places: where they were placed automatically they are aligned and lie on no earlier field, and
all of them end inside the structure. SRCLINE: TypeSystem.cpp:88-268, TypeSystem.cpp:906-988 -/
theorem inPlace_typesAfter (same : SootType → SootType → Bool) (ops : List TypeOperation)
    {n : String} {t : SootType} (ht : (typesAfter same ops).types.lookup n = some t)
    (hsome : t.fields.isSome = true) : ∃ ps, BuiltStructure same t ps ∧ FieldsInPlace t ps := by
  obtain ⟨ps, hps⟩ := built_typesAfter same ops n t ht hsome
  exact ⟨ps, hps, inPlace_of_built hps⟩

theorem inPlace_typesAfter_cell : ∃ t ps,
    (typesAfter (fun _ _ => true) [.deftype cellType]).types.lookup "cell" = some t ∧
      t.desc.sizeInMemory = 4 ∧ FieldsInPlace t ps := by
  have hcell : ((typesAfter (fun _ _ => true) [.deftype cellType]).types.lookup "cell").map
      (fun t => (t.fields.isSome, t.desc.sizeInMemory)) = some (true, 4) := by
    with_unfolding_all decide
  obtain ⟨t, ht, hfields⟩ := Option.map_eq_some_iff.mp hcell
  rw [Prod.mk.injEq] at hfields
  obtain ⟨ps, -, hps⟩ := inPlace_typesAfter _ _ ht hfields.1
  exact ⟨t, ps, ht, hfields.2, hps⟩

end Soot.Analysis
