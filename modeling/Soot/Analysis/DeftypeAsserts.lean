import Mathlib.Data.List.Induction
import Soot.Analysis.TypeChanges
import Soot.Model.Deftype

/-!
# When an accepted assertion is true

What is compared is the last value of each option, cut to the width of its field.
-/

set_option autoImplicit false

namespace Soot.Analysis

open Soot.Computation Soot.Program Soot.Model

variable {ts : TypeSystem} {w : WrittenDeftype} {t : SootType}

/-! ## Reading the options -/

theorem readAssert_ok {v : Word} {a : ℤ} (h : readAssert v = .ok a) :
    a = (v.setWidth 32).toInt := by
  rw [readAssert] at h
  split_ifs at h
  exact (Except.ok.inj h).symm

/-- The numbers that are read are those of the last options of each kind. -/
structure ReadsLast (isBitfield : Bool) (written : List WrittenOption) (o : DeftypeOptions) :
    Prop where
  size : o.sizeAssert =
    (lastValue WrittenOption.sizeValue written).map fun v => (v.setWidth 32).toInt
  methods : o.methodCountAssert =
    (lastValue WrittenOption.methodValue written).map fun v => (v.setWidth 32).toInt
  flag : o.flagAssert = (lastValue WrittenOption.flagValue written).map (·.toNat)
  heap : o.heapBase = (lastValue WrittenOption.heapValue written).map (·.toNat % 2 ^ 16)
  bitfield : isBitfield = true → lastValue WrittenOption.heapValue written = none

theorem lastValue_concat (value : WrittenOption → Option Word) (written : List WrittenOption)
    (o : WrittenOption) :
    lastValue value (written ++ [o]) = (value o).or (lastValue value written) := by
  cases h : value o with
  | none => simp [lastValue, h]
  | some v => simp [lastValue, h]

theorem readsLast_concat {isBitfield : Bool} {written : List WrittenOption} {o o' : DeftypeOptions}
    (h : ReadsLast isBitfield written o) {option : WrittenOption}
    (hread : readOption isBitfield o option = .ok o') :
    ReadsLast isBitfield (written ++ [option]) o' := by
  cases option with
  | sizeAssert v =>
    obtain ⟨a, ha, hok⟩ := except_bind_eq_ok.mp hread
    cases hok
    refine ⟨?_, ?_, ?_, ?_, fun hkind => ?_⟩
    all_goals rw [lastValue_concat]
    exacts [congrArg some (readAssert_ok ha), h.methods, h.flag, h.heap, h.bitfield hkind]
  | methodCountAssert v =>
    obtain ⟨a, ha, hok⟩ := except_bind_eq_ok.mp hread
    cases hok
    refine ⟨?_, ?_, ?_, ?_, fun hkind => ?_⟩
    all_goals rw [lastValue_concat]
    exacts [h.size, congrArg some (readAssert_ok ha), h.flag, h.heap, h.bitfield hkind]
  | flagAssert v =>
    cases hread
    refine ⟨?_, ?_, ?_, ?_, fun hkind => ?_⟩
    all_goals rw [lastValue_concat]
    exacts [h.size, h.methods, rfl, h.heap, h.bitfield hkind]
  | heapBase v =>
    obtain ⟨_, hkind, hread⟩ := except_bind_eq_ok.mp hread
    obtain ⟨_, _, hok⟩ := except_bind_eq_ok.mp hread
    cases hok
    have hstructure := requireThat_eq_ok.mp hkind
    refine ⟨?_, ?_, ?_, ?_, fun hbits => ?_⟩
    all_goals rw [lastValue_concat]
    · exact h.size
    · exact h.methods
    · exact h.flag
    · rfl
    · rw [hbits] at hstructure
      cases hstructure

theorem readsLast_options {o : DeftypeOptions} (h : w.options = .ok o) :
    ReadsLast w.isBitfield w.written o := by
  rw [WrittenDeftype.options] at h
  generalize w.written = written at h ⊢
  induction written using List.reverseRecOn generalizing o with
  | nil =>
    cases h
    exact ⟨rfl, rfl, rfl, rfl, fun _ => rfl⟩
  | append_singleton written option ih =>
    rw [List.foldlM_append] at h
    obtain ⟨before, hbefore, h⟩ := except_bind_eq_ok.mp h
    rw [List.foldlM_cons] at h
    obtain ⟨after, hread, h⟩ := except_bind_eq_ok.mp h
    cases h
    exact readsLast_concat (ih hbefore) hread

/-! ## What an accepted form has passed -/

theorem desc_defineEntries {ms : List MethodDefinition} {t t' : SootType}
    (h : ts.defineEntries t ms = .ok t') : t'.desc = t.desc := by
  induction ms generalizing t with
  | nil =>
    cases h
    rfl
  | cons m ms ih =>
    obtain ⟨u, hu, h⟩ := except_bind_eq_ok.mp h
    have hdesc : u.desc = t.desc := by cases methodChange_defineEntry hu <;> rfl
    exact (ih h).trans hdesc

/-- The comparisons that `checkAsserts` makes. -/
structure Compared (written : List WrittenOption) (size methods heapBase : ℕ) : Prop where
  sizes : ∀ v, lastValue WrittenOption.sizeValue written = some v →
    ((size % 2 ^ 16 : ℕ) : ℤ) = (v.setWidth 32).toInt % 2 ^ 16
  counts : ∀ v, lastValue WrittenOption.methodValue written = some v →
    ((methods % 2 ^ 16 : ℕ) : ℤ) = (v.setWidth 32).toInt % 2 ^ 16
  flags : ∀ v, lastValue WrittenOption.flagValue written = some v →
    v.toNat = size % 2 ^ 16 + heapBase * 2 ^ 16 + methods % 2 ^ 16 * 2 ^ 32

theorem compared_of_checkAsserts {isBitfield : Bool} {written : List WrittenOption}
    {o : DeftypeOptions} {heapBase : ℕ} (hread : ReadsLast isBitfield written o)
    (h : ts.checkAsserts t (t.desc.sizeInMemory % 2 ^ 16) heapBase o = .ok ()) :
    ∃ methods, ts.getNextMethodId t = .ok methods ∧
      Compared written t.desc.sizeInMemory methods heapBase := by
  obtain ⟨_, hsize, h⟩ := except_bind_eq_ok.mp h
  obtain ⟨methods, hmethods, h⟩ := except_bind_eq_ok.mp h
  obtain ⟨_, hcount, hflag⟩ := except_bind_eq_ok.mp h
  have hsize := requireThat_eq_ok.mp hsize
  have hcount := requireThat_eq_ok.mp hcount
  have hflag := requireThat_eq_ok.mp hflag
  refine ⟨methods, hmethods, fun v hv => ?_, fun v hv => ?_, fun v hv => ?_⟩
  · rw [hread.size, hv, Option.map_some, Option.all_some, decide_eq_true_eq] at hsize
    exact hsize
  · rw [hread.methods, hv, Option.map_some, Option.all_some, decide_eq_true_eq] at hcount
    exact hcount
  · rw [hread.flag, hv, Option.map_some, Option.all_some, decide_eq_true_eq] at hflag
    exact hflag

theorem compared_of_parseWritten {empty : SootType} (h : ts.parseWritten empty w = .ok t) :
    ∃ u methods heapBase, WrittenDeftype.laidOut ts empty w = .ok u ∧ u.desc = t.desc ∧
      ts.getNextMethodId u = .ok methods ∧ ts.getNextMethodId t = .ok methods ∧
      declaredHeapBase ts w t = .ok heapBase ∧
      Compared w.written t.desc.sizeInMemory methods heapBase ∧
      (w.isBitfield = true → lastValue WrittenOption.heapValue w.written = none) := by
  obtain ⟨o, ho, h⟩ := except_bind_eq_ok.mp h
  have hread := readsLast_options ho
  rw [WrittenDeftype.laidOut]
  dsimp only at h
  split_ifs at h ⊢ with hkind
  · obtain ⟨u, hu, h⟩ := except_bind_eq_ok.mp h
    obtain ⟨_, hcheck, h⟩ := except_bind_eq_ok.mp h
    cases h
    obtain ⟨methods, hmethods, hcompared⟩ := compared_of_checkAsserts hread hcheck
    exact ⟨_, methods, 0, hu, rfl, hmethods, hmethods, if_pos hkind, hcompared, hread.bitfield⟩
  · obtain ⟨t₁, hfields, h⟩ := except_bind_eq_ok.mp h
    obtain ⟨t₂, hentries, h⟩ := except_bind_eq_ok.mp h
    obtain ⟨heapBase, hheap, h⟩ := except_bind_eq_ok.mp h
    obtain ⟨_, hcheck, h⟩ := except_bind_eq_ok.mp h
    cases h
    rw [← desc_defineEntries hentries] at hheap hcheck
    obtain ⟨methods, hmethods, hcompared⟩ := compared_of_checkAsserts hread hcheck
    refine ⟨t₂, methods, heapBase, except_bind_eq_ok.mpr ⟨t₁, hfields, hentries⟩, rfl, hmethods,
      hmethods, ?_, hcompared, hread.bitfield⟩
    rw [declaredHeapBase, if_neg hkind, ← hread.heap]
    exact hheap

theorem heapBase_spec {size heapBase : ℕ} {given : Option ℕ} (hgiven : ∀ b ∈ given, b < 2 ^ 16)
    (h : ts.heapBase t size given = .ok heapBase) :
    heapBase < 2 ^ 16 ∧ ∀ b ∈ given, heapBase = b := by
  rw [TypeSystem.heapBase] at h
  split at h
  · split at h
    · split at h
      · dsimp only at h
        split at h
        · cases h
          exact ⟨by omega, fun _ hb => by cases hb⟩
        · split at h
          · cases h
          · cases h
            exact ⟨hgiven _ rfl, fun _ hb => Option.some.inj hb⟩
      · cases h
    · cases h
  · cases h
    cases given with
    | none => exact ⟨by decide, fun _ hb => by cases hb⟩
    | some base => exact ⟨hgiven _ rfl, fun _ hb => Option.some.inj hb⟩

theorem heapBase_of_declared {heapBase : ℕ}
    (hbits : w.isBitfield = true → lastValue WrittenOption.heapValue w.written = none)
    (h : declaredHeapBase ts w t = .ok heapBase) :
    heapBase < 2 ^ 16 ∧ ∀ v, lastValue WrittenOption.heapValue w.written = some v →
      heapBase = v.toNat % 2 ^ 16 := by
  rw [declaredHeapBase] at h
  split_ifs at h with hkind
  · cases h
    exact ⟨by decide, fun v hv => by cases (hbits hkind).symm.trans hv⟩
  · have hgiven : ∀ b ∈ (lastValue WrittenOption.heapValue w.written).map (·.toNat % 2 ^ 16),
        b < 2 ^ 16 := by
      intro b hb
      obtain ⟨v, -, rfl⟩ := Option.map_eq_some_iff.mp hb
      exact Nat.mod_lt _ (by decide)
    apply (heapBase_spec hgiven h).imp_right
    intro hlast v hv
    exact hlast _ (by rw [hv]; rfl)

/-! ## Comparing as integers -/

theorem toInt_setWidth_mod (v : Word) : (v.setWidth 32).toInt % 2 ^ 16 = v.toInt % 2 ^ 16 := by
  rw [BitVec.toInt_eq_toNat_cond, BitVec.toInt_eq_toNat_cond, BitVec.toNat_setWidth]
  split_ifs <;> omega

theorem last_eq_of_all {value : WrittenOption → Option Word} {written : List WrittenOption}
    {o : WrittenOption} {v : Word} (ho : o ∈ written) (hv : value o = some v) {n : ℤ}
    (hall : ∀ o' ∈ written, ∀ u, value o' = some u → u.toInt = n) :
    lastValue value written = some v := by
  have hmem : v ∈ written.filterMap value := List.mem_filterMap.mpr ⟨o, ho, hv⟩
  obtain ⟨u, hu⟩ : ∃ u, lastValue value written = some u :=
    Option.isSome_iff_exists.mp (by
      rw [lastValue, List.getLast?_isSome]
      exact List.ne_nil_of_mem hmem)
  obtain ⟨o', ho', hu'⟩ := List.mem_filterMap.mp (List.mem_of_getLast? hu)
  rw [hu, BitVec.eq_of_toInt_eq ((hall o' ho' u hu').trans (hall o ho v hv).symm)]

theorem eq_of_mod {n : ℕ} {v : Word} (hmod : ((n % 2 ^ 16 : ℕ) : ℤ) = v.toInt % 2 ^ 16)
    (hlow : 0 ≤ v.toInt) (hhigh : v.toInt < 2 ^ 16) (hn : n < 2 ^ 16) : v.toInt = n := by
  rw [Nat.mod_eq_of_lt hn, Int.emod_eq_of_lt hlow hhigh] at hmod
  exact hmod.symm

theorem toInt_of_small {v : Word} {n : ℕ} (hv : v.toNat = n) (hn : n < 2 ^ 63) : v.toInt = n := by
  rw [BitVec.toInt_eq_toNat_of_lt (by omega), hv]

/-! ## The options that mean what they say -/

section Written

variable {written : List WrittenOption} {size methods heapBase : ℕ}

theorem assertFits_of_holds (hc : Compared written size methods heapBase)
    (hheap : heapBase < 2 ^ 16) (hall : ∀ o ∈ written, AssertHolds size methods heapBase o) :
    ∀ o ∈ written, AssertFits written size methods o := by
  intro o ho
  cases o with
  | sizeAssert v =>
    have h : v.toInt = size ∧ size < 2 ^ 16 := hall _ ho
    refine ⟨last_eq_of_all ho rfl (n := size) ?_, by omega, by omega, h.2⟩
    rintro (u | u | u | u) ho' _ ⟨⟩
    exact (hall _ ho').1
  | methodCountAssert v =>
    have h : v.toInt = methods ∧ methods < 2 ^ 16 := hall _ ho
    refine ⟨last_eq_of_all ho rfl (n := methods) ?_, by omega, by omega, h.2⟩
    rintro (u | u | u | u) ho' _ ⟨⟩
    exact (hall _ ho').1
  | flagAssert v =>
    have hlast : lastValue WrittenOption.flagValue written = some v := by
      refine last_eq_of_all ho rfl (n := size + heapBase * 2 ^ 16 + methods * 2 ^ 32) ?_
      rintro (u | u | u | u) ho' _ ⟨⟩
      exact hall _ ho'
    have h : v.toInt = size + heapBase * 2 ^ 16 + methods * 2 ^ 32 := hall _ ho
    have hflags := hc.flags v hlast
    rw [BitVec.toInt_eq_toNat_cond] at h
    have hsize := Nat.mod_le size (2 ^ 16)
    have hmethods := Nat.mod_le methods (2 ^ 16)
    refine ⟨hlast, ?_, ?_⟩ <;> split_ifs at h <;> omega
  | heapBase v =>
    have h : v.toInt = heapBase := hall _ ho
    refine ⟨last_eq_of_all ho rfl (n := heapBase) ?_, by omega, by omega⟩
    rintro (u | u | u | u) ho' _ ⟨⟩
    exact hall _ ho'

theorem assertHolds_of_fits (hc : Compared written size methods heapBase)
    (hheap : heapBase < 2 ^ 16)
    (hlast : ∀ v, lastValue WrittenOption.heapValue written = some v →
      heapBase = v.toNat % 2 ^ 16) {o : WrittenOption} (h : AssertFits written size methods o) :
    AssertHolds size methods heapBase o := by
  cases o with
  | sizeAssert v =>
    obtain ⟨hv, hlow, hhigh, hsize⟩ := h
    have hmod := (hc.sizes v hv).trans (toInt_setWidth_mod v)
    exact ⟨eq_of_mod hmod hlow hhigh hsize, hsize⟩
  | methodCountAssert v =>
    obtain ⟨hv, hlow, hhigh, hmethods⟩ := h
    have hmod := (hc.counts v hv).trans (toInt_setWidth_mod v)
    exact ⟨eq_of_mod hmod hlow hhigh hmethods, hmethods⟩
  | flagAssert v =>
    obtain ⟨hv, hsize, hmethods⟩ := h
    have hflags := hc.flags v hv
    rw [Nat.mod_eq_of_lt hsize, Nat.mod_eq_of_lt hmethods] at hflags
    have h := toInt_of_small hflags (by omega)
    change v.toInt = size + heapBase * 2 ^ 16 + methods * 2 ^ 32
    omega
  | heapBase v =>
    obtain ⟨hv, hlow, hhigh⟩ := h
    have hnat := hlast v hv
    have hint := BitVec.toInt_eq_toNat_cond v
    change v.toInt = heapBase
    split_ifs at hint <;> omega

end Written

/-- An accepted form means the numbers that are written with its options just if each of them
fits what it is compared with, and is not written again with another value.
SRCLINE: Deftype.cpp:764-1035 -/
theorem assertsHold_iff {empty : SootType} (h : ts.parseWritten empty w = .ok t) :
    AssertsHold ts w t ↔ AssertsFit ts empty w := by
  obtain ⟨u, methods, heapBase, hu, hdesc, hcount, hmethods, hbase, hc, hbits⟩ :=
    compared_of_parseWritten h
  obtain ⟨hheap, hlast⟩ := heapBase_of_declared hbits hbase
  constructor
  · rintro ⟨methods', heapBase', hmethods', hbase', hall⟩
    obtain rfl := Except.ok.inj (hmethods.symm.trans hmethods')
    obtain rfl := Except.ok.inj (hbase.symm.trans hbase')
    refine ⟨u, methods, hu, hcount, ?_⟩
    rw [hdesc]
    exact assertFits_of_holds hc hheap hall
  · rintro ⟨u', methods', hu', hcount', hall⟩
    obtain rfl := Except.ok.inj (hu.symm.trans hu')
    obtain rfl := Except.ok.inj (hcount.symm.trans hcount')
    rw [hdesc] at hall
    exact ⟨methods, heapBase, hmethods, hbase, fun o ho =>
      assertHolds_of_fits hc hheap hlast (hall o ho)⟩

/-- A structure of two numbers, with an assertion about its size and one about its flag word. -/
def assertedPoint (size : Word) : WrittenDeftype where
  form := ⟨"point", by decide, "structure",
    [⟨⟨"x", .ofName "int32", false, false, -1, -1⟩, false, none⟩,
      ⟨⟨"y", .ofName "int32", false, false, -1, -1⟩, false, none⟩], [], [],
    ⟨none, none, none, none, false, false, false, false⟩⟩
  written := [.sizeAssert size, .flagAssert 0x900000008]
  isBitfield := false

def emptyPoint : SootType :=
  (SootType.structureType "structure" "point").inherit (.structureType "object" "structure")

/-- The size is eight, and there are nine methods of the ancestors. -/
theorem laidOut_point (size : Word) : ∃ t,
    WrittenDeftype.laidOut builtinTypes emptyPoint (assertedPoint size) = .ok t ∧
      t.desc.sizeInMemory = 8 ∧ builtinTypes.getNextMethodId t = .ok 9 := by
  have hlaid : ((WrittenDeftype.laidOut builtinTypes emptyPoint (assertedPoint 0)).toOption.map
      fun t => (t.desc.sizeInMemory, (builtinTypes.getNextMethodId t).toOption)) =
        some (8, some 9) := by
    with_unfolding_all decide
  change ∃ t, WrittenDeftype.laidOut builtinTypes emptyPoint (assertedPoint 0) = .ok t ∧ _
  cases hrun : WrittenDeftype.laidOut builtinTypes emptyPoint (assertedPoint 0) with
  | error e =>
    rw [hrun] at hlaid
    cases hlaid
  | ok t =>
    rw [hrun] at hlaid
    obtain ⟨hsize, hmethods⟩ := Prod.mk.inj (Option.some.inj hlaid)
    cases hcount : builtinTypes.getNextMethodId t with
    | error e =>
      rw [hcount] at hmethods
      cases hmethods
    | ok n =>
      rw [hcount] at hmethods
      exact ⟨t, rfl, hsize, hcount.trans (congrArg Except.ok (Option.some.inj hmethods))⟩

theorem accepted_point : ∀ size ∈ [8, 0x10008],
    ∃ t, builtinTypes.parseWritten emptyPoint (assertedPoint size) = .ok t := by
  have hall : ([8, 0x10008].all fun size =>
      (builtinTypes.parseWritten emptyPoint (assertedPoint size)).isOk) = true := by
    with_unfolding_all decide
  intro size hsize
  have hok := List.all_eq_true.mp hall size hsize
  cases hrun : builtinTypes.parseWritten emptyPoint (assertedPoint size) with
  | error e =>
    rw [hrun] at hok
    cases hok
  | ok t => exact ⟨t, rfl⟩

theorem assertsHold_iff_point : ∃ t,
    builtinTypes.parseWritten emptyPoint (assertedPoint 8) = .ok t ∧
      AssertsHold builtinTypes (assertedPoint 8) t := by
  obtain ⟨t, ht⟩ := accepted_point 8 (by simp)
  obtain ⟨u, hu, hsize, hmethods⟩ := laidOut_point 8
  refine ⟨t, ht, (assertsHold_iff ht).mpr ⟨u, 9, hu, hmethods, ?_⟩⟩
  rw [hsize]
  intro o ho
  obtain rfl | rfl := List.mem_pair.mp ho
  · exact ⟨by decide, by decide, by decide, by decide⟩
  · exact ⟨by decide, by decide, by decide⟩

/-- The size of eight passes for `#x10008`. -/
theorem not_assertsHold_large :
    ¬ ∀ (ts : TypeSystem) (empty : SootType) (w : WrittenDeftype) (t : SootType),
      ts.parseWritten empty w = .ok t → AssertsHold ts w t := by
  intro hall
  obtain ⟨t, ht⟩ := accepted_point 0x10008 (by simp)
  obtain ⟨methods, heapBase, -, -, h⟩ := hall builtinTypes emptyPoint _ t ht
  have hasserted := h _ List.mem_cons_self
  have hsize : (0x10008 : Word).toInt = t.desc.sizeInMemory := hasserted.1
  have hsmall := hasserted.2
  have hvalue : (0x10008 : Word).toInt = 65544 := by decide
  omega

end Soot.Analysis
