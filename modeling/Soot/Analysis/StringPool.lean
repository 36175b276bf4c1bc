import Soot.Model.StringPool

/-!
# The string pool over a run

After strings have been added the buffer has each string once, in the order of the first
additions, and the index has where each starts, cut to 32 bits. While no string starts at 4 GiB
or later the offsets are the places of the strings; the first one that does gets an offset inside
a string that was added before it.
-/

set_option autoImplicit false

namespace Soot.Analysis

open Soot.Computation Soot.Model Soot.Program.DataSegment

/-- Where a string of a run starts in the pool. -/
def stringPlace (strings : List Text) (s : Text) : ℕ := startOf storedSize strings.eraseDups s

/-- What a pool has after a run. -/
structure HoldsStrings (strings : List Text) (p : StringPool) : Prop where
  bytes : p.bytes = strings.eraseDups.flatMap (· ++ [0])
  index : ∀ s, p.index.lookup s =
    if s ∈ strings then some (UInt32.ofNat (stringPlace strings s)) else none

section Places

variable {strings before after : List Text} {s t : Text}

theorem place_append_of_mem (h : s ∈ before) (after : List Text) :
    stringPlace (before ++ after) s = stringPlace before s := by
  obtain ⟨rest, hrest⟩ := eraseDups_append_prefix before after
  rw [stringPlace, ← hrest, startOf_append_of_mem (by simpa using h), stringPlace]

theorem place_of_first (h : s ∉ before) (after : List Text) :
    stringPlace (before ++ s :: after) s = endOf storedSize before.eraseDups := by
  rw [List.append_cons, place_append_of_mem (by simp), stringPlace, eraseDups_concat_of_not_mem h,
    startOf_concat_self (by simpa using h)]

theorem length_bytes {p : StringPool} (h : HoldsStrings strings p) :
    p.bytes.length = endOf storedSize strings.eraseDups := by
  have hwidth : (fun s : Text => (s ++ [(0 : UInt8)]).length) = storedSize := by
    funext s
    simp [storedSize]
  rw [h.bytes, List.length_flatMap, hwidth, endOf]

theorem lookupOrAdd_spec {p : StringPool} (h : HoldsStrings before p) (s : Text) :
    (p.lookupOrAdd s).1 = UInt32.ofNat (stringPlace (before ++ [s]) s) ∧
      HoldsStrings (before ++ [s]) (p.lookupOrAdd s).2 := by
  by_cases hs : s ∈ before
  · have hlookup : p.index.lookup s = some (UInt32.ofNat (stringPlace before s)) := by
      rw [h.index, if_pos hs]
    simp only [StringPool.lookupOrAdd, hlookup, place_append_of_mem hs, true_and]
    refine ⟨by rw [h.bytes, eraseDups_concat_of_mem hs], fun t => ?_⟩
    have hmem : t ∈ before ++ [s] ↔ t ∈ before := by
      simpa using fun ht : t = s => ht ▸ hs
    rw [h.index]
    simp only [hmem]
    split
    · next ht => rw [place_append_of_mem ht]
    · rfl
  · have hlookup : p.index.lookup s = none := by rw [h.index, if_neg hs]
    have hplace : stringPlace (before ++ [s]) s = p.bytes.length := by
      rw [place_of_first hs, length_bytes h]
    simp only [StringPool.lookupOrAdd, hlookup, hplace, true_and]
    refine ⟨?_, fun t => ?_⟩
    · rw [h.bytes, eraseDups_concat_of_not_mem hs, List.flatMap_append, List.flatMap_singleton]
    · rw [List.lookup_cons]
      by_cases ht : t = s
      · subst ht
        simp [hplace]
      · have hmem : t ∈ before ++ [s] ↔ t ∈ before := by simp [ht]
        rw [beq_eq_false_iff_ne.mpr ht, h.index]
        simp only [hmem]
        split
        · next hb => rw [place_append_of_mem hb]
        · rfl

theorem holdsStrings_poolOf (strings : List Text) : HoldsStrings strings (poolOf strings) := by
  induction strings using List.reverseRecOn with
  | nil => exact ⟨rfl, fun _ => by simp [poolOf, StringPool.empty]⟩
  | append_singleton strings s ih =>
    have hstep := (lookupOrAdd_spec ih s).2
    rwa [poolOf, List.foldl_concat]

theorem offsetAfter_eq (before : List Text) (s : Text) (after : List Text) :
    offsetAfter before s = UInt32.ofNat (stringPlace (before ++ s :: after) s) := by
  rw [offsetAfter, (lookupOrAdd_spec (holdsStrings_poolOf before) s).1,
    List.append_cons before s after,
    place_append_of_mem (List.mem_append_right before (List.mem_singleton_self s)) after]

end Places

section Fits

variable {strings : List Text} {s : Text}

theorem toNat_offsetAfter (h : ∀ before s after, strings = before ++ s :: after → s ∉ before →
    endOf storedSize before.eraseDups < 2 ^ 32) {before after : List Text}
    (hstrings : strings = before ++ s :: after) :
    (offsetAfter before s).toNat = stringPlace strings s := by
  have hmem : s ∈ strings := by simp [hstrings]
  obtain ⟨first, rest, hfirst, hnew⟩ := List.eq_append_cons_of_mem hmem
  have hlt := h first s rest hfirst hnew
  have hplace : stringPlace strings s = endOf storedSize first.eraseDups := by
    rw [hfirst, place_of_first hnew]
  rw [offsetAfter_eq before s after, ← hstrings, hplace]
  exact UInt32.toNat_ofNat_of_lt' hlt

theorem stringPlace_separated {t : Text} (hs : s ∈ strings) (ht : t ∈ strings) (hne : s ≠ t) :
    stringPlace strings s + s.length < stringPlace strings t ∨
      stringPlace strings t + t.length < stringPlace strings s := by
  have hsep : stringPlace strings s + storedSize s ≤ stringPlace strings t ∨
      stringPlace strings t + storedSize t ≤ stringPlace strings s :=
    startOf_separated (List.mem_eraseDups.mpr hs) (List.mem_eraseDups.mpr ht) hne
  simp only [storedSize] at hsep
  omega

theorem cString_drop_place (hs : s ∈ strings) (hzero : 0 ∉ s) :
    cString ((poolOf strings).bytes.drop (stringPlace strings s)) = s := by
  obtain ⟨rest, hrest⟩ := drop_startOf (· ++ [(0 : UInt8)]) (List.mem_eraseDups.mpr hs)
  have hwidth : (fun b : Text => (b ++ [(0 : UInt8)]).length) = storedSize := by
    funext b
    simp [storedSize]
  rw [hwidth] at hrest
  rw [(holdsStrings_poolOf strings).bytes, stringPlace, hrest, cString, List.append_assoc,
    List.takeWhile_append_of_pos fun b hb => by simpa using ne_of_mem_of_not_mem hb hzero]
  simp

theorem poolKept_of_fits (h : PoolFits strings) : PoolKept strings where
  stable := by
    rintro before s middle after -
    have hoffset : offsetAfter (before ++ s :: middle) s = offsetAfter before s := by
      rw [offsetAfter_eq before s (middle ++ [s]), offsetAfter_eq (before ++ s :: middle) s []]
      simp
    refine ⟨hoffset, ?_⟩
    rw [StringPool.getOffset, (holdsStrings_poolOf _).index, if_pos (by simp),
      offsetAfter_eq before s middle]
  distinct := by
    intro before s after before' s' after' hs hs'
    refine ⟨fun heq => ?_, ?_⟩
    · by_contra hne
      have hplaces : stringPlace strings s = stringPlace strings s' := by
        rw [← toNat_offsetAfter h.addressable hs, heq, toNat_offsetAfter h.addressable hs']
      have hmem : s ∈ strings := by simp [hs]
      have hmem' : s' ∈ strings := by simp [hs']
      have hsep := stringPlace_separated hmem hmem' hne
      omega
    · rintro rfl
      rw [offsetAfter_eq before s after, offsetAfter_eq before' s after', ← hs, ← hs']
  reads := by
    intro before s middle after hs
    have hplace : (offsetAfter before s).toNat = stringPlace (before ++ s :: middle) s := by
      have hsplit : strings = before ++ s :: (middle ++ after) := by simpa using hs
      rw [toNat_offsetAfter h.addressable hsplit, hs, place_append_of_mem (by simp)]
    rw [StringPool.getAt, hplace]
    exact cString_drop_place (by simp) (h.noZero s (by simp [hs]))
  separated := by
    intro before s after before' s' after' hs hs' hne
    rw [toNat_offsetAfter h.addressable hs, toNat_offsetAfter h.addressable hs']
    exact stringPlace_separated (by simp [hs]) (by simp [hs']) hne

end Fits

section Kept

variable {strings : List Text}

theorem noZero_of_kept (h : PoolKept strings) : ∀ s ∈ strings, 0 ∉ s := by
  intro s hs hzero
  obtain ⟨before, after, hsplit⟩ := List.append_of_mem hs
  have hread := h.reads before s [] after (by simpa using hsplit)
  rw [← hread, cString] at hzero
  simpa using List.mem_takeWhile_imp hzero

theorem addressable_of_kept (h : PoolKept strings) (before : List Text) (s : Text)
    (after : List Text) (hs : strings = before ++ s :: after) (hnew : s ∉ before) :
    endOf storedSize before.eraseDups < 2 ^ 32 := by
  induction hn : before.length using Nat.strong_induction_on generalizing before s after with
  | _ n ih =>
  by_contra hfull
  have hearlier : ∀ first t rest, before = first ++ t :: rest → t ∉ first →
      endOf storedSize first.eraseDups < 2 ^ 32 := by
    intro first t rest hbefore ht
    apply ih first.length _ first t (rest ++ s :: after) _ ht rfl
    · simp [← hn, hbefore]
    · simp [hs, hbefore]
  have hsmall := (offsetAfter before s).toNat_lt
  have hbelow : (offsetAfter before s).toNat < endOf storedSize before.eraseDups := by omega
  obtain ⟨t, ht, hlow, hhigh⟩ := exists_covering (nodup_eraseDups before) hbelow
  obtain ⟨first, rest, hfirst⟩ := List.append_of_mem (List.mem_eraseDups.mp ht)
  have hplace := toNat_offsetAfter hearlier hfirst
  have hne : s ≠ t := fun heq => hnew (heq ▸ List.mem_eraseDups.mp ht)
  have hsep := h.separated before s after first t (rest ++ s :: after) hs
    (by simp [hs, hfirst]) hne
  rw [hplace, stringPlace] at hsep
  simp only [storedSize] at hhigh
  omega

/-- INTERNAL: A run of additions is kept exactly if no string has a zero byte and every string
that is new comes when the pool has less than 4 GiB. -/
theorem poolKept_iff (strings : List Text) : PoolKept strings ↔ PoolFits strings :=
  ⟨fun h => ⟨noZero_of_kept h, addressable_of_kept h⟩, poolKept_of_fits⟩

/-- A string with a zero byte is read up to it. -/
theorem not_poolKept : ¬ ∀ strings, PoolKept strings := by
  intro h
  exact noZero_of_kept (h [[97, 0, 98]]) [97, 0, 98] (by simp) (by simp)

end Kept

/-! ## The pool of the emitters -/

/-- The pool that the emitters number literals with and the pool of the data segment after the
same literals. -/
structure SamePool (p : Program.StringPool) (q : StringPool) : Prop where
  bytes : q.bytes = p.bytes
  index : ∀ s, q.index.lookup (text s) = (p.index.lookup s).map UInt32.ofNat

theorem samePool_empty : SamePool .empty .empty := ⟨rfl, fun _ => rfl⟩

/-- The emitters and the data segment give a literal the same offset. -/
theorem SamePool.lookupOrAdd {p : Program.StringPool} {q : StringPool} (h : SamePool p q)
    (s : String) : (q.lookupOrAdd (text s)).1 = UInt32.ofNat (p.lookupOrAdd s).1 ∧
      SamePool (p.lookupOrAdd s).2 (q.lookupOrAdd (text s)).2 := by
  unfold StringPool.lookupOrAdd Program.StringPool.lookupOrAdd
  rw [h.index]
  cases p.index.lookup s with
  | some offset => exact ⟨rfl, h⟩
  | none =>
    refine ⟨?_, ?_, ?_⟩
    · show UInt32.ofNat q.bytes.length = UInt32.ofNat p.bytes.length
      rw [h.bytes]
    · show q.bytes ++ (text s ++ [0]) = p.bytes ++ s.toUTF8.toList ++ [0]
      rw [h.bytes, List.append_assoc]
      rfl
    · intro t
      show List.lookup (text t) ((text s, _) :: q.index) = (List.lookup t ((s, _) :: p.index)).map _
      rw [List.lookup_cons, List.lookup_cons, h.index]
      by_cases hts : t = s
      · rw [hts, beq_self_eq_true, beq_self_eq_true, h.bytes]
        rfl
      · rw [beq_eq_false_iff_ne.mpr hts, beq_eq_false_iff_ne.mpr (text_injective.ne hts)]

theorem samePool_run (literals : List String) :
    SamePool (literals.foldl (fun p s => (p.lookupOrAdd s).2) .empty)
      (poolOf (literals.map text)) := by
  have hrun : ∀ (p : Program.StringPool) (q : StringPool), SamePool p q →
      SamePool (literals.foldl (fun p s => (p.lookupOrAdd s).2) p)
        ((literals.map text).foldl (fun p s => (p.lookupOrAdd s).2) q) := by
    induction literals with
    | nil => exact fun _ _ h => h
    | cons s literals ih => exact fun p q h => ih _ _ (h.lookupOrAdd s).2
  exact hrun _ _ samePool_empty

end Soot.Analysis
