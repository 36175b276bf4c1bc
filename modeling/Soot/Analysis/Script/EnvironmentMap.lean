import Soot.Model.Script.Tables
import Mathlib.Data.Nat.Bitwise

/-!
# The map of an environment is a finite map

The map stands for a function if its slots hold the function's bindings, are probed well and are not
all used. Each operation keeps this, a removal only of a key that no other key lies behind; so the
map is a finite map after every sequence of such operations.
-/

set_option autoImplicit false

namespace Soot.Analysis.Script

open Soot.Computation Soot.Program.Script Soot.Program.Script.InternedPtrMap Soot.Model.Script

variable {K T : Type}

/-! ## Slots -/

theorem slotAddr_eq (p hash i : ℕ) : slotAddr (2 ^ p - 1) hash i = (hash + i) % 2 ^ p := by
  rw [slotAddr, Nat.and_two_pow_sub_one_eq_mod]

theorem keyAt_set {entries : List (Entry K T)} {a : ℕ} (ha : a < entries.length) (e : Entry K T) :
    keyAt (entries.set a e) = Function.update (keyAt entries) a e.key := by
  funext b
  by_cases hb : b = a
  · subst hb
    rw [Function.update_self, keyAt, List.getElem?_set_self ha]
    rfl
  · rw [Function.update_of_ne hb, keyAt, keyAt, List.getElem?_set_ne (Ne.symm hb)]

theorem keyAt_eq_some {entries : List (Entry K T)} {a : ℕ} {k : K} :
    keyAt entries a = some k ↔ ∃ v, entries[a]? = some ⟨some k, v⟩ := by
  rw [keyAt]
  cases entries[a]? with
  | none => exact ⟨nofun, nofun⟩
  | some e =>
    constructor
    · rintro h
      exact ⟨e.value, congrArg some (by cases e; cases h; rfl)⟩
    · rintro ⟨v, h⟩
      cases h
      rfl

theorem lt_of_keyAt {entries : List (Entry K T)} {a : ℕ} {k : K} (h : keyAt entries a = some k) :
    a < entries.length := by
  obtain ⟨v, hv⟩ := keyAt_eq_some.mp h
  exact (List.getElem?_eq_some_iff.mp hv).1

/-- The slots that are used. -/
def occupied (entries : List (Entry K T)) : ℕ := entries.countP (·.key.isSome)

theorem occupied_set {entries : List (Entry K T)} {a : ℕ} (ha : a < entries.length)
    (e : Entry K T) :
    occupied (entries.set a e) = occupied entries - (if (keyAt entries a).isSome then 1 else 0) +
      if e.key.isSome then 1 else 0 := by
  rw [occupied, List.countP_set ha, keyAt, List.getElem?_eq_getElem ha]
  rfl

theorem exists_empty {entries : List (Entry K T)} (h : occupied entries < entries.length) :
    ∃ a < entries.length, keyAt entries a = none := by
  by_contra hfull
  push Not at hfull
  refine absurd (List.countP_eq_length.mpr ?_) (Nat.ne_of_lt h)
  intro e he
  obtain ⟨a, ha, rfl⟩ := List.getElem_of_mem he
  have hkey := hfull a ha
  rw [keyAt, List.getElem?_eq_getElem ha] at hkey
  exact Option.ne_none_iff_isSome.mp hkey

theorem search_ends {entries : List (Entry K T)} {p : ℕ} (hsize : entries.length = 2 ^ p)
    (home : ℕ) (hroom : occupied entries < entries.length) (stop : ℕ → Bool)
    (hstop : ∀ a, keyAt entries a = none → stop a = true) :
    ∃ i < entries.length,
      ((List.range entries.length).find? fun i => stop (slotAddr (2 ^ p - 1) home i)) = some i ∧
      stop ((home + i) % entries.length) = true ∧
      ∀ j < i, stop ((home + j) % entries.length) = false := by
  obtain ⟨b, hb, hempty⟩ := exists_empty hroom
  cases hfind : (List.range entries.length).find? fun i =>
      stop (slotAddr (2 ^ p - 1) home i) with
  | none =>
    rw [List.find?_eq_none] at hfind
    have hnear := hfind (distance entries.length home b)
      (List.mem_range.mpr (distance_lt (by omega) home b))
    rw [slotAddr_eq, ← hsize, slot_distance home hb] at hnear
    exact absurd (hstop b hempty) hnear
  | some i =>
    obtain ⟨hi, hmem, hfirst⟩ := List.find?_range_eq_some.mp hfind
    refine ⟨i, List.mem_range.mp hmem, rfl, ?_, fun j hj => ?_⟩
    · rwa [slotAddr_eq, ← hsize] at hi
    · have hj' := hfirst j hj
      rw [slotAddr_eq, ← hsize] at hj'
      simpa using hj'

/-! ## Contents -/

/-- The map stands for a function. -/
structure Represents (hash : K → ℕ) (m : InternedPtrMap K T) (f : K → Option T) : Prop where
  size : m.entries.length = 2 ^ m.powerOfTwoSize
  large : 3 ≤ m.powerOfTwoSize
  mask : m.mask = 2 ^ m.powerOfTwoSize - 1
  probed : Probed m.entries.length hash (keyAt m.entries)
  used : occupied m.entries ≤ m.usedEntries
  room : m.usedEntries < m.nextResize
  limit : m.nextResize = maxUsed m.entries.length
  stored : ∀ k v, (∃ a : ℕ, m.entries[a]? = some (Entry.mk (some k) v)) ↔ f k = some v

theorem maxUsed_le (n : ℕ) : maxUsed n ≤ n := by
  rw [maxUsed]
  omega

theorem maxUsed_double (n : ℕ) : 2 * maxUsed n ≤ maxUsed (n * 2) := by
  rw [maxUsed, maxUsed]
  omega

namespace Represents

variable {hash : K → ℕ} {m : InternedPtrMap K T} {f : K → Option T}

theorem occupied_lt (h : Represents hash m f) : occupied m.entries < m.entries.length := by
  have hused := h.used
  have hroom := h.room
  have hlimit := maxUsed_le m.entries.length
  rw [← h.limit] at hlimit
  omega

theorem keyAt_eq_none (h : Represents hash m f) {k : K} (hk : f k = none) (a : ℕ) :
    keyAt m.entries a ≠ some k := by
  intro hkey
  obtain ⟨v, hv⟩ := keyAt_eq_some.mp hkey
  have hbound := (h.stored k v).mp ⟨a, hv⟩
  rw [hk] at hbound
  cases hbound

theorem eq_none_of_absent (h : Represents hash m f) {k : K}
    (habsent : ∀ a < m.entries.length, keyAt m.entries a ≠ some k) : f k = none := by
  cases hk : f k with
  | none => rfl
  | some v =>
    obtain ⟨a, ha⟩ := (h.stored k v).mpr hk
    exact absurd (keyAt_eq_some.mpr ⟨v, ha⟩)
      (habsent a (List.getElem?_eq_some_iff.mp ha).1)

variable [DecidableEq K]

theorem probe_ends (h : Represents hash m f) (k : K) :
    ∃ i < m.entries.length, m.probe (hash k) k = some i ∧
      slotAddr m.mask (hash k) i = (hash k + i) % m.entries.length ∧
      ((keyAt m.entries ((hash k + i) % m.entries.length) = none ∧ f k = none ∧
          ∀ j < i, keyAt m.entries ((hash k + j) % m.entries.length) ≠ none) ∨
        keyAt m.entries ((hash k + i) % m.entries.length) = some k) := by
  obtain ⟨i, hi, hfind, hstop, hfirst⟩ := search_ends h.size (hash k) h.occupied_lt
    (fun a => keyAt m.entries a = none ∨ keyAt m.entries a = some k) fun a ha => by simp [ha]
  refine ⟨i, hi, ?_, ?_, ?_⟩
  · rw [probe, h.mask]
    exact hfind
  · rw [h.mask, slotAddr_eq, h.size]
  · simp only [decide_eq_true_eq, decide_eq_false_iff_not, not_or] at hstop hfirst
    obtain hnone | hsome := hstop
    · refine .inl ⟨hnone, h.eq_none_of_absent fun a ha => ?_, fun j hj => (hfirst j hj).1⟩
      exact h.probed.absent hi hnone (fun j hj => (hfirst j hj).2) ha
    · exact .inr hsome

/-! ## Looking up -/

theorem lookup_eq (h : Represents hash m f) (k : K) : m.lookup hash k = some (f k) := by
  rw [lookup]
  split_ifs with hsmall
  · cases hfind : m.entries.find? (·.key = some k) with
    | none =>
      rw [List.find?_eq_none] at hfind
      have habsent : ∀ a < m.entries.length, keyAt m.entries a ≠ some k := by
        intro a ha hkey
        obtain ⟨v, hv⟩ := keyAt_eq_some.mp hkey
        exact hfind _ (List.mem_of_getElem? hv) (by simp)
      rw [h.eq_none_of_absent habsent]
      rfl
    | some e =>
      obtain ⟨a, ha, hget⟩ := List.getElem_of_mem (List.mem_of_find?_eq_some hfind)
      have hkey : e.key = some k := by simpa using List.find?_some hfind
      have hstored : m.entries[a]? = some ⟨some k, e.value⟩ := by
        rw [List.getElem?_eq_getElem ha, hget, ← hkey]
      rw [(h.stored k e.value).mp ⟨a, hstored⟩]
      rfl
  · obtain ⟨i, hi, hprobe, hslot, ⟨hnone, hk, -⟩ | hsome⟩ := h.probe_ends k
    · rw [hprobe, hk]
      simp only [bind, Option.bind, hslot]
      split
      · next key value hentry =>
        rw [keyAt, hentry] at hnone
        cases hnone
      · rfl
    · obtain ⟨v, hv⟩ := keyAt_eq_some.mp hsome
      rw [hprobe, (h.stored k v).mp ⟨_, hv⟩]
      simp only [bind, Option.bind, hslot, hv]
      rfl

end Represents

/-! ## Setting -/

/-- The bindings that are stored. -/
def Stored (entries : List (Entry K T)) (k : K) (v : T) : Prop :=
  ∃ a : ℕ, entries[a]? = some ⟨some k, v⟩

theorem stored_set {entries : List (Entry K T)} {a : ℕ} (ha : a < entries.length) {k : K} {v : T}
    (hfree : ∀ b, keyAt entries b = some k → b = a)
    (hslot : keyAt entries a = none ∨ keyAt entries a = some k) (l : K) (w : T) :
    Stored (entries.set a ⟨some k, v⟩) l w ↔ l = k ∧ w = v ∨ l ≠ k ∧ Stored entries l w := by
  constructor
  · rintro ⟨b, hb⟩
    by_cases hba : b = a
    · rw [hba, List.getElem?_set_self ha] at hb
      cases hb
      exact .inl ⟨rfl, rfl⟩
    · rw [List.getElem?_set_ne (Ne.symm hba)] at hb
      refine .inr ⟨?_, b, hb⟩
      rintro rfl
      exact hba (hfree b (keyAt_eq_some.mpr ⟨w, hb⟩))
  · rintro (⟨rfl, rfl⟩ | ⟨hl, b, hb⟩)
    · exact ⟨a, List.getElem?_set_self ha⟩
    · refine ⟨b, ?_⟩
      rw [List.getElem?_set_ne, hb]
      rintro rfl
      have hkey := keyAt_eq_some.mpr ⟨w, hb⟩
      obtain hnone | hsome := hslot
      · rw [hnone] at hkey
        cases hkey
      · exact hl (Option.some.inj (hkey.symm.trans hsome))

/-- A table that is being filled: it is probed well and has room for more. -/
structure Filling (hash : K → ℕ) (p : ℕ) (entries : List (Entry K T)) : Prop where
  size : entries.length = 2 ^ p
  probed : Probed entries.length hash (keyAt entries)

theorem reinsert_spec {hash : K → ℕ} {p : ℕ} {entries : List (Entry K T)} {k : K} {v : T}
    (h : Filling hash p entries) (hroom : occupied entries < entries.length)
    (hnew : ∀ w, ¬Stored entries k w) :
    ∃ entries', reinsert hash (2 ^ p - 1) entries ⟨some k, v⟩ = some entries' ∧
      entries'.length = entries.length ∧ Filling hash p entries' ∧
      occupied entries' = occupied entries + 1 ∧
      ∀ l w, Stored entries' l w ↔ l = k ∧ w = v ∨ Stored entries l w := by
  have habsent : ∀ a, keyAt entries a ≠ some k := by
    intro a ha
    obtain ⟨w, hw⟩ := keyAt_eq_some.mp ha
    exact hnew w ⟨a, hw⟩
  obtain ⟨i, hi, hfind, hstop, hfirst⟩ := search_ends h.size (hash k) hroom
    (fun a => keyAt entries a = none) fun a ha => by simp [ha]
  simp only [decide_eq_true_eq, decide_eq_false_iff_not] at hstop hfirst
  have ha : (hash k + i) % entries.length < entries.length := Nat.mod_lt _ (by omega)
  have hslot : slotAddr (2 ^ p - 1) (hash k) i = (hash k + i) % entries.length := by
    rw [slotAddr_eq, h.size]
  refine ⟨entries.set ((hash k + i) % entries.length) ⟨some k, v⟩, ?_, List.length_set, ?_, ?_, ?_⟩
  · simp only [reinsert, hfind, hslot, bind, Option.bind]
    rfl
  · refine ⟨List.length_set.trans h.size, ?_⟩
    rw [List.length_set, keyAt_set ha]
    exact h.probed.insert hi hfirst fun a _ => habsent a
  · rw [occupied_set ha, hstop]
    rfl
  · intro l w
    rw [stored_set ha (fun b hb => absurd hb (habsent b)) (.inl hstop)]
    constructor
    · rintro (heq | ⟨-, hstored⟩)
      · exact .inl heq
      · exact .inr hstored
    · rintro (heq | hstored)
      · exact .inl heq
      · refine .inr ⟨?_, hstored⟩
        rintro rfl
        exact hnew w hstored

theorem foldlM_reinsert {hash : K → ℕ} {p : ℕ} (olds : List (Entry K T))
    {entries : List (Entry K T)}
    (h : Filling hash p entries) (hroom : occupied entries + occupied olds < entries.length)
    (hnew : ∀ e ∈ olds, ∀ k ∈ e.key, ∀ w, ¬Stored entries k w)
    (hdistinct : olds.Pairwise fun e e' => ∀ k ∈ e.key, e'.key ≠ some k) :
    ∃ entries', olds.foldlM (reinsert hash (2 ^ p - 1)) entries = some entries' ∧
      entries'.length = entries.length ∧ Filling hash p entries' ∧
      occupied entries' = occupied entries + occupied olds ∧
      ∀ l w, Stored entries' l w ↔ Stored entries l w ∨ ⟨some l, w⟩ ∈ olds := by
  induction olds generalizing entries with
  | nil => exact ⟨entries, rfl, rfl, h, rfl, fun l w => by simp⟩
  | cons e olds ih =>
    obtain ⟨hfirst, hrest⟩ := List.pairwise_cons.mp hdistinct
    obtain ⟨key, v⟩ := e
    cases key with
    | none =>
      obtain ⟨entries', hfold, hlen, hfilling, hocc, hstored⟩ := ih h hroom
        (fun e he => hnew e (List.mem_cons_of_mem _ he)) hrest
      refine ⟨entries', hfold, hlen, hfilling, hocc, fun l w => ?_⟩
      rw [hstored]
      simp
    | some k =>
      have hcount : occupied (⟨some k, v⟩ :: olds) = occupied olds + 1 := by
        rw [occupied, List.countP_cons_of_pos rfl]
        rfl
      rw [hcount] at hroom
      obtain ⟨entries₁, hinsert, hlen₁, hfilling₁, hocc₁, hstored₁⟩ := reinsert_spec (v := v) h
        (by omega) (hnew _ List.mem_cons_self k rfl)
      obtain ⟨entries', hfold, hlen, hfilling, hocc, hstored⟩ := ih hfilling₁ (by omega)
        (fun e he l hl w => by
          rw [hstored₁]
          rintro (⟨rfl, -⟩ | hold)
          · exact hfirst e he l rfl hl
          · exact hnew e (List.mem_cons_of_mem _ he) l hl w hold) hrest
      refine ⟨entries', ?_, hlen.trans hlen₁, hfilling, by omega, fun l w => ?_⟩
      · rw [List.foldlM_cons, hinsert]
        exact hfold
      · rw [hstored, hstored₁, List.mem_cons]
        constructor
        · rintro ((⟨rfl, rfl⟩ | hold) | hmem)
          · exact .inr (.inl rfl)
          · exact .inl hold
          · exact .inr (.inr hmem)
        · rintro (hold | hhead | hmem)
          · exact .inl (.inr hold)
          · cases hhead
            exact .inl (.inl ⟨rfl, rfl⟩)
          · exact .inr hmem

theorem not_stored_replicate (n : ℕ) [Inhabited T] (k : K) (v : T) :
    ¬Stored (List.replicate n (empty : Entry K T)) k v := by
  rintro ⟨a, ha⟩
  have hmem := List.mem_of_getElem? ha
  cases List.eq_of_mem_replicate hmem

theorem occupied_replicate (n : ℕ) [Inhabited T] :
    occupied (List.replicate n (empty : Entry K T)) = 0 := by
  rw [occupied, List.countP_eq_zero]
  intro e he
  rw [List.eq_of_mem_replicate he]
  exact Bool.false_ne_true

theorem keyAt_replicate (n : ℕ) [Inhabited T] (a : ℕ) :
    keyAt (List.replicate n (empty : Entry K T)) a = none := by
  rw [Option.eq_none_iff_forall_ne_some]
  intro k hk
  obtain ⟨v, hv⟩ := keyAt_eq_some.mp hk
  exact not_stored_replicate n k v ⟨a, hv⟩

theorem pairwise_keys {n : ℕ} {home : K → ℕ} {entries : List (Entry K T)}
    (hlen : entries.length = n) (h : Probed n home (keyAt entries)) :
    entries.Pairwise fun e e' => ∀ k ∈ e.key, e'.key ≠ some k := by
  rw [List.pairwise_iff_getElem]
  intro i j hi hj hlt k hk hk'
  have hkey : ∀ a (ha : a < entries.length), entries[a].key = some k →
      keyAt entries a = some k := by
    intro a ha hkey
    rw [keyAt, List.getElem?_eq_getElem ha]
    exact hkey
  have heq := h.distinct (hlen ▸ hi) (hlen ▸ hj) (hkey i hi hk) (hkey j hj hk')
  omega

theorem stored_update [DecidableEq K] {f : K → Option T} {S : K → T → Prop}
    (h : ∀ k v, S k v ↔ f k = some v) (k : K) (v : T) (l : K) (w : T) :
    l = k ∧ w = v ∨ l ≠ k ∧ S l w ↔ Function.update f k (some v) l = some w := by
  by_cases hl : l = k
  · subst hl
    rw [Function.update_self]
    constructor
    · rintro (⟨-, rfl⟩ | ⟨hne, -⟩)
      · rfl
      · exact absurd rfl hne
    · intro heq
      exact .inl ⟨rfl, (Option.some.inj heq).symm⟩
  · rw [Function.update_of_ne hl, ← h]
    constructor
    · rintro (⟨heq, -⟩ | ⟨-, hS⟩)
      · exact absurd heq hl
      · exact hS
    · intro hS
      exact .inr ⟨hl, hS⟩

theorem resize_represents (hash : K → ℕ) {m : InternedPtrMap K T} {f : K → Option T} [Inhabited T]
    (hsize : m.entries.length = 2 ^ m.powerOfTwoSize) (hlarge : 3 ≤ m.powerOfTwoSize)
    (hprobed : Probed m.entries.length hash (keyAt m.entries))
    (hused : occupied m.entries ≤ m.usedEntries) (hfull : m.usedEntries ≤ maxUsed m.entries.length)
    (hstored : ∀ k v, Stored m.entries k v ↔ f k = some v) :
    ∃ m', m.resize hash = some m' ∧ Represents hash m' f := by
  have height : 8 ≤ m.entries.length := by
    rw [hsize]
    exact Nat.pow_le_pow_right (show 0 < 2 by omega) hlarge
  have hdouble : m.entries.length * 2 = 2 ^ (m.powerOfTwoSize + 1) := by rw [hsize, Nat.pow_succ]
  have hlimit := maxUsed_le m.entries.length
  have hfilling : Filling hash (m.powerOfTwoSize + 1)
      (List.replicate (m.entries.length * 2) (empty : Entry K T)) := by
    refine ⟨by rw [List.length_replicate, hdouble], .empty fun a _ => keyAt_replicate _ a⟩
  obtain ⟨entries, hfold, hlen, ⟨hsize', hprobed'⟩, hocc, hcopied⟩ := foldlM_reinsert
    m.entries hfilling
    (by rw [occupied_replicate, List.length_replicate]; omega)
    (fun e _ k _ w => not_stored_replicate _ k w) (pairwise_keys rfl hprobed)
  rw [List.length_replicate] at hlen
  rw [occupied_replicate] at hocc
  refine ⟨{ m with
      entries
      powerOfTwoSize := m.powerOfTwoSize + 1
      mask := 2 ^ (m.powerOfTwoSize + 1) - 1
      nextResize := maxUsed entries.length }, ?_, ?_⟩
  · rw [resize]
    simp only [hfold, bind, Option.bind]
    rfl
  · constructor
    · exact hsize'
    · exact Nat.le_succ_of_le hlarge
    · rfl
    · exact hprobed'
    · change occupied entries ≤ m.usedEntries
      omega
    · change m.usedEntries < maxUsed entries.length
      have hmore := maxUsed_double m.entries.length
      have hpos : 0 < maxUsed m.entries.length := by
        rw [maxUsed]
        omega
      rw [hlen]
      omega
    · rfl
    · intro k v
      rw [← hstored]
      refine (hcopied k v).trans ⟨?_, ?_⟩
      · rintro (hnew | hold)
        · exact absurd hnew (not_stored_replicate _ k v)
        · obtain ⟨a, ha, hget⟩ := List.getElem_of_mem hold
          exact ⟨a, by rw [List.getElem?_eq_getElem ha, hget]⟩
      · rintro ⟨a, ha⟩
        exact .inr (List.mem_of_getElem? ha)

theorem represents_clear [Inhabited T] (hash : K → ℕ) :
    Represents hash (InternedPtrMap.clear : InternedPtrMap K T) fun _ => none where
  size := List.length_replicate
  large := Nat.le_refl 3
  mask := rfl
  probed := .empty fun a _ => keyAt_replicate 8 a
  used := Nat.le_of_eq (occupied_replicate 8)
  room := show 0 < 8 * 11744051 / 2 ^ 24 by decide
  limit := rfl
  stored := fun k v => ⟨fun h => absurd h (not_stored_replicate 8 k v), nofun⟩

variable [DecidableEq K] [Inhabited T]

theorem set_represents {hash : K → ℕ} {m : InternedPtrMap K T} {f : K → Option T}
    (h : Represents hash m f) (k : K) (v : T) :
    ∃ m', m.set hash k v = some m' ∧ Represents hash m' (Function.update f k (some v)) := by
  obtain ⟨i, hi, hprobe, hslot, hend⟩ := h.probe_ends k
  have ha : (hash k + i) % m.entries.length < m.entries.length := Nat.mod_lt _ (by omega)
  generalize haddr : (hash k + i) % m.entries.length = a at *
  have hlen : (m.entries.set a ⟨some k, v⟩).length = m.entries.length := List.length_set
  have hrepresents : ∀ l w, Stored m.entries l w ↔ f l = some w := h.stored
  obtain ⟨hnone, hk, hfirst⟩ | hsome := hend
  · -- the key is new
    have hfree : ∀ b, keyAt m.entries b = some k → b = a :=
      fun b hb => absurd hb (h.keyAt_eq_none hk b)
    have hprobed : Probed (m.entries.set a ⟨some k, v⟩).length hash
        (keyAt (m.entries.set a ⟨some k, v⟩)) := by
      rw [hlen, keyAt_set ha, ← haddr]
      exact h.probed.insert hi hfirst fun b _ => h.keyAt_eq_none hk b
    have hused : occupied (m.entries.set a ⟨some k, v⟩) ≤ m.usedEntries + 1 := by
      have hused := h.used
      rw [occupied_set ha, hnone]
      simpa using hused
    have hstored : ∀ l w, Stored (m.entries.set a ⟨some k, v⟩) l w ↔
        Function.update f k (some v) l = some w := by
      intro l w
      rw [stored_set ha hfree (.inl hnone), stored_update hrepresents]
    have hroom := h.room
    by_cases hfull : m.nextResize ≤ m.usedEntries + 1
    · obtain ⟨m', hresize, hm'⟩ := resize_represents hash
        (m := { m with entries := m.entries.set a ⟨some k, v⟩, usedEntries := m.usedEntries + 1 })
        (hlen.trans h.size) h.large hprobed hused (by rw [hlen, ← h.limit]; exact hroom) hstored
      refine ⟨m', ?_, hm'⟩
      rw [InternedPtrMap.set]
      simp only [hprobe, hslot, hnone, bind, Option.bind]
      rw [if_pos trivial, if_pos hfull]
      exact hresize
    · refine ⟨{ m with entries := m.entries.set a ⟨some k, v⟩, usedEntries := m.usedEntries + 1 },
        ?_, hlen.trans h.size, h.large, h.mask, hprobed, hused, Nat.lt_of_not_le hfull, ?_, hstored⟩
      · rw [InternedPtrMap.set]
        simp only [hprobe, hslot, hnone, bind, Option.bind]
        rw [if_pos trivial, if_neg hfull]
        rfl
      · exact h.limit.trans (by rw [hlen])
  · -- the key has a slot
    have hsame : keyAt (m.entries.set a ⟨some k, v⟩) = keyAt m.entries := by
      rw [keyAt_set ha, ← hsome, Function.update_eq_self]
    refine ⟨{ m with entries := m.entries.set a ⟨some k, v⟩ },
      ?_, hlen.trans h.size, h.large, h.mask, ?_, ?_, h.room, h.limit.trans (by rw [hlen]), ?_⟩
    · rw [InternedPtrMap.set]
      simp only [hprobe, hslot, hsome, bind, Option.bind, reduceCtorEq, if_false]
      rfl
    · change Probed (m.entries.set a ⟨some k, v⟩).length hash (keyAt (m.entries.set a ⟨some k, v⟩))
      rw [hlen, hsame]
      exact h.probed
    · change occupied (m.entries.set a ⟨some k, v⟩) ≤ m.usedEntries
      have hused := h.used
      have hone : 0 < occupied m.entries := by
        obtain ⟨w, hw⟩ := keyAt_eq_some.mp hsome
        exact List.countP_pos_iff.mpr ⟨_, List.mem_of_getElem? hw, rfl⟩
      rw [occupied_set ha, hsome]
      simp only [Option.isSome_some, if_true]
      omega
    · intro l w
      rw [← stored_update hrepresents]
      exact stored_set ha
        (fun b hb => h.probed.distinct (lt_of_keyAt hb) ha hb hsome) (.inr hsome) l w

/-! ## Removing -/

omit [DecidableEq K] in
theorem shiftBack_eq (hash : K → ℕ) {p : ℕ} (a : ℕ) {entries : List (Entry K T)}
    (hsize : entries.length = 2 ^ p)
    (hlast : ∀ {b : ℕ} {l : K}, b < entries.length → keyAt entries b = some l →
      distance entries.length (hash l) b ≤ distance entries.length (hash l) a) (h n j : ℕ) :
    shiftBack hash (2 ^ p - 1) h a n j a entries = entries := by
  induction n generalizing j with
  | zero => rfl
  | succ n ih =>
    rw [shiftBack]
    split
    · next key v hentry =>
      have hb : slotAddr (2 ^ p - 1) h j < entries.length :=
        (List.getElem?_eq_some_iff.mp hentry).1
      have hnear := hlast hb (keyAt_eq_some.mpr ⟨v, hentry⟩)
      rw [if_neg, ih]
      intro hbehind
      generalize slotAddr (2 ^ p - 1) h j = b at *
      rw [Nat.and_two_pow_sub_one_eq_mod, ← hsize] at hbehind
      refine absurd hnear (Nat.not_le_of_lt (distance_strictMono hb ?_ ?_))
      · omega
      · omega
    · rfl

theorem remove_represents {hash : K → ℕ} {m : InternedPtrMap K T} {f : K → Option T} {k : K}
    (h : Represents hash m f) (hlast : Removable hash m k) :
    ∃ b m', m.remove hash k = some (b, m') ∧ Represents hash m' (Function.update f k none) := by
  obtain ⟨i, hi, hprobe, hslot, hend⟩ := h.probe_ends k
  have ha : (hash k + i) % m.entries.length < m.entries.length := Nat.mod_lt _ (by omega)
  generalize (hash k + i) % m.entries.length = a at *
  obtain ⟨hnone, hk, -⟩ | hsome := hend
  · refine ⟨false, m, ?_, ?_⟩
    · rw [InternedPtrMap.remove]
      simp only [hprobe, hslot, hnone, bind, Option.bind, if_true]
      rfl
    · rwa [← hk, Function.update_eq_self]
  · have hlen : (m.entries.set a empty).length = m.entries.length := List.length_set
    have hkeys : keyAt (m.entries.set a empty) = Function.update (keyAt m.entries) a none :=
      keyAt_set ha empty
    have hbehind : ∀ {b : ℕ} {l : K}, b < m.entries.length → keyAt m.entries b = some l →
        distance m.entries.length (hash l) b ≤ distance m.entries.length (hash l) a :=
      fun {b l} hb hl => hlast a ha hsome b hb l hl
    have hshift := shiftBack_eq hash a (hlen.trans h.size) (by
      intro b l hb hl
      rw [hlen] at hb ⊢
      rw [hkeys] at hl
      by_cases hba : b = a
      · rw [hba]
      · rw [Function.update_of_ne hba] at hl
        exact hbehind hb hl) (hash k) (m.entries.length - (i + 1)) (i + 1)
    refine ⟨true, { m with
        entries := m.entries.set a empty
        usedEntries := m.usedEntries - 1 }, ?_, ?_⟩
    · rw [InternedPtrMap.remove]
      simp only [hprobe, hslot, hsome, bind, Option.bind, reduceCtorEq, if_false]
      rw [h.mask, hshift]
      rfl
    · constructor
      · exact hlen.trans h.size
      · exact h.large
      · exact h.mask
      · change Probed (m.entries.set a empty).length hash (keyAt (m.entries.set a empty))
        rw [hlen, hkeys]
        exact h.probed.erase hbehind
      · change occupied (m.entries.set a empty) ≤ m.usedEntries - 1
        have hused := h.used
        rw [occupied_set ha, hsome]
        simp only [Option.isSome_some, if_true, empty, Option.isSome_none, Bool.false_eq_true,
          if_false]
        omega
      · exact Nat.lt_of_le_of_lt (Nat.sub_le _ _) h.room
      · exact h.limit.trans (by rw [hlen])
      · intro l w
        by_cases hl : l = k
        · subst hl
          rw [Function.update_self]
          refine ⟨?_, nofun⟩
          rintro ⟨b, hb⟩
          have hkey := keyAt_eq_some.mpr ⟨w, hb⟩
          rw [hkeys] at hkey
          by_cases hba : b = a
          · rw [hba, Function.update_self] at hkey
            cases hkey
          · rw [Function.update_of_ne hba] at hkey
            exact absurd (h.probed.distinct (lt_of_keyAt hkey) ha hkey hsome) hba
        · rw [Function.update_of_ne hl, ← h.stored]
          refine exists_congr fun b => ?_
          by_cases hba : b = a
          · subst hba
            obtain ⟨v, hv⟩ := keyAt_eq_some.mp hsome
            rw [List.getElem?_set_self ha, hv]
            constructor
            · exact nofun
            · intro heq
              cases heq
              exact absurd rfl hl
          · rw [List.getElem?_set_ne (Ne.symm hba)]

/-! ## Runs -/

theorem mapAfter_represents {hash : K → ℕ} {m : InternedPtrMap K T} {f : K → Option T}
    (h : Represents hash m f) (op : MapOperation K T)
    (hlast : ∀ key, op = .remove key → Removable hash m key) :
    ∃ m', mapAfter hash m op = some m' ∧ Represents hash m' (bindAfter f op) := by
  cases op with
  | set key value => exact set_represents h key value
  | remove key =>
    obtain ⟨b, m', hremove, hm'⟩ := remove_represents h (hlast key rfl)
    refine ⟨m', ?_, hm'⟩
    rw [mapAfter, hremove]
    rfl
  | clear => exact ⟨_, rfl, represents_clear hash⟩
  | lookup key =>
    refine ⟨m, ?_, h⟩
    rw [mapAfter, h.lookup_eq]
    rfl

theorem foldlM_mapAfter_represents {hash : K → ℕ} {ops : List (MapOperation K T)}
    {m : InternedPtrMap K T} {f : K → Option T} (h : Represents hash m f)
    (hlast : RemovesLast hash m ops) :
    ∃ m', ops.foldlM (mapAfter hash) m = some m' ∧ Represents hash m' (ops.foldl bindAfter f) := by
  induction ops generalizing m f with
  | nil => exact ⟨m, rfl, h⟩
  | cons op ops ih =>
    obtain ⟨hop, hrest⟩ := hlast
    obtain ⟨m₁, hafter, hm₁⟩ := mapAfter_represents h op hop
    obtain ⟨m', hfold, hm'⟩ := ih hm₁ (hrest m₁ hafter)
    refine ⟨m', ?_, hm'⟩
    rw [List.foldlM_cons, hafter]
    exact hfold

/-- The map is a finite map after every sequence of operations that removes a key only when no other
key lies behind its slot. SRCLINE: Object.hpp:453-638 -/
theorem isFiniteMap_of_removesLast (hash : K → ℕ) (ops : List (MapOperation K T))
    (hlast : RemovesLast hash .clear ops) : IsFiniteMap hash ops := by
  obtain ⟨m, hfold, hm⟩ := foldlM_mapAfter_represents (represents_clear hash) hlast
  exact ⟨m, hfold, hm.lookup_eq⟩

/-- Keys with the same hash, of which the last one set is removed. -/
theorem isFiniteMap_of_removesLast_last :
    RemovesLast (fun _ => 0) .clear [.set 1 10, .set 2 20, .remove (2 : ℕ)] ∧
      IsFiniteMap (fun _ => 0) [.set 1 10, .set (2 : ℕ) 20, .remove 2] := by
  have hlast : RemovesLast (T := ℕ) (fun _ => 0) .clear
      [.set 1 10, .set 2 20, .remove (2 : ℕ)] := by
    refine ⟨nofun, fun m₁ h₁ => ⟨nofun, fun m₂ h₂ => ⟨?_, fun _ _ => trivial⟩⟩⟩
    rintro _ ⟨⟩
    cases h₁
    cases h₂
    unfold Removable
    with_unfolding_all decide
  exact ⟨hlast, isFiniteMap_of_removesLast _ _ hlast⟩

/-- Of two keys with the same hash the first is removed, and the second is no longer found.
SRCLINE: Object.hpp:563-594 -/
theorem not_isFiniteMap :
    ¬∀ (K T : Type) [DecidableEq K] [Inhabited T] (hash : K → ℕ) (ops : List (MapOperation K T)),
      IsFiniteMap hash ops := by
  intro h
  obtain ⟨m, hfold, hlookup⟩ := h ℕ ℕ (fun _ => 0) [.set 1 10, .set 2 20, .remove 1]
  have hfold' : some m = _ := hfold.symm.trans (by with_unfolding_all rfl)
  obtain rfl := Option.some.inj hfold'
  have hfound := hlookup 2
  revert hfound
  with_unfolding_all decide

end Soot.Analysis.Script
