import Mathlib.Data.List.Nodup

/-!
# Lists of assignments

A list of pairs as a map from its keys: the first pair of a key counts. Where each key occurs once,
the map is the set of the pairs.
-/

set_option autoImplicit false

namespace Soot.Computation

variable {κ α : Type} [DecidableEq κ]

def assign (l : List (κ × α)) (p : κ × α) : List (κ × α) := p :: l.filter fun q => q.1 ≠ p.1

theorem mem_of_lookup_eq_some {l : List (κ × α)} {k : κ} {a : α} (h : l.lookup k = some a) :
    (k, a) ∈ l := by
  obtain ⟨first, last, rfl, -⟩ := List.lookup_eq_some_iff.mp h
  simp

theorem lookup_eq_some_iff_mem {l : List (κ × α)} (h : (l.map Prod.fst).Nodup) {k : κ} {a : α} :
    l.lookup k = some a ↔ (k, a) ∈ l := by
  refine ⟨mem_of_lookup_eq_some, fun hmem => ?_⟩
  induction l with
  | nil => cases hmem
  | cons p l ih =>
    obtain ⟨hp, hl⟩ := List.nodup_cons.mp h
    rcases List.mem_cons.mp hmem with rfl | hmem
    · simp
    · have hne : k ≠ p.1 := fun hk => hp (hk ▸ List.mem_map_of_mem hmem)
      rw [List.lookup_cons, beq_eq_false_iff_ne.mpr hne]
      exact ih hl hmem

theorem lookup_congr {l l' : List (κ × α)} (h : (l.map Prod.fst).Nodup)
    (h' : (l'.map Prod.fst).Nodup) (hmem : ∀ p, p ∈ l ↔ p ∈ l') (k : κ) :
    l.lookup k = l'.lookup k := by
  apply Option.ext
  intro a
  rw [lookup_eq_some_iff_mem h, lookup_eq_some_iff_mem h', hmem]

/-! ## Assigning one pair after the other -/

theorem mem_assign {l : List (κ × α)} {p q : κ × α} :
    q ∈ assign l p ↔ q = p ∨ (q ∈ l ∧ q.1 ≠ p.1) := by
  simp [assign]

theorem nodup_assign {l : List (κ × α)} (h : (l.map Prod.fst).Nodup) (p : κ × α) :
    ((assign l p).map Prod.fst).Nodup := by
  rw [assign, List.map_cons, List.nodup_cons]
  refine ⟨fun hmem => ?_, h.sublist (List.filter_sublist.map Prod.fst)⟩
  obtain ⟨q, hq, hkey⟩ := List.mem_map.mp hmem
  exact absurd hkey (by simpa using (List.mem_filter.mp hq).2)

theorem nodup_foldl_assign (ps : List (κ × α)) {l : List (κ × α)}
    (h : (l.map Prod.fst).Nodup) : ((ps.foldl assign l).map Prod.fst).Nodup := by
  induction ps generalizing l with
  | nil => exact h
  | cons p ps ih => exact ih (nodup_assign h p)

theorem mem_of_mem_foldl_assign {ps l : List (κ × α)} {q : κ × α} (h : q ∈ ps.foldl assign l) :
    q ∈ ps ∨ q ∈ l := by
  induction ps generalizing l with
  | nil => exact .inr h
  | cons p ps ih =>
    rcases ih h with hq | hq
    · exact .inl (List.mem_cons_of_mem p hq)
    · rcases mem_assign.mp hq with rfl | ⟨hq, -⟩
      · exact .inl List.mem_cons_self
      · exact .inr hq

theorem mem_foldl_assign {ps l : List (κ × α)} (h : (ps.map Prod.fst).Nodup) {q : κ × α}
    (hq : q ∈ ps ∨ (q ∈ l ∧ q.1 ∉ ps.map Prod.fst)) : q ∈ ps.foldl assign l := by
  induction ps generalizing l with
  | nil => simpa using hq
  | cons p ps ih =>
    obtain ⟨hp, hps⟩ := List.nodup_cons.mp h
    apply ih hps
    rcases hq with hq | ⟨hq, hkey⟩
    · rcases List.mem_cons.mp hq with rfl | hq
      · exact .inr ⟨mem_assign.mpr (.inl rfl), hp⟩
      · exact .inl hq
    · rw [List.map_cons, List.mem_cons, not_or] at hkey
      exact .inr ⟨mem_assign.mpr (.inr ⟨hq, hkey.1⟩), hkey.2⟩

theorem lookup_foldl_assign {ps : List (κ × α)} (h : (ps.map Prod.fst).Nodup) (k : κ) :
    (ps.foldl assign []).lookup k = ps.lookup k := by
  apply lookup_congr (nodup_foldl_assign ps (by simp)) h
  intro p
  exact ⟨fun hp => (mem_of_mem_foldl_assign hp).resolve_right List.not_mem_nil,
    fun hp => mem_foldl_assign h (.inl hp)⟩

end Soot.Computation
