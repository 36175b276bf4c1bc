import Mathlib.Data.List.DropRight
import Mathlib.Data.List.GetD

/-!
# Lines of a list

A list that separators divide into lines: where the lines begin, which line a position lies in, and
the search for it among the beginnings.
-/

set_option autoImplicit false

namespace Soot.Computation

variable {α : Type} [DecidableEq α]

def breaks (c : α) (l : List α) : List ℕ :=
  l.zipIdx.filterMap fun (a, i) => if a = c then some (i + 1) else none

@[simp] theorem breaks_nil (c : α) : breaks c [] = [] := rfl

theorem breaks_append (c : α) (l l' : List α) :
    breaks c (l ++ l') = breaks c l ++ (breaks c l').map (· + l.length) := by
  have hshift : l'.zipIdx l.length = (l'.zipIdx).map fun (a, i) => (a, i + l.length) := by
    rw [List.zipIdx_eq_map_add]
    simp [Nat.add_comm]
  rw [breaks, List.zipIdx_append, List.filterMap_append, Nat.zero_add, hshift,
    List.filterMap_map, breaks, breaks, List.map_filterMap]
  congr 1
  apply List.filterMap_congr
  rintro ⟨a, i⟩ -
  by_cases ha : a = c
  · simp [ha]
    omega
  · simp [ha]

theorem breaks_singleton (c a : α) : breaks c [a] = if a = c then [1] else [] := by
  by_cases ha : a = c <;> simp [breaks, ha]

theorem length_breaks (c : α) (l : List α) : (breaks c l).length = l.count c := by
  induction l using List.reverseRecOn with
  | nil => rfl
  | append_singleton l a ih =>
    rw [breaks_append, List.length_append, ih, List.length_map, breaks_singleton, List.count_append,
      List.count_singleton]
    by_cases ha : a = c <;> simp [ha]

theorem breaks_eq_nil {c : α} {l : List α} (h : c ∉ l) : breaks c l = [] := by
  rw [← List.length_eq_zero_iff, length_breaks, List.count_eq_zero_of_not_mem h]

theorem le_of_mem_breaks {c : α} {l : List α} {n : ℕ} (h : n ∈ breaks c l) : n ≤ l.length := by
  obtain ⟨⟨a, i⟩, hmem, hi⟩ := List.mem_filterMap.mp h
  have hlt := (List.mem_zipIdx' hmem).1
  by_cases ha : a = c
  · simp only [ha, if_true, Option.some.injEq] at hi
    omega
  · simp [ha] at hi

theorem pos_of_mem_breaks {c : α} {l : List α} {n : ℕ} (h : n ∈ breaks c l) : 0 < n := by
  obtain ⟨⟨a, i⟩, -, hi⟩ := List.mem_filterMap.mp h
  by_cases ha : a = c
  · simp only [ha, if_true, Option.some.injEq] at hi
    omega
  · simp [ha] at hi

theorem getLast?_breaks {c : α} {l : List α} (h : c ∈ l) :
    (breaks c l).getLast? = some (l.length - (l.rtakeWhile (· ≠ c)).length) := by
  induction l using List.reverseRecOn with
  | nil => cases h
  | append_singleton l a ih =>
    by_cases ha : a = c
    · rw [breaks_append, breaks_singleton, if_pos ha, List.rtakeWhile_concat_neg _ _ _ (by simp [ha])]
      simp [Nat.add_comm]
    · have hl : c ∈ l := by
        rcases List.mem_append.mp h with hl | hl
        · exact hl
        · exact absurd (List.mem_singleton.mp hl).symm ha
      rw [breaks_append, breaks_singleton, if_neg ha, List.rtakeWhile_concat_pos _ _ _ (by simp [ha]),
        List.map_nil, List.append_nil, ih hl]
      simp

theorem head?_breaks {c : α} {l : List α} (h : c ∈ l) :
    (breaks c l).head? = some ((l.takeWhile (· ≠ c)).length + 1) := by
  induction l with
  | nil => cases h
  | cons a l ih =>
    rw [← List.singleton_append, breaks_append, breaks_singleton]
    by_cases ha : a = c
    · simp [ha]
    · have hl : c ∈ l := List.mem_of_ne_of_mem (Ne.symm ha) h
      simp [ha, ih hl]

theorem find?_between {before behind : List ℤ} {x : ℤ} (hbefore : ∀ a ∈ before, a ≤ x)
    (hbehind : ∀ b ∈ behind, x < b) (hne : before ≠ []) (hne' : behind ≠ []) :
    ((List.range ((before ++ behind).length - 1)).find? fun line =>
      (before ++ behind).getD line 0 ≤ x ∧ x < (before ++ behind).getD (line + 1) 0) =
      some (before.length - 1) := by
  have hpos := List.length_pos_iff.mpr hne
  have hpos' := List.length_pos_iff.mpr hne'
  have hlow : ∀ line < before.length, (before ++ behind).getD line 0 ≤ x := by
    intro line hline
    rw [List.getD_append _ _ _ _ hline, List.getD_eq_getElem _ _ hline]
    exact hbefore _ (List.getElem_mem hline)
  have hhigh : x < (before ++ behind).getD before.length 0 := by
    rw [List.getD_append_right _ _ _ _ (Nat.le_refl _), Nat.sub_self,
      List.getD_eq_getElem _ _ hpos']
    exact hbehind _ (List.getElem_mem hpos')
  rw [List.find?_range_eq_some]
  refine ⟨?_, ?_, ?_⟩
  · rw [decide_eq_true_eq, Nat.sub_add_cancel hpos]
    exact ⟨hlow _ (by omega), hhigh⟩
  · rw [List.mem_range, List.length_append]
    omega
  · intro line hline
    have hnext := hlow (line + 1) (by omega)
    simp only [Bool.not_eq_true', decide_eq_false_iff_not, not_and, Int.not_lt]
    exact fun _ => hnext

end Soot.Computation
