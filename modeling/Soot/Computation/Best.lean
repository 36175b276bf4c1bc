import Mathlib.Data.List.Basic

/-!
# The first element of the greatest score

A search through a list that keeps an element as long as none after it scores higher. Elements
that score nothing are passed over.
-/

set_option autoImplicit false

namespace Soot.Computation

variable {α : Type} (score : α → ℕ)

def better (found : Option α × ℕ) (a : α) : Option α × ℕ :=
  if found.2 < score a then (some a, score a) else found

def best (l : List α) : Option α × ℕ := l.foldl (better score) (none, 0)

variable {score}

structure Finds (score : α → ℕ) (l : List α) (found : Option α × ℕ) : Prop where
  greatest : ∀ a ∈ l, score a ≤ found.2
  reached : found = (none, 0) ∨ ∃ a ∈ l, found = (some a, score a) ∧ 0 < score a

theorem finds_nil : Finds score [] (none, 0) := ⟨by simp, .inl rfl⟩

theorem finds_better {l : List α} {found : Option α × ℕ} (h : Finds score l found) (a : α) :
    Finds score (l ++ [a]) (better score found a) := by
  by_cases ha : found.2 < score a
  · rw [better, if_pos ha]
    refine ⟨?_, .inr ⟨a, by simp, rfl, Nat.zero_lt_of_lt ha⟩⟩
    intro b hb
    rcases List.mem_append.mp hb with hb | hb
    · exact Nat.le_trans (h.greatest b hb) (Nat.le_of_lt ha)
    · exact Nat.le_of_eq (congrArg score (List.mem_singleton.mp hb))
  · rw [better, if_neg ha]
    constructor
    · intro b hb
      rcases List.mem_append.mp hb with hb | hb
      · exact h.greatest b hb
      · rw [List.mem_singleton.mp hb]
        exact Nat.le_of_not_lt ha
    · rcases h.reached with hnone | ⟨b, hb, hfound⟩
      · exact .inl hnone
      · exact .inr ⟨b, List.mem_append_left _ hb, hfound⟩

theorem finds_foldl {l m : List α} {found : Option α × ℕ} (h : Finds score l found) :
    Finds score (l ++ m) (m.foldl (better score) found) := by
  induction m generalizing l found with
  | nil => simpa using h
  | cons a m ih =>
    rw [List.append_cons]
    exact ih (finds_better h a)

theorem finds_best (l : List α) : Finds score l (best score l) := finds_foldl finds_nil

end Soot.Computation
