import Mathlib.Algebra.GroupWithZero.Nat
import Mathlib.Algebra.BigOperators.Group.List.Basic
import Mathlib.Data.List.Flatten
import Mathlib.Data.List.Induction
import Mathlib.Data.List.TakeWhile

/-!
# Pools of distinct elements

Elements of given widths laid out one after the other in the order of their first occurrences,
each once. The places of two elements do not meet, every position belongs to an element, and the
place of an element stays where it is when elements are added.
-/

set_option autoImplicit false

namespace Soot.Computation

variable {α β : Type} (width : β → ℕ)

def endOf (l : List β) : ℕ := (l.map width).sum

@[simp] theorem endOf_nil : endOf width [] = 0 := rfl

@[simp] theorem endOf_concat (l : List β) (b : β) :
    endOf width (l ++ [b]) = endOf width l + width b := by
  simp [endOf]

variable [DecidableEq β]

def startOf (l : List β) (b : β) : ℕ := endOf width (l.takeWhile (· ≠ b))

section Places

variable {width}

theorem startOf_append_of_mem {l : List β} {b : β} (h : b ∈ l) (m : List β) :
    startOf width (l ++ m) b = startOf width l b := by
  simp only [startOf]
  rw [List.takeWhile_append, if_neg]
  intro hlength
  have hall := List.takeWhile_eq_self_iff.mp
    ((List.takeWhile_prefix (· ≠ b)).eq_of_length hlength)
  simpa using hall b h

theorem startOf_append_cons {l : List β} {b : β} (h : b ∉ l) (m : List β) :
    startOf width (l ++ b :: m) b = endOf width l := by
  have hall : l.takeWhile (· ≠ b) = l :=
    List.takeWhile_eq_self_iff.mpr fun a ha => by simpa using ne_of_mem_of_not_mem ha h
  simp only [startOf]
  rw [List.takeWhile_append, if_pos (by rw [hall]), List.takeWhile_cons_of_neg (by simp),
    List.append_nil]

theorem startOf_concat_self {l : List β} {b : β} (h : b ∉ l) :
    startOf width (l ++ [b]) b = endOf width l :=
  startOf_append_cons h []

theorem startOf_add_width_le {l : List β} {b : β} (h : b ∈ l) :
    startOf width l b + width b ≤ endOf width l := by
  induction l using List.reverseRecOn with
  | nil => simp at h
  | append_singleton l a ih =>
    rw [endOf_concat]
    by_cases hb : b ∈ l
    · rw [startOf_append_of_mem hb]
      exact (ih hb).trans (Nat.le_add_right _ _)
    · obtain rfl : b = a := by simpa [hb] using h
      rw [startOf_concat_self hb]

theorem startOf_separated {l : List β} {b c : β} (hb : b ∈ l) (hc : c ∈ l) (hne : b ≠ c) :
    startOf width l b + width b ≤ startOf width l c ∨
      startOf width l c + width c ≤ startOf width l b := by
  induction l using List.reverseRecOn with
  | nil => simp at hb
  | append_singleton l a ih =>
    by_cases hbl : b ∈ l
    · rw [startOf_append_of_mem hbl]
      by_cases hcl : c ∈ l
      · rw [startOf_append_of_mem hcl]
        exact ih hbl hcl
      · obtain rfl : c = a := by simpa [hcl] using hc
        rw [startOf_concat_self hcl]
        exact .inl (startOf_add_width_le hbl)
    · obtain rfl : b = a := by simpa [hbl] using hb
      have hcl : c ∈ l := by simpa [hne.symm] using hc
      rw [startOf_append_of_mem hcl, startOf_concat_self hbl]
      exact .inr (startOf_add_width_le hcl)

theorem exists_covering {l : List β} {o : ℕ} (hl : l.Nodup) (ho : o < endOf width l) :
    ∃ b ∈ l, startOf width l b ≤ o ∧ o < startOf width l b + width b := by
  induction l using List.reverseRecOn with
  | nil => simp at ho
  | append_singleton l a ih =>
    rw [List.nodup_append] at hl
    rw [endOf_concat] at ho
    by_cases hlast : endOf width l ≤ o
    · have ha : a ∉ l := fun h => hl.2.2 a h a (by simp) rfl
      refine ⟨a, by simp, ?_⟩
      rw [startOf_concat_self ha]
      exact ⟨hlast, ho⟩
    · obtain ⟨b, hb, hplace⟩ := ih hl.1 (by omega)
      refine ⟨b, by simp [hb], ?_⟩
      rwa [startOf_append_of_mem hb]

theorem drop_startOf (content : β → List α) {l : List β} {b : β} (h : b ∈ l) :
    ∃ rest, (l.flatMap content).drop (startOf (fun b => (content b).length) l b) =
      content b ++ rest := by
  obtain ⟨before, after, rfl, hbefore⟩ := List.eq_append_cons_of_mem h
  refine ⟨after.flatMap content, ?_⟩
  have hend : endOf (fun b => (content b).length) before = (before.flatMap content).length := by
    rw [endOf, List.length_flatMap]
  rw [startOf_append_cons hbefore, hend, List.flatMap_append, List.drop_left, List.flatMap_cons]

end Places

/-! ## First occurrences -/

section FirstOccurrences

variable {β : Type} [BEq β] [LawfulBEq β]

theorem eraseDups_concat_of_mem {l : List β} {b : β} (h : b ∈ l) :
    (l ++ [b]).eraseDups = l.eraseDups := by
  simp [List.eraseDups_append, List.removeAll, h]

theorem eraseDups_concat_of_not_mem {l : List β} {b : β} (h : b ∉ l) :
    (l ++ [b]).eraseDups = l.eraseDups ++ [b] := by
  simp [List.eraseDups_append, List.removeAll, h, List.eraseDups_cons]

theorem nodup_eraseDups (l : List β) : l.eraseDups.Nodup := by
  induction l using List.reverseRecOn with
  | nil => simp
  | append_singleton l b ih =>
    by_cases h : b ∈ l
    · rwa [eraseDups_concat_of_mem h]
    · rw [eraseDups_concat_of_not_mem h]
      exact List.nodup_append.mpr
        ⟨ih, by simp, by simpa using fun a ha => ne_of_mem_of_not_mem ha h⟩

theorem eraseDups_append_prefix (l m : List β) : l.eraseDups <+: (l ++ m).eraseDups := by
  rw [List.eraseDups_append]
  exact List.prefix_append _ _

end FirstOccurrences

end Soot.Computation
