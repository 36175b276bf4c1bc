import Mathlib.Data.List.Nodup
import Mathlib.Data.List.Perm.Subperm

/-!
# Lines of ancestors

A partial step from an element to the next one above it, and the finite lines it traces: the
elements above `a`, nearest first, when the walk up from `a` ends. A line is unique, never
meets an element twice and is therefore no longer than any list it runs through; a map that
commutes with two steps carries the lines of the one to the lines of the other.
-/

set_option autoImplicit false

namespace Soot.Computation

variable {α β : Type}

/-- `Ancestry next a above`: the walk from `a` ends, and `above` is what it meets. -/
inductive Ancestry (next : α → Option α) : α → List α → Prop where
  | root {a : α} : next a = none → Ancestry next a []
  | child {a b : α} {above : List α} :
      next a = some b → Ancestry next b above → Ancestry next a (b :: above)

namespace Ancestry

variable {next : α → Option α} {a b : α} {above above' : List α}

theorem unique (h : Ancestry next a above) (h' : Ancestry next a above') : above = above' := by
  induction h generalizing above' with
  | root hnone =>
    cases h' with
    | root _ => rfl
    | child hsome _ => simp [hnone] at hsome
  | child hsome _ ih =>
    cases h' with
    | root hnone => simp [hsome] at hnone
    | child hsome' htail =>
      obtain rfl : _ = _ := Option.some.inj (hsome.symm.trans hsome')
      rw [ih htail]

theorem of_mem (h : Ancestry next a above) (hb : b ∈ above) :
    ∃ rest, Ancestry next b rest ∧ (b :: rest) <:+ above := by
  induction h with
  | root _ => simp at hb
  | @child a c above _ htail ih =>
    rcases List.mem_cons.mp hb with rfl | hb
    · exact ⟨above, htail, List.suffix_refl _⟩
    · obtain ⟨rest, hrest, hsuffix⟩ := ih hb
      exact ⟨rest, hrest, hsuffix.trans (List.suffix_cons _ _)⟩

theorem not_mem (h : Ancestry next a above) : a ∉ above := by
  intro ha
  obtain ⟨rest, hrest, hsuffix⟩ := h.of_mem ha
  obtain rfl := h.unique hrest
  exact Nat.not_succ_le_self _ hsuffix.length_le

theorem nodup (h : Ancestry next a above) : (a :: above).Nodup := by
  induction h with
  | root _ => simp
  | child hsome htail ih => exact List.nodup_cons.mpr ⟨(Ancestry.child hsome htail).not_mem, ih⟩

theorem length_le (h : Ancestry next a above) {all : List α} (hall : ∀ b ∈ above, b ∈ all) :
    above.length ≤ all.length :=
  (List.subperm_of_subset (List.nodup_cons.mp h.nodup).2 hall).length_le

theorem forall_mem {P : α → Prop} (h : Ancestry next a above)
    (hstep : ∀ a b, next a = some b → P b) : ∀ b ∈ above, P b := by
  induction h with
  | root _ => simp
  | child hsome _ ih =>
    intro b hb
    rcases List.mem_cons.mp hb with rfl | hb
    · exact hstep _ _ hsome
    · exact ih b hb

theorem map {next' : β → Option β} (f : α → β) (h : Ancestry next a above)
    (hf : ∀ b ∈ a :: above, next' (f b) = (next b).map f) :
    Ancestry next' (f a) (above.map f) := by
  induction h with
  | @root a hnone =>
    refine .root ?_
    rw [hf a (by simp), hnone, Option.map_none]
  | @child a b above hsome _ ih =>
    refine .child (b := f b) ?_ (ih fun c hc => hf c (List.mem_cons_of_mem _ hc))
    rw [hf a (by simp), hsome, Option.map_some]

theorem congr {next' : α → Option α} (h : Ancestry next a above)
    (hnext : ∀ b ∈ a :: above, next' b = next b) : Ancestry next' a above := by
  have hmap : Ancestry next' (id a) (above.map id) := h.map id fun b hb => by simp [hnext b hb]
  rwa [List.map_id] at hmap

theorem exists_root (h : Ancestry next a above) : ∃ r ∈ a :: above, next r = none := by
  induction h with
  | root hnone => exact ⟨_, List.mem_cons_self, hnone⟩
  | child _ _ ih =>
    obtain ⟨r, hr, hnone⟩ := ih
    exact ⟨r, List.mem_cons_of_mem _ hr, hnone⟩

end Ancestry

end Soot.Computation
