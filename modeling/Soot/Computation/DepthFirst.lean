import Mathlib.Data.List.Nodup
import Mathlib.Logic.Relation

/-!
# Depth-first walks

What a depth-first walk does that marks a node before its successors and finishes it after them,
over any relation. Some nodes were finished before the walk began, and only the nodes with a
label are logged when they are finished. A node is finished after its successors, except after
those that lead back to it.
-/

set_option autoImplicit false

namespace Soot.Computation

variable {α : Type} (edge : α → α → Prop) (labelled finished : α → Prop)

/-- A part of a walk: the nodes visited before and after it, the open nodes, and those it logs. -/
structure Walk (stack visited log visited' : List α) : Prop where
  subset : ∀ a ∈ visited, a ∈ visited'
  nodup : log.Nodup
  fresh : ∀ a ∈ log, a ∈ visited' ∧ a ∉ visited ∧ ¬ finished a ∧ labelled a
  complete : ∀ a ∈ visited', a ∉ visited → ¬ finished a →
    (labelled a → a ∈ log) ∧ ∀ b, edge a b → b ∈ visited' ∨ finished b
  ordered : ∀ l a l', log = l ++ a :: l' → ∀ b, edge a b → labelled b →
    ¬ Relation.ReflTransGen edge b a → finished b ∨ b ∈ l ∨ b ∈ visited ∧ b ∉ stack

theorem eq_append_cons_of_append {log log' l l' : List α} {b : α} (h : log ++ log' = l ++ b :: l') :
    (∃ m, log = l ++ b :: m) ∨ ∃ m, l = log ++ m ∧ log' = m ++ b :: l' := by
  rcases List.append_eq_append_iff.mp h with ⟨m, hl, hlog'⟩ | ⟨m, hlog, hrest⟩
  · exact .inr ⟨m, hl, hlog'⟩
  · cases m with
    | nil => exact .inr ⟨[], by simpa using hlog.symm, hrest.symm⟩
    | cons first m =>
      simp only [List.cons_append, List.cons.injEq] at hrest
      obtain ⟨rfl, -⟩ := hrest
      exact .inl ⟨m, hlog⟩

namespace Walk

variable {edge : α → α → Prop} {labelled finished : α → Prop}
  {stack visited visited₁ visited₂ log log' : List α} {a : α}

theorem refl : Walk edge labelled finished stack visited [] visited where
  subset := fun _ h => h
  nodup := List.nodup_nil
  fresh := by simp
  complete := fun _ h hnot => absurd h hnot
  ordered := by simp

theorem mark (ha : finished a) : Walk edge labelled finished stack visited [] (a :: visited) where
  subset := fun _ h => List.mem_cons_of_mem a h
  nodup := List.nodup_nil
  fresh := by simp
  complete := by
    intro b hb hnot hunfinished
    rcases List.mem_cons.mp hb with rfl | hb
    · exact absurd ha hunfinished
    · exact absurd hb hnot
  ordered := by simp

theorem trans (h : Walk edge labelled finished stack visited log visited₁)
    (h' : Walk edge labelled finished stack visited₁ log' visited₂) :
    Walk edge labelled finished stack visited (log ++ log') visited₂ where
  subset := fun b hb => h'.subset b (h.subset b hb)
  nodup := by
    refine List.nodup_append.mpr ⟨h.nodup, h'.nodup, ?_⟩
    rintro b hb _ hb' rfl
    exact (h'.fresh b hb').2.1 (h.fresh b hb).1
  fresh := by
    intro b hb
    rcases List.mem_append.mp hb with hb | hb
    · obtain ⟨hmem, hnot, hrest⟩ := h.fresh b hb
      exact ⟨h'.subset b hmem, hnot, hrest⟩
    · obtain ⟨hmem, hnot, hrest⟩ := h'.fresh b hb
      exact ⟨hmem, fun hold => hnot (h.subset b hold), hrest⟩
  complete := by
    intro b hb hnot hunfinished
    by_cases hmid : b ∈ visited₁
    · obtain ⟨hlog, hnext⟩ := h.complete b hmid hnot hunfinished
      refine ⟨fun hl => List.mem_append_left _ (hlog hl), fun c hc => ?_⟩
      exact (hnext c hc).imp_left (h'.subset c)
    · obtain ⟨hlog, hnext⟩ := h'.complete b hb hmid hunfinished
      exact ⟨fun hl => List.mem_append_right _ (hlog hl), hnext⟩
  ordered := by
    intro l b l' heq c hedge hlabel hback
    rcases eq_append_cons_of_append heq with ⟨m, hlog⟩ | ⟨m, rfl, hlog'⟩
    · exact h.ordered l b m hlog c hedge hlabel hback
    · rcases h'.ordered m b l' hlog' c hedge hlabel hback with hdone | hmem | ⟨hmem, hopen⟩
      · exact .inl hdone
      · exact .inr (.inl (List.mem_append_right _ hmem))
      · by_cases hold : c ∈ visited
        · exact .inr (.inr ⟨hold, hopen⟩)
        · by_cases hdone : finished c
          · exact .inl hdone
          · exact .inr (.inl (List.mem_append_left _ ((h.complete c hmem hold hdone).1 hlabel)))

theorem node [DecidablePred labelled] (hnew : a ∉ visited) (hunfinished : ¬ finished a)
    (hopen : ∀ s ∈ stack, Relation.ReflTransGen edge s a)
    (h : Walk edge labelled finished (a :: stack) (a :: visited) log visited₁)
    (hnext : ∀ b, edge a b → b ∈ visited₁ ∨ finished b) :
    Walk edge labelled finished stack visited (log ++ if labelled a then [a] else [])
      visited₁ where
  subset := fun b hb => h.subset b (List.mem_cons_of_mem a hb)
  nodup := by
    refine List.nodup_append.mpr ⟨h.nodup, by split <;> simp, ?_⟩
    rintro b hb c hc rfl
    split at hc
    · obtain rfl : b = a := by simpa using hc
      exact (h.fresh b hb).2.1 List.mem_cons_self
    · cases hc
  fresh := by
    intro b hb
    rcases List.mem_append.mp hb with hb | hb
    · obtain ⟨hmem, hnot, hrest⟩ := h.fresh b hb
      exact ⟨hmem, fun hold => hnot (List.mem_cons_of_mem a hold), hrest⟩
    · split at hb
      · rename_i hlabel
        obtain rfl : b = a := by simpa using hb
        exact ⟨h.subset b List.mem_cons_self, hnew, hunfinished, hlabel⟩
      · cases hb
  complete := by
    intro b hb hnot hdone
    by_cases hba : b = a
    · subst hba
      exact ⟨fun hlabel => by simp [hlabel], hnext⟩
    · have hnot' : b ∉ a :: visited := by simp [hba, hnot]
      obtain ⟨hlog, hnext'⟩ := h.complete b hb hnot' hdone
      exact ⟨fun hlabel => List.mem_append_left _ (hlog hlabel), hnext'⟩
  ordered := by
    intro l b l' heq c hedge hlabel hback
    rcases eq_append_cons_of_append heq with ⟨m, hlog⟩ | ⟨m, rfl, hlast⟩
    · rcases h.ordered l b m hlog c hedge hlabel hback with hdone | hmem | ⟨hmem, hnot⟩
      · exact .inl hdone
      · exact .inr (.inl hmem)
      · rcases List.mem_cons.mp hmem with rfl | hmem
        · exact absurd List.mem_cons_self hnot
        · exact .inr (.inr ⟨hmem, fun hs => hnot (List.mem_cons_of_mem a hs)⟩)
    · -- the node itself: its successors are finished or lead back to it
      have hba : b = a := by
        have hmem : b ∈ if labelled a then [a] else [] := by rw [hlast]; simp
        split at hmem
        · simpa using hmem
        · cases hmem
      subst hba
      rcases hnext c hedge with hmem | hdone
      · by_cases hdone : finished c
        · exact .inl hdone
        by_cases hold : c ∈ b :: visited
        · rcases List.mem_cons.mp hold with rfl | hold
          · exact absurd .refl hback
          · exact .inr (.inr ⟨hold, fun hs => hback (hopen c hs)⟩)
        · have hlog := (h.complete c hmem hold hdone).1 hlabel
          exact .inr (.inl (List.mem_append_left _ hlog))
      · exact .inl hdone

end Walk

end Soot.Computation
