import Mathlib.Data.Finset.Card

/-!
# Depth-first marking

A traversal of a graph that enters each node it has not seen, records it in the state and goes
on to its successors. The nodes it enters are those that can be reached along nodes that were
not seen when it began, each once; so a traversal is a fold over them. It returns when it may
nest deeper than there are such nodes.
-/

set_option autoImplicit false

namespace Soot.Computation

/-- What a traversal does at a node of its graph, over the states it records nodes in. -/
structure Traversal (σ ν : Type) where
  skips : σ → ν → Bool
  enter : σ → ν → σ
  next : σ → ν → List ν

namespace Traversal

variable {σ ν : Type} (t : Traversal σ ν)

def run : ℕ → σ → ν → Option σ
  | 0, _, _ => none
  | depth + 1, s, node =>
    if t.skips s node then some s
    else
      let s := t.enter s node
      (t.next s node).foldlM (fun s successor => run depth s successor) s

def runAll (depth : ℕ) (s : σ) (nodes : List ν) : Option σ :=
  nodes.foldlM (fun s node => t.run depth s node) s

inductive Fresh (s : σ) (node : ν) : ν → Prop where
  | here : t.skips s node = false → Fresh s node node
  | step {middle last : ν} : Fresh s node middle → last ∈ t.next s middle →
      t.skips s last = false → Fresh s node last

/-- A node is reached from the nodes of a list along nodes that are not seen. -/
def FreshFrom (s : σ) (nodes : List ν) (last : ν) : Prop := ∃ node ∈ nodes, t.Fresh s node last

structure Lawful (inv : σ → Prop) : Prop where
  keeps {s : σ} {node : ν} : inv s → t.skips s node = false → inv (t.enter s node)
  skips_enter {s : σ} {node : ν} (other : ν) : inv s → t.skips s node = false →
    (t.skips (t.enter s node) other = true ↔ t.skips s other = true ∨ other = node)
  next_enter {s : σ} {node : ν} (other : ν) : inv s → t.skips s node = false →
    t.next (t.enter s node) other = t.next s other

/-- The traversal came to a state by entering these nodes, each once. -/
structure Entered (s s' : σ) (nodes : List ν) : Prop where
  fold : s' = nodes.foldl t.enter s
  nodup : nodes.Nodup
  unseen : ∀ node ∈ nodes, t.skips s node = false

variable {t} {inv : σ → Prop} {s s' : σ} {node last : ν} {nodes : List ν}

theorem Fresh.unseen (h : t.Fresh s node last) : t.skips s last = false := by
  cases h with
  | here h => exact h
  | step _ _ h => exact h

theorem Fresh.head_unseen (h : t.Fresh s node last) : t.skips s node = false := by
  induction h with
  | here h => exact h
  | step _ _ _ ih => exact ih

theorem Fresh.trans {middle : ν} (h : t.Fresh s node middle) (h' : t.Fresh s middle last) :
    t.Fresh s node last := by
  induction h' with
  | here _ => exact h
  | step _ hmem hunseen ih => exact .step ih hmem hunseen

theorem Fresh.mono (hnext : ∀ other, t.next s' other = t.next s other)
    (hskips : ∀ other, t.skips s other = true → t.skips s' other = true)
    (h : t.Fresh s' node last) : t.Fresh s node last := by
  have hback : ∀ other, t.skips s' other = false → t.skips s other = false := by
    intro other hother
    cases hs : t.skips s other with
    | false => rfl
    | true => rw [hskips other hs] at hother; cases hother
  induction h with
  | here h => exact .here (hback _ h)
  | step _ hmem hunseen ih => exact .step ih (by rw [← hnext]; exact hmem) (hback _ hunseen)

theorem unseen_enter (law : t.Lawful inv) (hinv : inv s) (hnode : t.skips s node = false)
    (other : ν) : t.skips (t.enter s node) other = false ↔
      t.skips s other = false ∧ other ≠ node := by
  have h := law.skips_enter other hinv hnode
  rw [← Bool.not_eq_true, h]
  simp

theorem fresh_enter (law : t.Lawful inv) (hinv : inv s) (hnode : t.skips s node = false) :
    t.Fresh s node last ↔
      last = node ∨ t.FreshFrom (t.enter s node) (t.next (t.enter s node) node) last := by
  constructor
  · intro h
    induction h with
    | here _ => exact .inl rfl
    | @step middle last _ hmem hunseen ih =>
      by_cases heq : last = node
      · exact .inl heq
      have hlast := (unseen_enter law hinv hnode last).2 ⟨hunseen, heq⟩
      rcases ih with hmiddle | ⟨first, hfirst, hfresh⟩
      · refine .inr ⟨last, ?_, .here hlast⟩
        rw [law.next_enter node hinv hnode, ← hmiddle]
        exact hmem
      · refine .inr ⟨first, hfirst, .step hfresh ?_ hlast⟩
        rw [law.next_enter middle hinv hnode]
        exact hmem
  · rintro (rfl | ⟨first, hfirst, hfresh⟩)
    · exact .here hnode
    · have hback := hfresh.mono (s := s) (fun other => law.next_enter other hinv hnode)
        (fun other hother => (law.skips_enter other hinv hnode).2 (.inl hother))
      refine Fresh.trans (.step (.here hnode) ?_ hback.head_unseen) hback
      rw [law.next_enter node hinv hnode] at hfirst
      exact hfirst

theorem Entered.refl : t.Entered s s [] := ⟨rfl, List.nodup_nil, by simp⟩

theorem Entered.after (law : t.Lawful inv) (hinv : inv s) (h : t.Entered s s' nodes) :
    inv s' ∧ (∀ other, t.skips s' other = true ↔ t.skips s other = true ∨ other ∈ nodes) ∧
      ∀ other, t.next s' other = t.next s other := by
  obtain ⟨rfl, hnodup, hunseen⟩ := h
  induction nodes generalizing s with
  | nil => simp [hinv]
  | cons node rest ih =>
    have hnode := hunseen node List.mem_cons_self
    obtain ⟨hnot, hrest⟩ := List.nodup_cons.1 hnodup
    have hunseen' : ∀ other ∈ rest, t.skips (t.enter s node) other = false := by
      intro other hother
      refine (unseen_enter law hinv hnode other).2
        ⟨hunseen other (List.mem_cons_of_mem _ hother), ?_⟩
      rintro rfl
      exact hnot hother
    obtain ⟨hkept, hskips, hnext⟩ := ih (law.keeps hinv hnode) hrest hunseen'
    refine ⟨hkept, ?_, ?_⟩
    · intro other
      rw [List.foldl_cons, hskips other, law.skips_enter other hinv hnode, List.mem_cons]
      tauto
    · intro other
      rw [List.foldl_cons, hnext other, law.next_enter other hinv hnode]

theorem Entered.append {s'' : σ} {nodes' : List ν} (law : t.Lawful inv) (hinv : inv s)
    (h : t.Entered s s' nodes) (h' : t.Entered s' s'' nodes') :
    t.Entered s s'' (nodes ++ nodes') := by
  obtain ⟨_, hskips, _⟩ := h.after law hinv
  have hback : ∀ other ∈ nodes', t.skips s other = false ∧ other ∉ nodes := by
    intro other hother
    have hunseen := h'.unseen other hother
    rw [← Bool.not_eq_true, hskips other, not_or] at hunseen
    simpa using hunseen
  refine ⟨?_, ?_, ?_⟩
  · rw [List.foldl_append, ← h.fold, h'.fold]
  · refine List.nodup_append.2 ⟨h.nodup, h'.nodup, ?_⟩
    rintro a ha b hb rfl
    exact (hback a hb).2 ha
  · intro other hother
    rcases List.mem_append.1 hother with hmem | hmem
    · exact h.unseen other hmem
    · exact (hback other hmem).1

theorem fresh_after (node last : ν) (law : t.Lawful inv) (hinv : inv s) {first : ν}
    (h : t.Entered s s' nodes)
    (hnodes : ∀ other, other ∈ nodes ↔ t.Fresh s first other) :
    (t.Fresh s first last ∨ t.Fresh s node last) ↔
      (t.Fresh s first last ∨ t.Fresh s' node last) := by
  obtain ⟨_, hskips, hnext⟩ := h.after law hinv
  constructor
  · rintro (hfirst | hnode)
    · exact .inl hfirst
    have hunseen : ∀ other, t.skips s other = false → ¬ t.Fresh s first other →
        t.skips s' other = false := by
      intro other hother hnot
      rw [← Bool.not_eq_true, hskips other, hnodes other]
      simp [hother, hnot]
    induction hnode with
    | here hhere =>
      by_cases hfirst : t.Fresh s first node
      · exact .inl hfirst
      · exact .inr (.here (hunseen node hhere hfirst))
    | @step middle last _ hmem hlast ih =>
      by_cases hfirst : t.Fresh s first last
      · exact .inl hfirst
      rcases ih with hmiddle | hmiddle
      · exact .inl (.step hmiddle hmem hlast)
      · refine .inr (.step hmiddle ?_ (hunseen last hlast hfirst))
        rw [hnext middle]
        exact hmem
  · rintro (hfirst | hnode)
    · exact .inl hfirst
    · exact .inr (hnode.mono hnext fun other hother => (hskips other).2 (.inl hother))

theorem runAll_cons (depth : ℕ) (s : σ) (node : ν) (nodes : List ν) :
    t.runAll depth s (node :: nodes) =
      (t.run depth s node).bind fun s => t.runAll depth s nodes := rfl

theorem run_succ (depth : ℕ) (s : σ) (node : ν) :
    t.run (depth + 1) s node =
      if t.skips s node then some s
      else t.runAll depth (t.enter s node) (t.next (t.enter s node) node) := rfl

theorem not_fresh_of_skips (h : t.skips s node = true) : ¬ t.Fresh s node last := by
  intro hfresh
  rw [hfresh.head_unseen] at h
  cases h

theorem runAll_spec {depth : ℕ} (law : t.Lawful inv)
    (hrun : ∀ (s s' : σ) (node : ν), inv s → t.run depth s node = some s' →
      ∃ entered, t.Entered s s' entered ∧ ∀ other, other ∈ entered ↔ t.Fresh s node other)
    (hinv : inv s) (h : t.runAll depth s nodes = some s') :
    ∃ entered, t.Entered s s' entered ∧ ∀ other, other ∈ entered ↔ t.FreshFrom s nodes other := by
  induction nodes generalizing s with
  | nil =>
    obtain rfl : s = s' := Option.some.inj h
    exact ⟨[], .refl, by simp [FreshFrom]⟩
  | cons node rest ih =>
    rw [runAll_cons, Option.bind_eq_some_iff] at h
    obtain ⟨middle, hfirst, hrest⟩ := h
    obtain ⟨entered, henter, hmem⟩ := hrun s middle node hinv hfirst
    obtain ⟨entered', henter', hmem'⟩ := ih (henter.after law hinv).1 hrest
    refine ⟨entered ++ entered', henter.append law hinv henter', ?_⟩
    intro other
    have hafter := fun n => fresh_after n other law hinv henter hmem
    rw [List.mem_append, hmem, hmem' other]
    simp only [FreshFrom, List.mem_cons]
    constructor
    · rintro (hnode | ⟨n, hn, hfresh⟩)
      · exact ⟨node, .inl rfl, hnode⟩
      · rcases (hafter n).2 (.inr hfresh) with hnode | hback
        · exact ⟨node, .inl rfl, hnode⟩
        · exact ⟨n, .inr hn, hback⟩
    · rintro ⟨n, rfl | hn, hfresh⟩
      · exact .inl hfresh
      · rcases (hafter n).1 (.inr hfresh) with hnode | hback
        · exact .inl hnode
        · exact .inr ⟨n, hn, hback⟩

theorem run_spec (law : t.Lawful inv) {depth : ℕ} (hinv : inv s)
    (h : t.run depth s node = some s') :
    ∃ entered, t.Entered s s' entered ∧ ∀ other, other ∈ entered ↔ t.Fresh s node other := by
  induction depth generalizing s s' node with
  | zero => cases h
  | succ depth ih =>
    rw [run_succ] at h
    cases hskips : t.skips s node with
    | true =>
      rw [hskips, if_pos rfl] at h
      obtain rfl : s = s' := Option.some.inj h
      exact ⟨[], .refl, by simp [not_fresh_of_skips hskips]⟩
    | false =>
      simp only [hskips, Bool.false_eq_true, if_false] at h
      obtain ⟨entered, henter, hmem⟩ :=
        runAll_spec law (fun _ _ _ hinv h => ih hinv h) (law.keeps hinv hskips) h
      have hunseen := fun other hother =>
        (unseen_enter law hinv hskips other).1 (henter.unseen other hother)
      refine ⟨node :: entered, ⟨by rw [List.foldl_cons]; exact henter.fold, ?_, ?_⟩, ?_⟩
      · exact List.nodup_cons.2 ⟨fun hnode => (hunseen node hnode).2 rfl, henter.nodup⟩
      · intro other hother
        rcases List.mem_cons.1 hother with rfl | hother
        · exact hskips
        · exact (hunseen other hother).1
      · intro other
        rw [List.mem_cons, hmem, fresh_enter law hinv hskips]

theorem runAll_entered (law : t.Lawful inv) {depth : ℕ} (hinv : inv s)
    (h : t.runAll depth s nodes = some s') :
    ∃ entered, t.Entered s s' entered ∧ ∀ other, other ∈ entered ↔ t.FreshFrom s nodes other :=
  runAll_spec law (fun _ _ _ hinv h => run_spec law hinv h) hinv h

theorem runAll_returns (depth : ℕ) (bound : Finset ν) (law : t.Lawful inv)
    (hrun : ∀ (s : σ) (node : ν), inv s → (∀ other, t.Fresh s node other → other ∈ bound) →
      ∃ s', t.run depth s node = some s')
    (hinv : inv s) (hbound : ∀ other, t.FreshFrom s nodes other → other ∈ bound) :
    ∃ s', t.runAll depth s nodes = some s' := by
  induction nodes generalizing s with
  | nil => exact ⟨s, rfl⟩
  | cons node rest ih =>
    obtain ⟨middle, hmiddle⟩ := hrun s node hinv fun other hother =>
      hbound other ⟨node, List.mem_cons_self, hother⟩
    obtain ⟨entered, henter, _⟩ := run_spec law hinv hmiddle
    obtain ⟨hkept, hskips, hnext⟩ := henter.after law hinv
    obtain ⟨s', hs'⟩ := ih hkept fun other ⟨n, hn, hfresh⟩ =>
      hbound other ⟨n, List.mem_cons_of_mem _ hn,
        hfresh.mono hnext fun o ho => (hskips o).2 (.inl ho)⟩
    exact ⟨s', by rw [runAll_cons, hmiddle]; exact hs'⟩

theorem run_returns [DecidableEq ν] (law : t.Lawful inv) {depth : ℕ} {bound : Finset ν}
    (hinv : inv s) (hbound : ∀ other, t.Fresh s node other → other ∈ bound)
    (hdepth : bound.card < depth) : ∃ s', t.run depth s node = some s' := by
  induction depth generalizing s node bound with
  | zero => cases hdepth
  | succ depth ih =>
    rw [run_succ]
    cases hskips : t.skips s node with
    | true => exact ⟨s, if_pos rfl⟩
    | false =>
      simp only [Bool.false_eq_true, if_false]
      have hnode : node ∈ bound := hbound node (.here hskips)
      have hcard : (bound.erase node).card < depth := by
        rw [Finset.card_erase_of_mem hnode]
        have := Finset.card_pos.2 ⟨node, hnode⟩
        omega
      refine runAll_returns depth (bound.erase node) law
        (fun s n hs hn => ih hs hn hcard) (law.keeps hinv hskips) ?_
      intro other hother
      refine Finset.mem_erase.2 ⟨?_, hbound other ((fresh_enter law hinv hskips).2 (.inr hother))⟩
      obtain ⟨n, _, hfresh⟩ := hother
      exact ((unseen_enter law hinv hskips other).1 hfresh.unseen).2

end Traversal

end Soot.Computation
