import Mathlib.Data.List.Nodup
import Mathlib.Logic.Relation

/-!
# Linked lists and what descends from them

A list is threaded through links from a start. A node may itself have a list: of such lists, in
which no node stands twice, the nodes below one are those that a walk from it meets, and nodes that
are in no list have nothing below them in common.
-/

set_option autoImplicit false

namespace Soot.Computation

variable {α : Type*} {next next' : α → Option α}

/-- The nodes from a start on, each linked to the one behind it. -/
def Threads (next : α → Option α) : Option α → List α → Prop
  | start, [] => start = none
  | start, a :: l => start = some a ∧ Threads next (next a) l

theorem threads_none {l : List α} (h : Threads next none l) : l = [] := by
  cases l with
  | nil => rfl
  | cons a l => exact absurd h.1.symm (Option.some_ne_none a)

theorem threads_some {a : α} {l : List α} (h : Threads next (some a) l) :
    ∃ rest, l = a :: rest ∧ Threads next (next a) rest := by
  cases l with
  | nil => exact absurd h (Option.some_ne_none a)
  | cons b rest =>
    obtain rfl := Option.some.inj h.1
    exact ⟨rest, rfl, h.2⟩

theorem threads_congr {start : Option α} {l : List α} (h : ∀ a ∈ l, next' a = next a)
    (hl : Threads next start l) : Threads next' start l := by
  induction l generalizing start with
  | nil => exact hl
  | cons a l ih =>
    refine ⟨hl.1, ?_⟩
    rw [h a List.mem_cons_self]
    exact ih (fun b hb => h b (List.mem_cons_of_mem a hb)) hl.2

theorem threads_append {start : Option α} {first rest : List α} {a : α}
    (h : Threads next start (first ++ a :: rest)) : Threads next (next a) rest := by
  induction first generalizing start with
  | nil => exact h.2
  | cons b first ih => exact ih h.2

theorem threads_replace {start : Option α} {first rest rest' : List α} {a : α}
    (h : Threads next start (first ++ a :: rest)) (hfirst : ∀ b ∈ first, next' b = next b)
    (hrest : Threads next' (next' a) rest') : Threads next' start (first ++ a :: rest') := by
  induction first generalizing start with
  | nil => exact ⟨h.1, hrest⟩
  | cons b first ih =>
    refine ⟨h.1, ?_⟩
    rw [hfirst b List.mem_cons_self]
    exact ih h.2 fun c hc => hfirst c (List.mem_cons_of_mem b hc)

theorem threads_common {start : Option α} {first rest l : List α} {a : α}
    (h : Threads next start (first ++ a :: rest)) (hfirst : ∀ b ∈ first, next' b = next b)
    (hl : Threads next' start l) : ∃ rest', l = first ++ a :: rest' := by
  induction first generalizing start l with
  | nil =>
    obtain ⟨rfl, -⟩ := h
    obtain ⟨rest', rfl, -⟩ := threads_some hl
    exact ⟨rest', rfl⟩
  | cons b first ih =>
    obtain ⟨rfl, h⟩ := h
    obtain ⟨l, rfl, hrest⟩ := threads_some hl
    rw [hfirst b List.mem_cons_self] at hrest
    obtain ⟨rest', rfl⟩ := ih h (fun c hc => hfirst c (List.mem_cons_of_mem b hc)) hrest
    exact ⟨rest', rfl⟩

theorem next_eq_of_threads {start : Option α} {first rest : List α} {a b : α}
    (h : Threads next start (first ++ a :: b :: rest)) : next a = some b :=
  (threads_append h).1

/-! ## Links to both sides -/

section DoublyLinked

variable {prev prev' : α → Option α}

/-- The nodes of a list are linked to one another in both directions. -/
def DoublyLinked (next prev : α → Option α) : List α → Prop
  | [] => True
  | [_] => True
  | a :: b :: l => (next a = some b ∧ prev b = some a) ∧ DoublyLinked next prev (b :: l)

theorem DoublyLinked.tail {a : α} {l : List α} (h : DoublyLinked next prev (a :: l)) :
    DoublyLinked next prev l := by
  cases l with
  | nil => exact trivial
  | cons b l => exact h.2

theorem DoublyLinked.congr {a : α} {l : List α} (h : DoublyLinked next prev (a :: l))
    (hnext : ∀ b ∈ a :: l, next' b = next b) (hprev : ∀ b ∈ l, prev' b = prev b) :
    DoublyLinked next' prev' (a :: l) := by
  induction l generalizing a with
  | nil => exact trivial
  | cons b l ih =>
    refine ⟨⟨?_, ?_⟩, ih h.2 (fun c hc => hnext c (List.mem_cons_of_mem a hc))
      fun c hc => hprev c (List.mem_cons_of_mem b hc)⟩
    · rw [hnext a List.mem_cons_self]
      exact h.1.1
    · rw [hprev b List.mem_cons_self]
      exact h.1.2

theorem DoublyLinked.append {first rest : List α} {a : α}
    (h : DoublyLinked next prev (first ++ a :: rest)) :
    DoublyLinked next prev (first ++ [a]) ∧ DoublyLinked next prev (a :: rest) := by
  induction first with
  | nil => exact ⟨trivial, h⟩
  | cons b first ih =>
    obtain ⟨hfirst, hrest⟩ := ih h.tail
    refine ⟨?_, hrest⟩
    cases first with
    | nil => exact ⟨h.1, trivial⟩
    | cons c first => exact ⟨h.1, hfirst⟩

end DoublyLinked

/-! ## Lists of lists -/

section Beneath

variable {lists lists' : α → List α}

/-- A node is below another, through the lists of the nodes between. -/
def Beneath (lists : α → List α) : α → α → Prop := Relation.TransGen fun p c => c ∈ lists p

def Within (lists : α → List α) : α → α → Prop := Relation.ReflTransGen fun p c => c ∈ lists p

def InOneList (lists : α → List α) : Prop := ∀ p q c, c ∈ lists p → c ∈ lists q → p = q

def Loose (lists : α → List α) (c : α) : Prop := ∀ p, c ∉ lists p

theorem beneath_iff {f g : α} : Beneath lists f g ↔ ∃ c ∈ lists f, Within lists c g :=
  ⟨fun h => (Relation.TransGen.head'_iff.mp h).imp fun _ h => h,
    fun ⟨_, hc, h⟩ => Relation.TransGen.head' hc h⟩

theorem within_iff {f g : α} : Within lists f g ↔ g = f ∨ Beneath lists f g := by
  rw [Within, Relation.reflTransGen_iff_eq_or_transGen]
  rfl

theorem not_beneath_of_loose {f c : α} (h : Loose lists c) : ¬ Beneath lists f c := by
  intro hbelow
  obtain ⟨p, -, hp⟩ := Relation.TransGen.tail'_iff.mp hbelow
  exact h p hp

theorem eq_of_within (howned : InOneList lists) {c d g : α} (hc : Loose lists c)
    (hd : Loose lists d) (h : Within lists c g) (h' : Within lists d g) : c = d := by
  induction h with
  | refl =>
    rcases within_iff.mp h' with rfl | h'
    · rfl
    · exact absurd h' (not_beneath_of_loose hc)
  | tail _ hstep ih =>
    rcases h'.cases_tail with rfl | ⟨p, hp, hstep'⟩
    · exact absurd hstep (hd _)
    · obtain rfl := howned _ _ _ hstep hstep'
      exact ih hp

theorem within_congr {f g : α} (h : ∀ p, Within lists f p → lists' p = lists p)
    (hsub : ∀ p c, c ∈ lists' p → c ∈ lists p) : Within lists' f g ↔ Within lists f g := by
  constructor
  · intro hwithin
    exact Relation.ReflTransGen.mono hsub f g hwithin
  · intro hwithin
    induction hwithin with
    | refl => exact .refl
    | tail hbefore hstep ih =>
      refine ih.tail ?_
      rw [h _ hbefore]
      exact hstep

end Beneath

end Soot.Computation
