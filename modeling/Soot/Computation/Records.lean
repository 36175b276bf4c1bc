import Mathlib.Algebra.GroupWithZero.Nat
import Mathlib.Algebra.BigOperators.Group.List.Basic
import Mathlib.Data.List.Flatten

/-!
# Records one after the other

Records of several kinds, each kind of one size, laid out one after the other. A span names a
number of records of one kind from an offset on.
-/

set_option autoImplicit false

namespace Soot.Computation

variable {α β κ : Type} (kind : α → κ) (size : κ → ℕ)

def totalSize (rs : List α) : ℕ := (rs.map fun r => size (kind r)).sum

def recordAt : List α → ℕ → Option α
  | [], _ => none
  | r :: rs, offset =>
    if offset = 0 then some r
    else if offset < size (kind r) then none
    else recordAt rs (offset - size (kind r))

def recordPlaces : ℕ → List α → List (ℕ × κ)
  | _, [] => []
  | start, r :: rs => (start, kind r) :: recordPlaces (start + size (kind r)) rs

structure Span (κ : Type) where
  offset : ℕ
  count : ℕ
  kind : κ

def Span.slots (s : Span κ) : List (ℕ × κ) :=
  (List.range s.count).map fun j => (s.offset + j * size s.kind, s.kind)

/-- So many records of a table from an offset on, each read by a function. -/
def readTable (at_ : ℕ → Option α) (read : α → Option β) (width : ℕ) : ℕ → ℕ → Option (List β)
  | _, 0 => some []
  | offset, n + 1 => do
    let b ← (at_ offset).bind read
    return b :: (← readTable at_ read width (offset + width) n)

section Spans

variable {kind size}

@[simp] theorem totalSize_nil : totalSize kind size [] = 0 := rfl

@[simp] theorem totalSize_append (rs ss : List α) :
    totalSize kind size (rs ++ ss) = totalSize kind size rs + totalSize kind size ss := by
  simp [totalSize]

theorem totalSize_of_kind {k : κ} {rs : List α} (h : ∀ r ∈ rs, kind r = k) :
    totalSize kind size rs = rs.length * size k := by
  induction rs with
  | nil => simp
  | cons r rs ih =>
    obtain ⟨hr, hrs⟩ := List.forall_mem_cons.mp h
    have htail := ih hrs
    simp only [totalSize, List.map_cons, List.sum_cons, List.length_cons, hr] at htail ⊢
    rw [htail, Nat.succ_mul, Nat.add_comm]

@[simp] theorem slots_zero (o : ℕ) (k : κ) : Span.slots size ⟨o, 0, k⟩ = [] := rfl

theorem slots_add (o m n : ℕ) (k : κ) :
    Span.slots size ⟨o, m + n, k⟩ =
      Span.slots size ⟨o, m, k⟩ ++ Span.slots size ⟨o + m * size k, n, k⟩ := by
  simp only [Span.slots, List.range_add, List.map_append, List.map_map]
  congr 1
  refine List.map_congr_left fun j _ => ?_
  simp only [Function.comp, Nat.add_mul, Nat.add_assoc]

theorem slots_one (o : ℕ) (k : κ) : Span.slots size ⟨o, 1, k⟩ = [(o, k)] := by
  simp [Span.slots]

@[simp] theorem length_slots (s : Span κ) : (s.slots size).length = s.count := by
  simp [Span.slots]

theorem countP_slots [DecidableEq κ] (s : Span κ) (k : κ) :
    (s.slots size).countP (·.2 = k) = if s.kind = k then s.count else 0 := by
  split
  · next h =>
    rw [List.countP_eq_length.mpr, length_slots]
    intro p hp
    obtain ⟨j, -, rfl⟩ := List.mem_map.mp hp
    simpa using h
  · next h =>
    refine List.countP_eq_zero.mpr fun p hp => ?_
    obtain ⟨j, -, rfl⟩ := List.mem_map.mp hp
    simpa using h

theorem places_append (start : ℕ) (rs ss : List α) :
    recordPlaces kind size start (rs ++ ss) =
      recordPlaces kind size start rs ++ recordPlaces kind size
        (start + totalSize kind size rs) ss := by
  induction rs generalizing start with
  | nil => rfl
  | cons r rs ih =>
    simp only [List.cons_append, recordPlaces, ih, totalSize, List.map_cons, List.sum_cons,
      Nat.add_assoc]

theorem places_of_kind {k : κ} {rs : List α} (h : ∀ r ∈ rs, kind r = k) (start : ℕ) :
    recordPlaces kind size start rs = Span.slots size ⟨start, rs.length, k⟩ := by
  induction rs generalizing start with
  | nil => rfl
  | cons r rs ih =>
    obtain ⟨hr, hrs⟩ := List.forall_mem_cons.mp h
    have hcons : Span.slots size _ = _ := slots_add start 1 rs.length k
    rw [slots_one, Nat.one_mul, Nat.add_comm] at hcons
    rw [List.length_cons, hcons, recordPlaces, hr, ih hrs]
    rfl

theorem countP_places [DecidableEq κ] (start : ℕ) (rs : List α) (k : κ) :
    (recordPlaces kind size start rs).countP (·.2 = k) = rs.countP (kind · = k) := by
  induction rs generalizing start with
  | nil => rfl
  | cons r rs ih => simp [recordPlaces, List.countP_cons, ih]

theorem recordAt_append (hpos : ∀ k : κ, 0 < size k) (before after : List α) (offset : ℕ) :
    recordAt kind size (before ++ after) (totalSize kind size before + offset) =
      recordAt kind size after offset := by
  induction before with
  | nil =>
    rw [totalSize_nil, Nat.zero_add]
    rfl
  | cons r rs ih =>
    have hsize := hpos (kind r)
    have htotal : totalSize kind size (r :: rs) = size (kind r) + totalSize kind size rs := by
      simp [totalSize]
    rw [List.cons_append, recordAt, if_neg (by omega), if_neg (by omega), htotal]
    rw [← ih]
    congr 1
    omega

end Spans

/-! ## Parts of a layout -/

def Region (rs : List α) (offset : ℕ) (k : κ) (part : List α) : Prop :=
  (∀ r ∈ part, kind r = k) ∧
    ∃ before after, rs = before ++ part ++ after ∧ totalSize kind size before = offset

namespace Region

variable {kind size} {rs part rest : List α} {offset : ℕ} {k : κ}

theorem left (h : Region kind size rs offset k (part ++ rest)) :
    Region kind size rs offset k part := by
  obtain ⟨hkind, before, after, hrs, hoffset⟩ := h
  refine ⟨fun r hr => hkind r (List.mem_append_left _ hr), before, rest ++ after, ?_, hoffset⟩
  rw [hrs]
  simp only [List.append_assoc]

theorem right (h : Region kind size rs offset k (part ++ rest)) :
    Region kind size rs (offset + part.length * size k) k rest := by
  obtain ⟨hkind, before, after, hrs, hoffset⟩ := h
  refine ⟨fun r hr => hkind r (List.mem_append_right _ hr), before ++ part, after, ?_, ?_⟩
  · rw [hrs]
    simp only [List.append_assoc]
  · rw [totalSize_append, hoffset,
      totalSize_of_kind fun r hr => hkind r (List.mem_append_left _ hr)]

theorem tail {r : α} (h : Region kind size rs offset k (r :: part)) :
    Region kind size rs (offset + size k) k part := by
  have hright : Region kind size rs (offset + [r].length * size k) k part := right h
  rwa [List.length_singleton, Nat.one_mul] at hright

theorem recordAt_eq (hpos : ∀ k : κ, 0 < size k) (h : Region kind size rs offset k part) {j : ℕ}
    {r : α} (hr : part[j]? = some r) :
    recordAt kind size rs (offset + j * size k) = some r := by
  obtain ⟨hkind, before, after, rfl, rfl⟩ := h
  obtain ⟨hj, rfl⟩ := List.getElem?_eq_some_iff.mp hr
  have hsplit : part.take j ++ part[j] :: part.drop (j + 1) = part := by
    rw [List.getElem_cons_drop, List.take_append_drop]
  have hbefore : totalSize kind size (part.take j) = j * size k := by
    rw [totalSize_of_kind fun r hr => hkind r (List.mem_of_mem_take hr), List.length_take,
      Nat.min_eq_left (Nat.le_of_lt hj)]
  have hall : before ++ part ++ after =
      (before ++ part.take j) ++ (part[j] :: (part.drop (j + 1) ++ after)) := by
    calc before ++ part ++ after
        = before ++ (part.take j ++ part[j] :: part.drop (j + 1)) ++ after := by rw [hsplit]
      _ = _ := by simp only [List.append_assoc, List.cons_append]
  have hat : recordAt kind size _ (_ + 0) = _ := recordAt_append hpos (before ++ part.take j)
    (part[j] :: (part.drop (j + 1) ++ after)) 0
  rw [totalSize_append, hbefore, Nat.add_zero, ← hall] at hat
  exact hat

theorem readTable_eq (hpos : ∀ k : κ, 0 < size k) {read : α → Option β} {bs : List β}
    (hread : List.Forall₂ (fun r b => read r = some b) part bs)
    (h : Region kind size rs offset k part) :
    readTable (recordAt kind size rs) read (size k) offset part.length = some bs := by
  induction hread generalizing offset with
  | nil => rfl
  | @cons r b part bs hr _ ih =>
    have hfirst : recordAt kind size rs offset = some r := by
      have := h.recordAt_eq hpos (j := 0) rfl
      rwa [Nat.zero_mul, Nat.add_zero] at this
    rw [List.length_cons, readTable, hfirst, Option.bind_some, hr, ih h.tail]
    rfl

end Region

end Soot.Computation
