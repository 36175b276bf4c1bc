import Mathlib.Data.Finset.Max

/-!
# Depth-first search without a record of what was visited

A search from a node of a graph: the node answers itself, or its successors are searched in
order until one answers. A node whose edges are not there stops everything. A search of a
bounded depth may be cut off; deeper searches agree with shallower ones. When every walk from
a node ends, a search from it ends too, whatever is searched; a search for what no node answers
ends only then.
-/

set_option autoImplicit false

namespace Soot.Computation

variable {ν α : Type}

/-- Search from a node, to a depth: `none` when the search is cut off or comes to a node that
is not there, and else what was found. -/
def search (next : ν → Option (List ν)) (answer : ν → Option α) : ℕ → ν → Option (Option α)
  | 0, _ => none
  | depth + 1, node =>
    match next node with
    | none => none
    | some successors =>
      match answer node with
      | some found => some (some found)
      | none => successors.foldr (fun successor rest =>
          match search next answer depth successor with
          | some none => rest
          | result => result) (some none)

inductive Ends (next : ν → Option (List ν)) : ν → Prop where
  | intro {node : ν} (successors : List ν) : next node = some successors →
      (∀ successor ∈ successors, Ends next successor) → Ends next node

variable {next : ν → Option (List ν)} {answer : ν → Option α} {node : ν}

theorem search_succ {depth : ℕ} {result : Option α}
    (h : search next answer depth node = some result) :
    search next answer (depth + 1) node = some result := by
  induction depth generalizing node result with
  | zero => simp [search] at h
  | succ depth ih =>
    rw [search] at h ⊢
    cases hnext : next node with
    | none => simp [hnext] at h
    | some successors =>
      simp only [hnext] at h ⊢
      cases hanswer : answer node with
      | some found => simpa [hanswer] using h
      | none =>
        simp only [hanswer] at h ⊢
        clear hnext hanswer
        induction successors generalizing result with
        | nil => exact h
        | cons successor rest ihrest =>
          rw [List.foldr_cons] at h ⊢
          cases hfirst : search next answer depth successor with
          | none => simp [hfirst] at h
          | some found =>
            rw [ih hfirst]
            rw [hfirst] at h
            cases found with
            | none => exact ihrest h
            | some found => exact h

theorem search_mono {depth depth' : ℕ} {result : Option α} (hle : depth ≤ depth')
    (h : search next answer depth node = some result) :
    search next answer depth' node = some result := by
  induction hle with
  | refl => exact h
  | step _ ih => exact search_succ ih

theorem Ends.search (h : Ends next node) :
    ∃ depth result, search next answer depth node = some result := by
  induction h with
  | @intro node successors hnext _ ih =>
    have hall : ∃ depth, ∀ successor ∈ successors,
        ∃ result, Computation.search next answer depth successor = some result := by
      clear hnext
      induction successors with
      | nil => exact ⟨0, by simp⟩
      | cons successor rest ihrest =>
        obtain ⟨depth, result, hfirst⟩ := ih successor List.mem_cons_self
        obtain ⟨depth', hrest⟩ := ihrest (fun s hs => by
          rename_i h
          exact h s (List.mem_cons_of_mem _ hs)) fun s hs => ih s (List.mem_cons_of_mem _ hs)
        refine ⟨max depth depth', ?_⟩
        intro s hs
        rcases List.mem_cons.mp hs with rfl | hs
        · exact ⟨result, search_mono (Nat.le_max_left _ _) hfirst⟩
        · obtain ⟨result', hs'⟩ := hrest s hs
          exact ⟨result', search_mono (Nat.le_max_right _ _) hs'⟩
    obtain ⟨depth, hall⟩ := hall
    refine ⟨depth + 1, ?_⟩
    rw [Computation.search, hnext]
    dsimp only
    cases answer node with
    | some found => exact ⟨_, rfl⟩
    | none =>
      dsimp only
      clear ih hnext
      induction successors with
      | nil => exact ⟨_, rfl⟩
      | cons successor rest ihrest =>
        rw [List.foldr_cons]
        obtain ⟨result, hfirst⟩ := hall successor List.mem_cons_self
        rw [hfirst]
        cases result with
        | none =>
          apply ihrest
          · intro s hs
            rename_i h
            exact h s (List.mem_cons_of_mem _ hs)
          · exact fun s hs => hall s (List.mem_cons_of_mem _ hs)
        | some found => exact ⟨_, rfl⟩

theorem ends_of_search (hanswer : ∀ node, next node ≠ none → answer node = none) {depth : ℕ}
    {result : Option α} (h : search next answer depth node = some result) :
    Ends next node ∧ result = none := by
  induction depth generalizing node result with
  | zero => simp [search] at h
  | succ depth ih =>
    rw [search] at h
    cases hnext : next node with
    | none => simp [hnext] at h
    | some successors =>
      simp only [hnext, hanswer node (by simp [hnext])] at h
      suffices (∀ successor ∈ successors, Ends next successor) ∧ result = none from
        ⟨.intro successors hnext this.1, this.2⟩
      clear hnext
      induction successors with
      | nil =>
        cases h
        exact ⟨by simp, rfl⟩
      | cons successor rest ihrest =>
        rw [List.foldr_cons] at h
        cases hfirst : search next answer depth successor with
        | none => simp [hfirst] at h
        | some found =>
          obtain ⟨hends, rfl⟩ := ih hfirst
          rw [hfirst] at h
          obtain ⟨hrest, hresult⟩ := ihrest h
          refine ⟨?_, hresult⟩
          intro s hs
          rcases List.mem_cons.mp hs with rfl | hs
          · exact hends
          · exact hrest s hs

theorem Ends.not_mem (h : Ends next node) {successors : List ν}
    (hnext : next node = some successors) : node ∉ successors := by
  induction h generalizing successors with
  | intro listed hlisted _ ih =>
    intro hmem
    obtain rfl : listed = successors := Option.some.inj (hlisted.symm.trans hnext)
    exact ih _ hmem hnext hmem

theorem Ends.successor (h : Ends next node) {successors : List ν}
    (hnext : next node = some successors) {successor : ν} (hmem : successor ∈ successors) :
    Ends next successor := by
  obtain ⟨listed, hlisted, hends⟩ := h
  obtain rfl : listed = successors := Option.some.inj (hlisted.symm.trans hnext)
  exact hends successor hmem

theorem Ends.congr {next' : ν → Option (List ν)}
    (h : ∀ node successors, next node = some successors →
      ∃ successors', next' node = some successors' ∧ successors' ⊆ successors)
    (hends : Ends next node) : Ends next' node := by
  induction hends with
  | intro successors hnext _ ih =>
    obtain ⟨successors', hnext', hsub⟩ := h _ _ hnext
    exact .intro successors' hnext' fun s hs => ih s (hsub hs)

theorem ends_iff_of_rel {next' : ν → Option (List ν)}
    (h : ∀ node, Option.Rel (fun a b => ∀ s, s ∈ a ↔ s ∈ b) (next node) (next' node)) :
    Ends next node ↔ Ends next' node := by
  constructor
  · apply Ends.congr
    intro node successors hnext
    have hnode := h node
    rw [hnext] at hnode
    generalize hnode' : next' node = other at hnode
    cases hnode with
    | some hmem => exact ⟨_, rfl, fun s hs => (hmem s).mpr hs⟩
  · apply Ends.congr
    intro node successors hnext
    have hnode := h node
    rw [hnext] at hnode
    generalize hnode' : next node = other at hnode
    cases hnode with
    | some hmem => exact ⟨_, rfl, fun s hs => (hmem s).mp hs⟩

end Soot.Computation
