import Mathlib.Data.List.Induction
import Soot.Model.TrieWithDuplicates

/-!
# A trie and its entries

Under each key the trie holds the elements of the entries with that key, through every call. All of
its elements, in the order in which the nodes are visited, are its entries in the order of their
keys. With a limit the visit goes on while no more than the limit is found, so it finds one more.
-/

set_option autoImplicit false

namespace Soot.Analysis

open Soot.Computation Soot.Program Soot.Model

variable {T : Type*}

/-! ## The limit -/

theorem intCount_of_lt {n : ℕ} (h : n < 2 ^ 31) : intCount n = n := by
  unfold intCount
  rw [Int.bmod_def]
  omega

theorem intCount_lt (n : ℤ) : intCount n < 2 ^ 31 := by
  have h := Int.bmod_lt (x := n) (m := 2 ^ 32) (by omega)
  unfold intCount
  omega

theorem pushElements_of_isFull {maxCount : ℤ} {results : List (TrieElement T)}
    (h : TrieNode.isFull maxCount results = true) (elements : List (TrieElement T)) :
    (TrieNode.pushElements maxCount elements results).1 = results := by
  cases elements with
  | nil => rfl
  | cons element elements => rw [TrieNode.pushElements, if_pos h]

theorem isFull_of_returned {maxCount : ℤ} {elements results : List (TrieElement T)}
    (h : (TrieNode.pushElements maxCount elements results).2 = true) :
    TrieNode.isFull maxCount (TrieNode.pushElements maxCount elements results).1 = true := by
  induction elements generalizing results with
  | nil => cases h
  | cons element elements ih =>
    by_cases hfull : TrieNode.isFull maxCount results = true
    · rw [pushElements_of_isFull hfull]
      exact hfull
    · rw [TrieNode.pushElements, if_neg hfull] at h ⊢
      exact ih h

theorem pushElements_append (maxCount : ℤ) (first second results : List (TrieElement T)) :
    (TrieNode.pushElements maxCount (first ++ second) results).1 =
      (TrieNode.pushElements maxCount second
        (TrieNode.pushElements maxCount first results).1).1 := by
  induction first generalizing results with
  | nil => rfl
  | cons element first ih =>
    by_cases hfull : TrieNode.isFull maxCount results = true
    · rw [pushElements_of_isFull hfull, pushElements_of_isFull hfull,
        pushElements_of_isFull hfull]
    · rw [List.cons_append, TrieNode.pushElements, if_neg hfull, TrieNode.pushElements,
        if_neg hfull]
      exact ih _

theorem visitChildren_eq {maxCount : ℤ}
    {visit : UInt8 → List (TrieElement T) → List (TrieElement T)}
    {below : UInt8 → List (TrieElement T)}
    (hvisit : ∀ index results,
      visit index results = (TrieNode.pushElements maxCount (below index) results).1)
    (indices : List UInt8) (results : List (TrieElement T)) :
    TrieNode.visitChildren maxCount visit indices results =
      (TrieNode.pushElements maxCount (indices.flatMap below) results).1 := by
  induction indices generalizing results with
  | nil => rfl
  | cons index indices ih =>
    by_cases hfull : TrieNode.isFull maxCount results = true
    · rw [TrieNode.visitChildren, if_pos hfull, pushElements_of_isFull hfull]
    · rw [TrieNode.visitChildren, if_neg hfull, ih, hvisit, List.flatMap_cons,
        pushElements_append]

theorem retrieveElements_eq (maxCount : ℤ) (t : TrieNode T) (results : List (TrieElement T)) :
    t.retrieveElements maxCount results =
      (TrieNode.pushElements maxCount t.getAllElements results).1 := by
  induction t generalizing results with
  | null => rfl
  | node elements children ih =>
    rw [TrieNode.getAllElements, pushElements_append, TrieNode.retrieveElements]
    rcases hpush : TrieNode.pushElements maxCount elements results with ⟨pushed, returned⟩
    cases returned with
    | true =>
      have hfull := isFull_of_returned (congrArg Prod.snd hpush)
      rw [hpush] at hfull
      exact (pushElements_of_isFull hfull _).symm
    | false => exact visitChildren_eq (fun index => ih index) childIndices pushed

theorem intCount_natCast_le (n : ℕ) : intCount n ≤ n := by
  unfold intCount
  rw [Int.bmod_def]
  omega

theorem pushElements_cases (maxCount : ℤ) (elements results : List (TrieElement T)) :
    (TrieNode.pushElements maxCount elements results).1 <+: results ++ elements ∧
      ((TrieNode.pushElements maxCount elements results).1 = results ++ elements ∨
        0 ≤ maxCount ∧
          maxCount < (TrieNode.pushElements maxCount elements results).1.length) := by
  induction elements generalizing results with
  | nil => exact ⟨List.prefix_append results [], .inl (List.append_nil results).symm⟩
  | cons element elements ih =>
    by_cases hfull : TrieNode.isFull maxCount results = true
    · rw [pushElements_of_isFull hfull]
      simp only [TrieNode.isFull, Bool.and_eq_true, decide_eq_true_eq] at hfull
      have hle := intCount_natCast_le results.length
      exact ⟨List.prefix_append results _, .inr ⟨hfull.1, by omega⟩⟩
    · have hstep := ih (results ++ [element])
      rw [List.append_assoc] at hstep
      rw [TrieNode.pushElements, if_neg hfull]
      exact hstep

/-! ## The number of elements -/

theorem intCount_add (a b : ℤ) : intCount (intCount a + b) = intCount (a + b) :=
  Int.bmod_add_bmod

theorem countElements_eq (t : TrieNode T) (count : ℤ) :
    t.countElements (intCount count) = intCount (count + t.getAllElements.length) := by
  induction t generalizing count with
  | null =>
    rw [TrieNode.countElements, TrieNode.getAllElements, List.length_nil, Int.natCast_zero,
      Int.add_zero]
  | node elements children ih =>
    have hchildren : ∀ (indices : List UInt8) (count : ℤ),
        indices.foldl (fun count index => (children index).countElements count)
          (intCount count) = intCount (count +
            (indices.flatMap fun index => (children index).getAllElements).length) := by
      intro indices
      induction indices with
      | nil =>
        intro count
        rw [List.flatMap_nil, List.length_nil, Int.natCast_zero, Int.add_zero]
        rfl
      | cons index indices ihIndices =>
        intro count
        rw [List.foldl_cons, ih, ihIndices, List.flatMap_cons, List.length_append,
          Int.natCast_add, Int.add_assoc]
    rw [TrieNode.countElements, intCount_add, hchildren, TrieNode.getAllElements,
      List.length_append, Int.natCast_add, Int.add_assoc]

theorem size_eq (t : TrieNode T) : t.size = intCount t.getAllElements.length := by
  have h := countElements_eq t 0
  rw [Int.zero_add] at h
  exact h

theorem size_eq_iff {t : TrieNode T} {n : ℕ} (h : t.getAllElements.length = n) :
    t.size = n ↔ n < 2 ^ 31 := by
  rw [size_eq, h]
  constructor
  · intro heq
    have hlt := intCount_lt n
    omega
  · exact intCount_of_lt

/-! ## The elements under a key -/

section Entries

variable {entries : List (TrieEntry T)} {element : TrieElement T} {key : Text}

@[simp]
theorem elementsUnder_nil (key : Text) : elementsUnder ([] : List (TrieEntry T)) key = [] := rfl

theorem elementsUnder_cons (entry : TrieEntry T) (entries : List (TrieEntry T)) (key : Text) :
    elementsUnder (entry :: entries) key =
      if entry.key = key then entry.element :: elementsUnder entries key
      else elementsUnder entries key := by
  by_cases h : entry.key = key
  · simp only [elementsUnder, List.filter_cons, beq_iff_eq, h, if_true, List.map_cons]
  · simp only [elementsUnder, List.filter_cons, beq_iff_eq, h, if_false]

theorem elementsUnder_append (first second : List (TrieEntry T)) (key : Text) :
    elementsUnder (first ++ second) key =
      elementsUnder first key ++ elementsUnder second key := by
  rw [elementsUnder, List.filter_append, List.map_append]
  rfl

theorem elementsUnder_eraseP (entries : List (TrieEntry T)) (erased : Text) (address : ℕ)
    (key : Text) :
    elementsUnder (entries.eraseP fun entry =>
        entry.key == erased && entry.element.address == address) key =
      if key = erased then (elementsUnder entries key).eraseP (·.address == address)
      else elementsUnder entries key := by
  induction entries with
  | nil => simp
  | cons entry entries ih =>
    by_cases hkey : entry.key = erased
    · subst hkey
      by_cases haddress : entry.element.address = address
      · rw [List.eraseP_cons_of_pos (by simp [haddress]), elementsUnder_cons]
        by_cases h : key = entry.key
        · subst h
          rw [if_pos rfl, if_pos rfl, List.eraseP_cons_of_pos (by simp [haddress])]
        · rw [if_neg h, if_neg (Ne.symm h)]
      · rw [List.eraseP_cons_of_neg (by simp [haddress]), elementsUnder_cons, ih,
          elementsUnder_cons]
        by_cases h : key = entry.key
        · subst h
          rw [if_pos rfl, if_pos rfl, if_pos rfl, if_pos rfl,
            List.eraseP_cons_of_neg (by simp [haddress])]
        · rw [if_neg (Ne.symm h), if_neg h, if_neg h, if_neg (Ne.symm h)]
    · rw [List.eraseP_cons_of_neg (by simp [hkey]), elementsUnder_cons, ih, elementsUnder_cons]
      by_cases h : key = erased
      · rw [if_pos h, if_pos h, if_neg (fun he => hkey (he.trans h)),
          if_neg (fun he => hkey (he.trans h))]
      · rw [if_neg h, if_neg h]

end Entries

/-! ## Calls -/

section Calls

variable {t : TrieNode T} {element : TrieElement T} {address : ℕ}

@[simp]
theorem retrieveWithExact_null (key : Text) :
    (TrieNode.null : TrieNode T).retrieveWithExact key = [] := by
  cases key <;> rfl

@[simp]
theorem retrieveWithExact_node_nil (elements : List (TrieElement T))
    (children : UInt8 → TrieNode T) :
    (TrieNode.node elements children).retrieveWithExact [] = elements := rfl

@[simp]
theorem retrieveWithExact_node_cons (elements : List (TrieElement T))
    (children : UInt8 → TrieNode T) (character : UInt8) (key : Text) :
    (TrieNode.node elements children).retrieveWithExact (character :: key) =
      (children character).retrieveWithExact key := rfl

theorem retrieveWithExact_made (t : TrieNode T) (key : Text) :
    t.made.retrieveWithExact key = t.retrieveWithExact key := by
  cases t with
  | null =>
    cases key with
    | nil => rfl
    | cons character key => exact retrieveWithExact_null key
  | node elements children => rfl

theorem made_ne_null (t : TrieNode T) : t.made ≠ .null := by
  cases t <;> exact fun h => by cases h

theorem insert_ne_null (h : t ≠ .null) (element : TrieElement T) (key : Text) :
    t.insert element key ≠ .null := by
  cases t with
  | null => exact absurd rfl h
  | node elements children => cases key <;> exact fun h => by cases h

theorem remove_ne_null (h : t ≠ .null) (address : ℕ) (key : Text) :
    (t.remove address key).1 ≠ .null := by
  cases t with
  | null => exact absurd rfl h
  | node elements children => cases key <;> exact fun h => by cases h

theorem retrieveWithExact_insert (h : t ≠ .null) (element : TrieElement T) (inserted key : Text) :
    (t.insert element inserted).retrieveWithExact key =
      if inserted = key then t.retrieveWithExact key ++ [element]
      else t.retrieveWithExact key := by
  induction inserted generalizing t key with
  | nil =>
    cases t with
    | null => exact absurd rfl h
    | node elements children => cases key <;> rfl
  | cons character inserted ih =>
    cases t with
    | null => exact absurd rfl h
    | node elements children =>
      cases key with
      | nil => rfl
      | cons c key =>
        rw [TrieNode.insert, retrieveWithExact_node_cons, retrieveWithExact_node_cons]
        by_cases hc : c = character
        · subst hc
          rw [Function.update_self, ih (made_ne_null _), retrieveWithExact_made]
          simp only [List.cons.injEq, true_and]
        · rw [Function.update_of_ne hc, if_neg fun heq => hc (List.cons.inj heq).1.symm]

theorem retrieveWithExact_remove (t : TrieNode T) (address : ℕ) (removed key : Text) :
    (t.remove address removed).1.retrieveWithExact key =
      if key = removed then (t.retrieveWithExact key).eraseP (·.address == address)
      else t.retrieveWithExact key := by
  induction removed generalizing t key with
  | nil =>
    cases t with
    | null => simp [TrieNode.remove]
    | node elements children => cases key <;> rfl
  | cons character removed ih =>
    cases t with
    | null => simp [TrieNode.remove]
    | node elements children =>
      cases key with
      | nil => rfl
      | cons c key =>
        rw [TrieNode.remove, retrieveWithExact_node_cons, retrieveWithExact_node_cons]
        by_cases hc : c = character
        · subst hc
          rw [Function.update_self, ih]
          simp only [List.cons.injEq, true_and]
        · rw [Function.update_of_ne hc, if_neg fun heq => hc (List.cons.inj heq).1]

theorem trieAfter_concat (calls : List (TrieCall T)) (call : TrieCall T) :
    trieAfter (calls ++ [call]) = call.step (trieAfter calls) := List.foldl_concat ..

theorem entriesAfter_concat (calls : List (TrieCall T)) (call : TrieCall T) :
    entriesAfter (calls ++ [call]) = recordTrieCall (entriesAfter calls) call :=
  List.foldl_concat ..

theorem retrieveWithExact_trieAfter (calls : List (TrieCall T)) :
    trieAfter calls ≠ .null ∧
      ∀ key, (trieAfter calls).retrieveWithExact key = elementsUnder (entriesAfter calls) key := by
  induction calls using List.reverseRecOn with
  | nil =>
    refine ⟨fun h => (by cases h), fun key => ?_⟩
    exact (retrieveWithExact_made .null key).trans (retrieveWithExact_null key)
  | append_singleton calls call ih =>
    obtain ⟨hne, hunder⟩ := ih
    rw [trieAfter_concat, entriesAfter_concat]
    cases call with
    | insert inserted element =>
      refine ⟨insert_ne_null hne element inserted, fun key => ?_⟩
      apply (retrieveWithExact_insert hne element inserted key).trans
      rw [hunder, recordTrieCall, elementsUnder_append, elementsUnder_cons, elementsUnder_nil]
      by_cases h : inserted = key
      · rw [if_pos h, if_pos h]
      · rw [if_neg h, if_neg h, List.append_nil]
    | remove removed address =>
      refine ⟨remove_ne_null hne address removed, fun key => ?_⟩
      apply (retrieveWithExact_remove _ address removed key).trans
      rw [hunder, recordTrieCall, elementsUnder_eraseP]

end Calls

/-! ## The order of a visit -/

section Order

/-- The entries of a list with something in front of their keys. -/
def prefixed (start : Text) (entries : List (TrieEntry T)) : List (TrieEntry T) :=
  entries.map fun entry => ⟨start ++ entry.key, entry.element⟩

/-- The elements below a node with their keys from there on, as they are visited. -/
def keyedElements : TrieNode T → List (TrieEntry T)
  | .null => []
  | .node elements children =>
    elements.map (⟨[], ·⟩) ++
      childIndices.flatMap fun index => prefixed [index] (keyedElements (children index))

theorem map_element_prefixed (start : Text) (entries : List (TrieEntry T)) :
    (prefixed start entries).map (·.element) = entries.map (·.element) := by
  rw [prefixed, List.map_map]
  rfl

theorem map_element_keyedElements (t : TrieNode T) :
    (keyedElements t).map (·.element) = t.getAllElements := by
  induction t with
  | null => rfl
  | node elements children ih =>
    rw [keyedElements, TrieNode.getAllElements, List.map_append, List.map_map, List.map_flatMap]
    simp only [map_element_prefixed, ih]
    congr 1
    exact List.map_id elements

theorem mem_childIndices (index : UInt8) : index ∈ childIndices :=
  List.mem_map.mpr ⟨index.toFin, List.mem_finRange _, rfl⟩

theorem pairwise_childIndices : childIndices.Pairwise (· < ·) :=
  List.Pairwise.map UInt8.ofFin (fun _ _ h => h) (List.pairwise_lt_finRange 256)

theorem pairwise_keyedElements (t : TrieNode T) :
    (keyedElements t).Pairwise fun first second => first.key ≤ second.key := by
  induction t with
  | null => exact List.Pairwise.nil
  | node elements children ih =>
    rw [keyedElements, List.pairwise_append]
    refine ⟨?_, ?_, ?_⟩
    · apply List.pairwise_map.mpr
      exact List.pairwise_of_forall fun _ _ => List.nil_le _
    · rw [List.pairwise_flatMap]
      refine ⟨fun index _ => ?_, ?_⟩
      · exact List.Pairwise.map _ (fun _ _ h => List.append_left_le h) (ih index)
      · apply pairwise_childIndices.imp
        intro a b hab first hfirst second hsecond
        obtain ⟨x, -, rfl⟩ := List.mem_map.mp hfirst
        obtain ⟨y, -, rfl⟩ := List.mem_map.mp hsecond
        exact List.cons_le_cons_iff.mpr (.inl hab)
    · intro first hfirst second _
      obtain ⟨element, -, rfl⟩ := List.mem_map.mp hfirst
      exact List.nil_le _

theorem elementsUnder_prefixed (start : Text) (entries : List (TrieEntry T)) (key : Text) :
    elementsUnder (prefixed start entries) key =
      if start <+: key then elementsUnder entries (key.drop start.length) else [] := by
  induction entries with
  | nil => exact (ite_self []).symm
  | cons entry entries ih =>
    rw [prefixed, List.map_cons, elementsUnder_cons]
    change (if start ++ entry.key = key then entry.element ::
      elementsUnder (prefixed start entries) key
      else elementsUnder (prefixed start entries) key) = _
    rw [ih, elementsUnder_cons]
    by_cases h : start <+: key
    · obtain ⟨rest, rfl⟩ := h
      rw [if_pos (List.prefix_append start rest), if_pos (List.prefix_append start rest),
        List.drop_left]
      simp only [List.append_cancel_left_eq]
    · rw [if_neg h, if_neg h, if_neg fun heq => h ⟨entry.key, heq⟩]

theorem elementsUnder_flatMap {below : UInt8 → List (TrieEntry T)} {indices : List UInt8}
    (hindices : indices.Pairwise (· < ·)) {character : UInt8} {key : Text} :
    elementsUnder (indices.flatMap fun index => prefixed [index] (below index))
        (character :: key) =
      if character ∈ indices then elementsUnder (below character) key else [] := by
  induction indices with
  | nil => rfl
  | cons index indices ih =>
    rw [List.pairwise_cons] at hindices
    rw [List.flatMap_cons, elementsUnder_append, elementsUnder_prefixed, ih hindices.2]
    by_cases h : character = index
    · subst h
      have hnot : character ∉ indices := fun hmem => UInt8.lt_irrefl character (hindices.1 _ hmem)
      rw [if_pos ⟨key, rfl⟩, if_neg hnot, if_pos List.mem_cons_self, List.append_nil]
      rfl
    · have hbegins : ¬ [index] <+: character :: key := fun hbegins =>
        h (List.cons_prefix_cons.mp hbegins).1.symm
      rw [if_neg hbegins, List.nil_append]
      simp only [List.mem_cons, h, false_or]

theorem elementsUnder_elements (elements : List (TrieElement T)) (key : Text) :
    elementsUnder (elements.map (TrieEntry.mk [])) key = if key = [] then elements else [] := by
  induction elements with
  | nil => exact (ite_self []).symm
  | cons element elements ih =>
    rw [List.map_cons, elementsUnder_cons, ih]
    by_cases h : key = []
    · rw [if_pos h, if_pos h, if_pos h.symm]
    · rw [if_neg h, if_neg h, if_neg (Ne.symm h)]

theorem elementsUnder_keyedElements (t : TrieNode T) (key : Text) :
    elementsUnder (keyedElements t) key = t.retrieveWithExact key := by
  induction t generalizing key with
  | null => exact (retrieveWithExact_null key).symm
  | node elements children ih =>
    rw [keyedElements, elementsUnder_append, elementsUnder_elements]
    cases key with
    | nil =>
      have hnone : ∀ indices : List UInt8, elementsUnder (indices.flatMap fun index =>
          prefixed [index] (keyedElements (children index))) [] = [] := by
        intro indices
        induction indices with
        | nil => rfl
        | cons index indices ihIndices =>
          rw [List.flatMap_cons, elementsUnder_append, elementsUnder_prefixed, ihIndices,
            if_neg fun h => List.cons_ne_nil _ _ (List.prefix_nil.mp h)]
          rfl
      rw [if_pos rfl, hnone, List.append_nil, retrieveWithExact_node_nil]
    | cons character key =>
      rw [elementsUnder_flatMap pairwise_childIndices, if_pos (mem_childIndices character), ih,
        if_neg (List.cons_ne_nil _ _), List.nil_append, retrieveWithExact_node_cons]

theorem retrieveWithExact_walk (t : TrieNode T) (start rest : Text) :
    (t.walk start).retrieveWithExact rest = t.retrieveWithExact (start ++ rest) := by
  induction start generalizing t with
  | nil => cases t <;> rfl
  | cons character start ih =>
    cases t with
    | null => exact (retrieveWithExact_null rest).trans (retrieveWithExact_null _).symm
    | node elements children => exact ih (children character)

theorem retrieveWithPrefix_eq (maxCount : ℤ) (t : TrieNode T) (start : Text) :
    t.retrieveWithPrefix maxCount start =
      (TrieNode.pushElements maxCount (t.walk start).getAllElements []).1 := by
  have hempty : ¬ TrieNode.isFull (T := T) maxCount [] = true := by
    simp only [TrieNode.isFull, Bool.and_eq_true, decide_eq_true_eq, List.length_nil,
      Int.natCast_zero, not_and, not_lt]
    intro h
    exact h
  induction start generalizing t with
  | nil =>
    cases t <;> exact retrieveElements_eq maxCount _ []
  | cons character start ih =>
    cases t with
    | null => rfl
    | node elements children =>
      rw [TrieNode.retrieveWithPrefix, if_neg hempty, ih]
      rfl

theorem inKeyOrder_walk {t : TrieNode T} {entries : List (TrieEntry T)}
    (h : ∀ key, t.retrieveWithExact key = elementsUnder entries key) (start : Text) :
    InKeyOrder entries start (prefixed start (keyedElements (t.walk start))) where
  sorted := List.pairwise_map.mpr
    ((pairwise_keyedElements _).imp fun hle => List.append_left_le hle)
  under key := by
    rw [elementsUnder_prefixed]
    by_cases hstart : start <+: key
    · obtain ⟨rest, rfl⟩ := hstart
      rw [List.drop_left, elementsUnder_keyedElements, retrieveWithExact_walk, h]
    · rw [if_neg hstart, if_neg hstart]

theorem elementsUnder_filter (entries : List (TrieEntry T)) (start key : Text) :
    elementsUnder (entries.filter fun entry => start.isPrefixOf entry.key) key =
      if start <+: key then elementsUnder entries key else [] := by
  induction entries with
  | nil => exact (ite_self []).symm
  | cons entry entries ih =>
    rw [List.filter_cons, elementsUnder_cons]
    by_cases hkey : entry.key = key
    · subst hkey
      by_cases hstart : start <+: entry.key
      · rw [if_pos (List.isPrefixOf_iff_prefix.mpr hstart), elementsUnder_cons, ih,
          if_pos hstart, if_pos rfl, if_pos hstart]
      · rw [if_neg fun h => hstart (List.isPrefixOf_iff_prefix.mp h), ih, if_neg hstart,
          if_neg hstart]
    · rw [if_neg hkey]
      by_cases hentry : start.isPrefixOf entry.key = true
      · rw [if_pos hentry, elementsUnder_cons, if_neg hkey, ih]
      · rw [if_neg hentry, ih]

theorem count_eq_count_elementsUnder [DecidableEq T] (entries : List (TrieEntry T))
    (a : TrieEntry T) : entries.count a = (elementsUnder entries a.key).count a.element := by
  induction entries with
  | nil => rfl
  | cons entry entries ih =>
    rw [elementsUnder_cons, List.count_cons, ih]
    by_cases hkey : entry.key = a.key
    · have hiff : entry == a ↔ entry.element == a.element := by
        rw [beq_iff_eq, beq_iff_eq]
        exact ⟨fun h => h ▸ rfl, fun h => TrieEntry.ext hkey h⟩
      rw [if_pos hkey, List.count_cons]
      simp only [hiff]
    · have hne : ¬ (entry == a) = true := fun h => hkey (beq_iff_eq.mp h ▸ rfl)
      rw [if_neg hkey, if_neg hne, Nat.add_zero]

theorem length_of_inKeyOrder {entries found : List (TrieEntry T)} {start : Text}
    (h : InKeyOrder entries start found) : found.length = countWithPrefix entries start := by
  classical
  have hperm : found.Perm (entries.filter fun entry => start.isPrefixOf entry.key) := by
    rw [List.perm_iff_count]
    intro a
    rw [count_eq_count_elementsUnder, count_eq_count_elementsUnder, h.under,
      elementsUnder_filter]
  rw [hperm.length_eq, countWithPrefix, List.countP_eq_length_filter]

end Order

/-! ## The answers -/

/-- A trie serves its entries exactly when they are counted in an `int` and no more of them start
with the prefix than the limit says: `results.size() > max_count` stops behind one more.
SRCLINE: TrieWithDuplicates.hpp:23-145 -/
theorem servesEntries_iff (calls : List (TrieCall T)) (key start : Text) (maxCount : ℤ) :
    ServesEntries (trieAfter calls) (entriesAfter calls) key start maxCount ↔
      (entriesAfter calls).length < 2 ^ 31 ∧
        (0 ≤ maxCount → countWithPrefix (entriesAfter calls) start ≤ maxCount) := by
  obtain ⟨-, hunder⟩ := retrieveWithExact_trieAfter calls
  set t := trieAfter calls
  set entries := entriesAfter calls
  have hfound := inKeyOrder_walk hunder start
  have hlength := length_of_inKeyOrder hfound
  -- Every element starts with the empty prefix.
  have hall : InKeyOrder entries [] (keyedElements t) := by
    have hroot := inKeyOrder_walk hunder []
    rw [prefixed] at hroot
    simpa [TrieNode.walk] using hroot
  have htotal : t.getAllElements.length = entries.length := by
    rw [← map_element_keyedElements, List.length_map, length_of_inKeyOrder hall, countWithPrefix]
    simp
  have hbelow : (t.walk start).getAllElements =
      (prefixed start (keyedElements (t.walk start))).map (·.element) := by
    rw [map_element_prefixed, map_element_keyedElements]
  have hcount : (t.walk start).getAllElements.length = countWithPrefix entries start := by
    rw [hbelow, List.length_map, hlength]
  constructor
  · intro h
    refine ⟨(size_eq_iff htotal).mp h.size, fun hpos => ?_⟩
    obtain ⟨found, horder, hlimited⟩ := h.limited hpos
    have hshort := congrArg List.length hlimited
    rw [retrieveWithPrefix_eq, List.length_map, List.length_take] at hshort
    rcases (pushElements_cases maxCount (t.walk start).getAllElements []).2 with hfull | hfull
    · rw [hfull, List.nil_append, hcount] at hshort
      omega
    · omega
  · rintro ⟨hsize, hlimit⟩
    have hwhole : ∀ limit : ℤ, (0 ≤ limit → countWithPrefix entries start ≤ limit) →
        t.retrieveWithPrefix limit start = (t.walk start).getAllElements := by
      intro limit hle
      obtain ⟨hbegins, hfull | ⟨hpos, hfull⟩⟩ :=
        pushElements_cases limit (t.walk start).getAllElements []
      · rw [retrieveWithPrefix_eq, hfull, List.nil_append]
      · have hshort := hbegins.length_le
        rw [List.nil_append, hcount] at hshort
        have hle := hle hpos
        omega
    refine ⟨(size_eq_iff htotal).mpr hsize, ⟨_, hall, (map_element_keyedElements t).symm⟩,
      hunder key, ⟨_, hfound, ?_⟩, fun hpos => ⟨_, hfound, ?_⟩⟩
    · rw [hwhole (-1) (fun h => absurd h (by omega)), hbelow]
    · have hle := hlimit hpos
      rw [hwhole maxCount hlimit, hbelow, List.take_of_length_le (by omega)]

/-- Two elements under the empty key, and a limit of one.
SRCLINE: TrieWithDuplicates.hpp:112 -/
theorem not_servesEntries_limit :
    ¬ ∀ (calls : List (TrieCall ℕ)) (key start : Text) (maxCount : ℤ),
      ServesEntries (trieAfter calls) (entriesAfter calls) key start maxCount := by
  intro h
  obtain ⟨found, -, hlimited⟩ := (h [.insert [] ⟨1, 10⟩, .insert [] ⟨2, 20⟩] [] [] 1).limited
    (by omega)
  have hlength := congrArg List.length hlimited
  rw [List.length_map, List.length_take] at hlength
  have htwo : (trieAfter [TrieCall.insert [] ⟨1, 10⟩, .insert [] ⟨2, 20⟩]).retrieveWithPrefix 1 []
      = [⟨1, 10⟩, ⟨2, 20⟩] := rfl
  rw [htwo] at hlength
  simp only [List.length_cons, List.length_nil] at hlength
  omega

end Soot.Analysis
