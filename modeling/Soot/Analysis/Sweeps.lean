import Soot.Analysis.HeapSteps

/-!
# Sweeps

A sweep looks at the places of the blocks in order and stops when its budget is spent; the next
one goes on from there. So a sweep in steps of any budgets is one walk over the places that
were left, and what it takes back are the objects without the number of the pass, each once.
-/

set_option autoImplicit false

namespace Soot.Analysis

open Soot.Program Soot.Model Soot.Computation

variable {κ : Type} {types : TypeRegistry κ} {s s' : Collector κ} {payload : ℕ}

/-! ## Places -/

/-- What a sweep reads of an arena besides its bitmap. -/
def blocksOf (entry : ℕ × Arena) : ℕ × (ℕ → ℕ) := (entry.2.capacity, entry.2.block)

/-- The blocks of the arenas. -/
def shape (arenas : ArenaManager) : List (ℕ × (ℕ → ℕ)) := arenas.arenas.map blocksOf

/-- An object lies at a place. -/
def AtPlace (arenas : ArenaManager) (payload : ℕ) (place : ℕ × ℕ) : Prop :=
  ∃ blocks, (shape arenas)[place.1]? = some blocks ∧ place.2 < blocks.1 ∧
    payload = Collector.payloadOf (blocks.2 place.2)

theorem atPlace_congr {arenas arenas' : ArenaManager} (h : shape arenas' = shape arenas)
    {place : ℕ × ℕ} : AtPlace arenas' payload place ↔ AtPlace arenas payload place := by
  rw [AtPlace, AtPlace, h]

theorem allPlaces_eq (arenas : ArenaManager) :
    Collector.allPlaces arenas = (List.range (shape arenas).length).flatMap fun i =>
      (List.range (((shape arenas)[i]?.map Prod.fst).getD 0)).map fun j => (i, j) := by
  simp only [Collector.allPlaces, shape, List.length_map, List.getElem?_map, Option.map_map]
  rfl

theorem allPlaces_congr {arenas arenas' : ArenaManager} (h : shape arenas' = shape arenas) :
    Collector.allPlaces arenas' = Collector.allPlaces arenas := by
  rw [allPlaces_eq, allPlaces_eq, h]

theorem atPlace_iff {arenas : ArenaManager} {i j : ℕ} :
    AtPlace arenas payload (i, j) ↔ ∃ entry : ℕ × Arena, arenas.arenas[i]? = some entry ∧
      j < entry.2.capacity ∧ payload = Collector.payloadOf (entry.2.block j) := by
  rw [AtPlace, shape, List.getElem?_map]
  constructor
  · rintro ⟨blocks, hblocks, hj, rfl⟩
    rw [Option.map_eq_some_iff] at hblocks
    obtain ⟨entry, hentry, rfl⟩ := hblocks
    exact ⟨entry, hentry, hj, rfl⟩
  · rintro ⟨entry, hentry, hj, rfl⟩
    exact ⟨blocksOf entry, by rw [hentry]; rfl, hj, rfl⟩

theorem exists_place (h : CollectorHolds s) (hlive : Live s payload) :
    ∃ place ∈ Collector.allPlaces s.arenas, AtPlace s.arenas payload place := by
  obtain ⟨_, ⟨i, entry, j, hi, hj, rfl⟩, rfl⟩ := hlive
  have hlt := ArenaAt.lt_capacity (h.heap.arenas i entry hi) hj
  refine ⟨(i, j), ?_, atPlace_iff.2 ⟨entry, hi, hlt, rfl⟩⟩
  refine List.mem_flatMap.2 ⟨i, List.mem_range.2 (lt_length_of_getElem? hi), ?_⟩
  refine List.mem_map.2 ⟨j, List.mem_range.2 ?_, rfl⟩
  rw [hi]
  exact hlt

/-- The order of the places. -/
def Before (place place' : ℕ × ℕ) : Prop :=
  place.1 < place'.1 ∨ place.1 = place'.1 ∧ place.2 < place'.2

theorem allPlaces_sorted (arenas : ArenaManager) :
    (Collector.allPlaces arenas).Pairwise Before := by
  rw [Collector.allPlaces, List.pairwise_flatMap]
  constructor
  · intro i _
    rw [List.pairwise_map]
    refine List.pairwise_lt_range.imp ?_
    intro j j' hlt
    exact .inr ⟨rfl, hlt⟩
  · refine List.pairwise_lt_range.imp ?_
    intro i i' hlt x hx y hy
    obtain ⟨j, _, rfl⟩ := List.mem_map.1 hx
    obtain ⟨j', _, rfl⟩ := List.mem_map.1 hy
    exact .inl hlt

theorem places_after {done rest : List (ℕ × ℕ)} {i j : ℕ}
    (hleft : s.places = done ++ (i, j) :: rest) (hshape : shape s'.arenas = shape s.arenas)
    (hcursor : s'.sweepArena = i ∧ s'.sweepBlock = j + 1) : s'.places = rest := by
  have hsorted := allPlaces_sorted s.arenas
  rw [Collector.places] at hleft ⊢
  rw [allPlaces_congr hshape, hcursor.1, hcursor.2]
  have hfilter : (Collector.allPlaces s.arenas).filter (fun place =>
      i < place.1 || (i == place.1 && j + 1 ≤ place.2)) =
      ((Collector.allPlaces s.arenas).filter fun place =>
        s.sweepArena < place.1 || (s.sweepArena == place.1 && s.sweepBlock ≤ place.2)).filter
      fun place => i < place.1 || (i == place.1 && j + 1 ≤ place.2) := by
    rw [List.filter_filter]
    refine List.filter_congr fun place _ => ?_
    have hmem : (i, j) ∈ done ++ (i, j) :: rest := by simp
    rw [← hleft, List.mem_filter] at hmem
    have hcur := hmem.2
    simp only [Bool.or_eq_true, Bool.and_eq_true, decide_eq_true_iff, beq_iff_eq] at hcur
    rw [Bool.eq_iff_iff]
    simp only [Bool.or_eq_true, Bool.and_eq_true, decide_eq_true_iff, beq_iff_eq]
    omega
  rw [hfilter, hleft, List.filter_append, List.filter_cons]
  have hsub : (done ++ (i, j) :: rest).Pairwise Before := by
    rw [← hleft]
    exact hsorted.filter _
  rw [List.pairwise_append, List.pairwise_cons] at hsub
  have hdone : done.filter (fun place => i < place.1 || (i == place.1 && j + 1 ≤ place.2)) = [] := by
    rw [List.filter_eq_nil_iff]
    intro place hplace
    have hbefore := hsub.2.2 place hplace (i, j) List.mem_cons_self
    simp only [Before] at hbefore
    simp only [Bool.or_eq_true, Bool.and_eq_true, decide_eq_true_iff, beq_iff_eq]
    omega
  have hrest : rest.filter (fun place => i < place.1 || (i == place.1 && j + 1 ≤ place.2)) =
      rest := by
    rw [List.filter_eq_self]
    intro place hplace
    have hbefore := hsub.2.1.1 place hplace
    simp only [Before] at hbefore
    simp only [Bool.or_eq_true, Bool.and_eq_true, decide_eq_true_iff, beq_iff_eq]
    omega
  rw [hdone, hrest]
  simp

theorem places_eq_allPlaces (h : s.sweepArena = 0 ∧ s.sweepBlock = 0) :
    s.places = Collector.allPlaces s.arenas := by
  rw [Collector.places, h.1, h.2, List.filter_eq_self]
  intro place _
  rcases Nat.eq_zero_or_pos place.1 with hzero | hpos
  · simp [hzero]
  · simp [hpos]

/-! ## The walk over the places -/

/-- What a sweep does at a place. -/
def sweepPlace (types : TypeRegistry κ) (s : Collector κ) (place : ℕ × ℕ) : Collector κ :=
  match s.arenas.arenas[place.1]? with
  | none => s
  | some entry =>
    if entry.2.isAllocated place.2 then s.sweepAt types (entry.2.block place.2) else s

/-- The state with the cursor of the sweep at a place. -/
def withCursor (s : Collector κ) (arena block : ℕ) : Collector κ :=
  { s with sweepArena := arena, sweepBlock := block }

theorem sweepFrom_spec {places : List (ℕ × ℕ)} {budget : ℕ} {finished : Bool}
    (h : s.sweepFrom types places budget = (s', finished)) :
    ∃ seen rest, places = seen ++ rest ∧
      s' = withCursor (seen.foldl (sweepPlace types) s) s'.sweepArena s'.sweepBlock ∧
      (finished = true → rest = []) ∧
      (finished = false → ∃ before i j, seen = before ++ [(i, j)] ∧ s'.sweepArena = i ∧
        s'.sweepBlock = j + 1) := by
  induction places generalizing s budget with
  | nil =>
    rw [Collector.sweepFrom, Prod.mk.injEq] at h
    obtain ⟨rfl, rfl⟩ := h
    exact ⟨[], [], rfl, rfl, fun _ => rfl, nofun⟩
  | cons place places ih =>
    obtain ⟨i, j⟩ := place
    have hgo : ∀ budget : ℕ,
        (sweepPlace types s (i, j)).sweepFrom types places budget = (s', finished) →
        ∃ seen rest, (i, j) :: places = seen ++ rest ∧
          s' = withCursor (seen.foldl (sweepPlace types) s) s'.sweepArena s'.sweepBlock ∧
          (finished = true → rest = []) ∧
          (finished = false → ∃ before i j, seen = before ++ [(i, j)] ∧ s'.sweepArena = i ∧
            s'.sweepBlock = j + 1) := by
      intro budget hrest
      obtain ⟨seen, rest, rfl, hs', hdone, hstopped⟩ := ih hrest
      refine ⟨(i, j) :: seen, rest, rfl, by rw [List.foldl_cons]; exact hs', hdone, ?_⟩
      intro hfinished
      obtain ⟨before, i', j', rfl, hcursor⟩ := hstopped hfinished
      exact ⟨(i, j) :: before, i', j', rfl, hcursor⟩
    rw [Collector.sweepFrom] at h
    cases hi : s.arenas.arenas[i]? with
    | none =>
      simp only [hi] at h
      refine hgo budget ?_
      simp only [sweepPlace, hi]
      exact h
    | some entry =>
      simp only [hi] at h
      by_cases hj : entry.2.isAllocated j = true
      · rw [if_pos hj] at h
        have hplace : sweepPlace types s (i, j) = s.sweepAt types (entry.2.block j) := by
          simp only [sweepPlace, hi, hj, if_true]
        by_cases hbudget : budget ≤ 1
        · rw [if_pos hbudget, Prod.mk.injEq] at h
          obtain ⟨rfl, rfl⟩ := h
          refine ⟨[(i, j)], places, rfl, ?_, nofun, fun _ => ⟨[], i, j, rfl, rfl, rfl⟩⟩
          rw [List.foldl_cons, List.foldl_nil, hplace]
          rfl
        · rw [if_neg hbudget] at h
          exact hgo (budget - 1) (by rw [hplace]; exact h)
      · rw [if_neg hj] at h
        refine hgo budget ?_
        simp only [sweepPlace, hi, hj, Bool.false_eq_true, if_false]
        exact h

theorem sweepFrom_done {places : List (ℕ × ℕ)} {budget : ℕ} (h : places.length < budget) :
    (s.sweepFrom types places budget).2 = true := by
  induction places generalizing s budget with
  | nil => rfl
  | cons place places ih =>
    obtain ⟨i, j⟩ := place
    rw [List.length_cons] at h
    rw [Collector.sweepFrom]
    split
    · exact ih (by omega)
    · split
      · simp only
        rw [if_neg (by omega)]
        exact ih (by omega)
      · exact ih (by omega)

/-- What a walk over places does. -/
structure Swept (types : TypeRegistry κ) (s : Collector κ) (seen : List (ℕ × ℕ))
    (s' : Collector κ) : Prop where
  holds : CollectorHolds s'
  region : s'.arenas.regionStart = s.arenas.regionStart ∧
    s'.arenas.regionEnd = s.arenas.regionEnd
  shape : shape s'.arenas = shape s.arenas
  contents : s'.contents = s.contents
  currentPass : s'.currentPass = s.currentPass
  live : ∀ payload, Live s' payload ↔ Live s payload ∧
    ((∃ place ∈ seen, AtPlace s.arenas payload place) → storedCycle s payload = s.currentPass)
  typeIndex : ∀ payload, Live s' payload →
    (s'.words (Collector.headerOf payload)).asHeader.typeIndex =
      (s.words (Collector.headerOf payload)).asHeader.typeIndex
  cycle : ∀ payload, Live s' payload → storedCycle s' payload = storedCycle s payload
  destroyed : ∃ destroyed, s'.destroyed = destroyed ++ s.destroyed ∧ destroyed.Nodup ∧
    ∀ payload, payload ∈ destroyed ↔ Live s payload ∧
      (∃ place ∈ seen, AtPlace s.arenas payload place) ∧
      storedCycle s payload ≠ s.currentPass ∧ Destroys types s payload

theorem Swept.refl (h : CollectorHolds s) : Swept types s [] s :=
  { holds := h, region := ⟨rfl, rfl⟩, shape := rfl, contents := rfl, currentPass := rfl, live := by simp
    typeIndex := fun _ _ => rfl, cycle := fun _ _ => rfl
    destroyed := ⟨[], rfl, List.nodup_nil, by simp⟩ }

theorem Swept.trans {s'' : Collector κ} {seen seen' : List (ℕ × ℕ)} (h : Swept types s seen s')
    (h' : Swept types s' seen' s'') : Swept types s (seen ++ seen') s'' := by
  have hplace : ∀ payload place, AtPlace s'.arenas payload place ↔
      AtPlace s.arenas payload place := fun _ _ => atPlace_congr h.shape
  have hseen : ∀ payload, (∃ place ∈ seen ++ seen', AtPlace s.arenas payload place) ↔
      (∃ place ∈ seen, AtPlace s.arenas payload place) ∨
        ∃ place ∈ seen', AtPlace s'.arenas payload place := by
    intro payload
    simp only [List.mem_append, or_and_right, exists_or, hplace]
  have hback : ∀ payload, Live s'' payload → Live s' payload :=
    fun payload hlive => ((h'.live payload).1 hlive).1
  refine
    { holds := h'.holds
      region := ⟨h'.region.1.trans h.region.1, h'.region.2.trans h.region.2⟩
      shape := h'.shape.trans h.shape
      contents := h'.contents.trans h.contents
      currentPass := h'.currentPass.trans h.currentPass
      live := ?_
      typeIndex := fun payload hlive =>
        (h'.typeIndex payload hlive).trans (h.typeIndex payload (hback payload hlive))
      cycle := fun payload hlive =>
        (h'.cycle payload hlive).trans (h.cycle payload (hback payload hlive))
      destroyed := ?_ }
  · intro payload
    rw [hseen, h'.live]
    constructor
    · rintro ⟨hlive, hcycle⟩
      refine ⟨((h.live payload).1 hlive).1, ?_⟩
      rintro (hfirst | hsecond)
      · exact ((h.live payload).1 hlive).2 hfirst
      · rw [← h.cycle payload hlive, hcycle hsecond, h.currentPass]
    · rintro ⟨hlive, hcycle⟩
      have hlive' := (h.live payload).2 ⟨hlive, fun hfirst => hcycle (.inl hfirst)⟩
      refine ⟨hlive', fun hsecond => ?_⟩
      rw [h.cycle payload hlive', hcycle (.inr hsecond), h.currentPass]
  · obtain ⟨destroyed, heq, hnodup, hmem⟩ := h.destroyed
    obtain ⟨destroyed', heq', hnodup', hmem'⟩ := h'.destroyed
    refine ⟨destroyed' ++ destroyed, by rw [heq', heq, List.append_assoc], ?_, ?_⟩
    · refine List.nodup_append.2 ⟨hnodup', hnodup, ?_⟩
      -- what was destroyed first is not live when the second walk begins
      rintro a ha b hb rfl
      obtain ⟨_, hplace, hcycle, _⟩ := (hmem a).1 hb
      exact hcycle (((h.live a).1 ((hmem' a).1 ha).1).2 hplace)
    · intro payload
      rw [List.mem_append, hmem, hmem', hseen]
      constructor
      · rintro (⟨hlive, hplace, hcycle, hdestroys⟩ | ⟨hlive, hplace, hcycle, hdestroys⟩)
        · refine ⟨((h.live payload).1 hlive).1, .inr hplace, ?_, ?_⟩
          · rw [← h.cycle payload hlive, ← h.currentPass]
            exact hcycle
          · rw [Destroys, ← h.typeIndex payload hlive]
            exact hdestroys
        · exact ⟨hlive, .inl hplace, hcycle, hdestroys⟩
      · rintro ⟨hlive, hplace, hcycle, hdestroys⟩
        by_cases hfirst : ∃ place ∈ seen, AtPlace s.arenas payload place
        · exact .inr ⟨hlive, hfirst, hcycle, hdestroys⟩
        · have hlive' := (h.live payload).2 ⟨hlive, fun hplace => absurd hplace hfirst⟩
          refine .inl ⟨hlive', hplace.resolve_left hfirst, ?_, ?_⟩
          · rw [h.cycle payload hlive', h.currentPass]
            exact hcycle
          · rw [Destroys, h.typeIndex payload hlive']
            exact hdestroys

theorem atPlace_live (h : CollectorHolds s) {i j : ℕ} (hplace : AtPlace s.arenas payload (i, j))
    (hlive : Live s payload) : ∃ entry : ℕ × Arena, s.arenas.arenas[i]? = some entry ∧
      entry.2.isAllocated j = true ∧ payload = Collector.payloadOf (entry.2.block j) := by
  obtain ⟨entry, hi, hj, rfl⟩ := atPlace_iff.1 hplace
  obtain ⟨i', entry', j', hi', hj', hblock⟩ := live_payloadOf.1 hlive
  have hlt := ArenaAt.lt_capacity (h.heap.arenas i' entry' hi') hj'
  obtain ⟨rfl, rfl⟩ := HeapHolds.place_unique h.heap hi hi' hj hlt hblock
  rw [hi, Option.some.injEq] at hi'
  subst hi'
  exact ⟨entry, hi, hj', rfl⟩

theorem swept_of_vacant (h : CollectorHolds s) {place : ℕ × ℕ}
    (hvacant : ∀ payload, AtPlace s.arenas payload place → ¬ Live s payload) :
    Swept types s [place] s := by
  refine
    { holds := h, region := ⟨rfl, rfl⟩, shape := rfl, contents := rfl, currentPass := rfl, live := ?_
      typeIndex := fun _ _ => rfl, cycle := fun _ _ => rfl
      destroyed := ⟨[], rfl, List.nodup_nil, ?_⟩ }
  · intro payload
    simp only [List.mem_singleton, exists_eq_left]
    exact ⟨fun hlive => ⟨hlive, fun hplace => absurd hlive (hvacant payload hplace)⟩, And.left⟩
  · intro payload
    simp only [List.not_mem_nil, List.mem_singleton, exists_eq_left, false_iff]
    rintro ⟨hlive, hplace, _⟩
    exact hvacant payload hplace hlive

theorem sweepPlace_spec (h : CollectorHolds s) (place : ℕ × ℕ) :
    Swept types s [place] (sweepPlace types s place) := by
  obtain ⟨i, j⟩ := place
  cases hi : s.arenas.arenas[i]? with
  | none =>
    have hdef : sweepPlace types s (i, j) = s := by simp only [sweepPlace, hi]
    rw [hdef]
    refine swept_of_vacant h fun payload hplace _ => ?_
    obtain ⟨entry, hi', _⟩ := atPlace_iff.1 hplace
    rw [hi] at hi'
    cases hi'
  | some entry =>
    by_cases hj : entry.2.isAllocated j = true
    · have hdef : sweepPlace types s (i, j) = s.sweepAt types (entry.2.block j) := by
        simp only [sweepPlace, hi, hj, if_true]
      have hlt := ArenaAt.lt_capacity (h.heap.arenas i entry hi) hj
      have hlive : Live s (Collector.payloadOf (entry.2.block j)) :=
        live_payloadOf.2 ⟨i, entry, j, hi, hj, rfl⟩
      have hplace : ∀ payload, AtPlace s.arenas payload (i, j) ↔
          payload = Collector.payloadOf (entry.2.block j) := by
        intro payload
        rw [atPlace_iff]
        constructor
        · rintro ⟨other, hother, _, rfl⟩
          rw [hi, Option.some.injEq] at hother
          rw [hother]
        · rintro rfl
          exact ⟨entry, hi, hlt, rfl⟩
      rw [hdef]
      obtain ⟨_, _, header, hheader, hdead, hcycle16⟩ := CollectorHolds.live h hlive
      rw [headerOf_payloadOf] at hheader
      have hword : (s.words (entry.2.block j)).asHeader = header := by
        rw [hheader]
        rfl
      have hstored : storedCycle s (Collector.payloadOf (entry.2.block j)) = header.passCycle := by
        rw [storedCycle, headerOf_payloadOf, hword]
      generalize hblock : entry.2.block j = block at *
      rw [Collector.sweepAt]
      simp only [hword, hdead, Bool.false_eq_true, if_false]
      by_cases hcycle : header.passCycle = s.currentPass
      · rw [if_pos hcycle]
        have hsame : ∀ other : ℕ,
            ((s.words.write block (.header { header with marked := false, dead := false }))
              (Collector.headerOf other)).asHeader.typeIndex =
              (s.words (Collector.headerOf other)).asHeader.typeIndex ∧
            ((s.words.write block (.header { header with marked := false, dead := false }))
              (Collector.headerOf other)).asHeader.passCycle =
              (s.words (Collector.headerOf other)).asHeader.passCycle := by
          intro other
          by_cases heq : Collector.headerOf other = block
          · rw [heq, write_same, hword]
            exact ⟨rfl, rfl⟩
          · rw [write_other _ _ heq]
            exact ⟨rfl, rfl⟩
        refine
          { holds := ⟨HeapHolds.writeHeader h.heap (live_payloadOf.1 hlive) rfl hcycle16, h.pass⟩
            region := ⟨rfl, rfl⟩, shape := rfl, contents := rfl, currentPass := rfl, live := ?_
            typeIndex := fun payload _ => (hsame payload).1
            cycle := fun payload _ => (hsame payload).2
            destroyed := ⟨[], rfl, List.nodup_nil, ?_⟩ }
        · intro payload
          simp only [List.mem_singleton, exists_eq_left, hplace]
          refine ⟨fun hlive => ⟨hlive, ?_⟩, And.left⟩
          rintro rfl
          rw [hstored, hcycle]
        · intro payload
          simp only [List.not_mem_nil, List.mem_singleton, exists_eq_left, false_iff, hplace]
          rintro ⟨_, rfl, hne, _⟩
          exact hne (by rw [hstored, hcycle])
      · rw [if_neg hcycle]
        have hfrees : Frees s
            { s with
              arenas := (s.arenas.deallocate s.words block).1
              words := (s.arenas.deallocate s.words block).2
              destroyed :=
                if ((types.findByIndex header.typeIndex).map TypeDescriptor.hasDestroy).getD false
                then Collector.payloadOf block :: s.destroyed else s.destroyed }
            (Collector.payloadOf block) := by
          have hself : s.words.write block (s.words block) = s.words := by
            funext address
            by_cases heq : address = block
            · rw [heq, write_same]
            · rw [write_other _ _ heq]
          refine CollectorHolds.frees h hlive (s.words block) ?_ ?_ rfl rfl
          · rw [headerOf_payloadOf, hself]
          · rw [headerOf_payloadOf, hself]
        have hother : ∀ payload, payload ≠ Collector.payloadOf block → Live s payload →
            (s.arenas.deallocate s.words block).2 (Collector.headerOf payload) =
              s.words (Collector.headerOf payload) := by
          intro payload hne hpayload
          exact hfrees.words _ fun heq => hne (headerOf_injective hpayload hlive heq)
        refine
          { holds := hfrees.holds, region := ?_, shape := ?_, contents := rfl, currentPass := rfl, live := ?_
            typeIndex := ?_, cycle := ?_, destroyed := ?_ }
        · obtain ⟨k, _, old, a, _, harenas, _⟩ := hfrees.shape
          change (s.arenas.deallocate s.words block).1 = _ at harenas
          change (s.arenas.deallocate s.words block).1.regionStart = _ ∧
            (s.arenas.deallocate s.words block).1.regionEnd = _
          rw [harenas]
          exact ⟨rfl, rfl⟩
        · obtain ⟨k, _, old, a, hk, harenas, hcapacity, haddress, _⟩ := hfrees.shape
          change shape (s.arenas.deallocate s.words block).1 = shape s.arenas
          change (s.arenas.deallocate s.words block).1 = _ at harenas
          rw [harenas]
          refine List.ext_getElem? fun l => ?_
          rw [shape, shape, List.getElem?_map, List.getElem?_map, getElem?_setArena,
            Option.map_map]
          by_cases hlk : l = k
          · subst hlk
            rw [hk]
            simp only [Option.map_some, Function.comp, if_true, blocksOf, Option.some.injEq,
              Prod.mk.injEq]
            exact ⟨hcapacity, funext haddress⟩
          · simp [Function.comp_def, hlk]
        · intro payload
          rw [hfrees.live]
          simp only [List.mem_singleton, exists_eq_left, hplace]
          refine and_congr_right fun _ => ⟨fun hne heq => absurd heq hne, ?_⟩
          rintro hkept rfl
          exact hcycle (by rw [← hstored]; exact hkept rfl)
        · intro payload hpayload
          obtain ⟨hold, hne⟩ := (hfrees.live payload).1 hpayload
          change ((s.arenas.deallocate s.words block).2 _).asHeader.typeIndex = _
          rw [hother payload hne hold]
        · intro payload hpayload
          obtain ⟨hold, hne⟩ := (hfrees.live payload).1 hpayload
          change ((s.arenas.deallocate s.words block).2 _).asHeader.passCycle = _
          rw [hother payload hne hold]
          rfl
        · have hdestroys : Destroys types s (Collector.payloadOf block) ↔
              ((types.findByIndex header.typeIndex).map TypeDescriptor.hasDestroy).getD false =
                true := by
            rw [Destroys, headerOf_payloadOf, hword]
          have hmem : ∀ payload, (Live s payload ∧
              (∃ place ∈ [(i, j)], AtPlace s.arenas payload place) ∧
              storedCycle s payload ≠ s.currentPass ∧ Destroys types s payload) ↔
              payload = Collector.payloadOf block ∧ Destroys types s payload := by
            intro payload
            simp only [List.mem_singleton, exists_eq_left, hplace]
            constructor
            · rintro ⟨_, heq, _, hdes⟩
              exact ⟨heq, hdes⟩
            · rintro ⟨rfl, hdes⟩
              exact ⟨hlive, rfl, by rw [hstored]; exact hcycle, hdes⟩
          by_cases hdes : ((types.findByIndex header.typeIndex).map
              TypeDescriptor.hasDestroy).getD false = true
          · refine ⟨[Collector.payloadOf block], by simp [hdes], List.nodup_singleton _, ?_⟩
            intro payload
            rw [hmem, List.mem_singleton]
            exact ⟨fun heq => ⟨heq, by rw [heq]; exact hdestroys.2 hdes⟩, And.left⟩
          · refine ⟨[], by simp [hdes], List.nodup_nil, ?_⟩
            intro payload
            rw [hmem]
            simp only [List.not_mem_nil, false_iff, not_and]
            rintro rfl
            rw [hdestroys]
            exact hdes
    · have hdef : sweepPlace types s (i, j) = s := by
        simp only [sweepPlace, hi, hj, Bool.false_eq_true, if_false]
      rw [hdef]
      refine swept_of_vacant h fun payload hplace hlive => ?_
      obtain ⟨other, hother, hj', _⟩ := atPlace_live h hplace hlive
      rw [hi, Option.some.injEq] at hother
      subst hother
      exact hj hj'

theorem foldl_sweepPlace (h : CollectorHolds s) (seen : List (ℕ × ℕ)) :
    Swept types s seen (seen.foldl (sweepPlace types) s) := by
  induction seen generalizing s with
  | nil => exact Swept.refl h
  | cons place rest ih =>
    have hfirst : Swept types s [place] _ := sweepPlace_spec h place
    exact hfirst.trans (ih hfirst.holds)

theorem Swept.withCursor {seen : List (ℕ × ℕ)} (h : Swept types s seen s') (arena block : ℕ) :
    Swept types s seen (withCursor s' arena block) :=
  { holds := ⟨h.holds.heap, h.holds.pass⟩, region := h.region, shape := h.shape, contents := h.contents
    currentPass := h.currentPass, live := h.live, typeIndex := h.typeIndex, cycle := h.cycle
    destroyed := h.destroyed }

theorem sweepPass_spec (h : CollectorHolds s) {budget : Int} {finished : Bool}
    (hsweep : s.sweepPass types budget = (s', finished)) :
    ∃ seen rest, s.places = seen ++ rest ∧ Swept types s seen s' ∧
      (finished = true → rest = []) ∧ (finished = false → s'.places = rest) := by
  rw [Collector.sweepPass] at hsweep
  by_cases hbudget : budget ≤ 0
  · rw [if_pos hbudget, Prod.mk.injEq] at hsweep
    obtain ⟨rfl, rfl⟩ := hsweep
    exact ⟨[], s.places, rfl, Swept.refl h, nofun, fun _ => rfl⟩
  · rw [if_neg hbudget] at hsweep
    obtain ⟨seen, rest, hplaces, hs', hdone, hstopped⟩ := sweepFrom_spec hsweep
    have hswept : Swept types s seen s' := by
      rw [hs']
      exact (foldl_sweepPlace h seen).withCursor _ _
    refine ⟨seen, rest, hplaces, hswept, hdone, ?_⟩
    intro hfinished
    obtain ⟨before, i, j, rfl, hcursor⟩ := hstopped hfinished
    have hleft : s.places = before ++ (i, j) :: rest := by
      rw [hplaces, List.append_assoc]
      rfl
    exact places_after hleft hswept.shape hcursor

theorem sweepsDone_spec (h : CollectorHolds s) {budgets : List Int}
    (hsweep : SweepsDone types s budgets s') : Swept types s s.places s' := by
  induction hsweep with
  | last hlast =>
    obtain ⟨seen, rest, hplaces, hswept, hdone, _⟩ := sweepPass_spec h hlast
    rw [hplaces, hdone rfl, List.append_nil]
    exact hswept
  | next hfirst _ ih =>
    obtain ⟨seen, rest, hplaces, hswept, _, hstopped⟩ := sweepPass_spec h hfirst
    have hlater := ih hswept.holds
    rw [hstopped rfl] at hlater
    rw [hplaces]
    exact hswept.trans hlater

theorem exists_sweep_takes (types : TypeRegistry κ) (h : CollectorHolds s)
    (hcursor : s.sweepArena = 0 ∧ s.sweepBlock = 0) (hlive : Live s payload)
    (hcycle : storedCycle s payload ≠ s.currentPass) :
    ∃ budget, ¬ Live (s.sweepPass types budget).1 payload := by
  refine ⟨((s.places.length + 1 : ℕ) : Int), ?_⟩
  cases hresult : s.sweepPass types ((s.places.length + 1 : ℕ) : Int) with
  | mk swept finished =>
    have hfinished : finished = true := by
      have hdone : (s.sweepFrom types s.places (s.places.length + 1)).2 = true :=
        sweepFrom_done (Nat.lt_succ_self _)
      rw [Collector.sweepPass, if_neg (by omega), Int.toNat_natCast] at hresult
      rw [hresult] at hdone
      exact hdone
    obtain ⟨seen, rest, hplaces, hswept, hdone, _⟩ := sweepPass_spec h hresult
    rw [hdone hfinished, List.append_nil, places_eq_allPlaces hcursor] at hplaces
    intro hkept
    have hplace := exists_place h hlive
    rw [hplaces] at hplace
    exact hcycle (((hswept.live payload).1 hkept).2 hplace)

end Soot.Analysis
