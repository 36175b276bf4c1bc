import Soot.Analysis.Mutation
import Soot.Program.VirtualMachine

/-!
# Careful runs

Each step of a careful run keeps the invariant: the native functions change the heap as before,
marking closes what it marks under the pointers the delegates visit, and a sweep takes only
what cannot be reached, since all that can is marked when the roots are.
-/

set_option autoImplicit false

namespace Soot.Analysis

open Soot.Program Soot.Model Soot.Computation

variable {host : HeapHost} {fpu : FloatUnit} {s s' : Mutator} {payload target : ℕ}

/-! ## Mark delegates -/

theorem findByIndex_mark {index : ℕ} {td : TypeDescriptor Cells}
    (h : (runtimeTypes host).findByIndex index = some td) :
    td.mark = none ∨ td.mark = some markRuntimeMap ∨ td.mark = some markArrayScalar ∨
      td.mark = some (markArrayPtr host.word) := by
  simp only [runtimeTypes] at h
  split at h
  · cases h
  rw [Option.map_eq_some_iff] at h
  obtain ⟨entry, hentry, rfl⟩ := h
  have hmem := List.mem_of_getElem? hentry
  rw [List.mem_append, List.mem_map] at hmem
  rcases hmem with hbuiltin | ⟨t, _, rfl⟩
  · simp only [registeredTypes, List.mem_cons, List.not_mem_nil, or_false] at hbuiltin
    rcases hbuiltin with rfl | rfl | rfl | rfl | rfl | rfl | rfl | rfl | rfl | rfl | rfl <;> simp
  · exact .inl rfl

/-- Only a buffer of elements is taken for what it is not. -/
theorem holds_of_visits {h : CellHeap} (hvisits : target ∈ h.visits (runtimeTypes host) payload)
    (hother : ∀ pointers, h.contents payload ≠ .elements pointers) :
    Holds h.contents payload target := by
  rw [Collector.visits] at hvisits
  cases htd : (runtimeTypes host).findByIndex
      (h.words (Collector.headerOf payload)).asHeader.typeIndex with
  | none => simp [htd] at hvisits
  | some td =>
    simp only [htd] at hvisits
    rcases findByIndex_mark htd with hmark | hmark | hmark | hmark
    · simp [hmark] at hvisits
    · simp only [hmark, Option.map_some, Option.getD_some, markRuntimeMap] at hvisits
      cases hcell : h.contents payload with
      | map m =>
        simp only [hcell] at hvisits
        split at hvisits
        · cases hvisits
        rw [List.mem_filterMap] at hvisits
        obtain ⟨i, hi, hvalue⟩ := hvisits
        split at hvalue
        · cases hvalue
        rw [Holds, hcell]
        exact .inr (.inr ⟨i, List.mem_range.1 hi, Option.some.inj hvalue⟩)
      | _ => simp [hcell] at hvisits
    · simp [hmark, markArrayScalar] at hvisits
    · simp only [hmark, Option.map_some, Option.getD_some, markArrayPtr] at hvisits
      cases hcell : h.contents payload with
      | array a =>
        simp only [hcell] at hvisits
        split at hvisits
        · cases hvisits
        rw [List.mem_filterMap] at hvisits
        obtain ⟨i, hi, helement⟩ := hvisits
        split at helement
        · cases helement
        rw [Holds, hcell]
        exact .inr ⟨i, List.mem_range.1 hi, Option.some.inj helement⟩
      | elements pointers => exact absurd hcell (hother pointers)
      | _ => simp [hcell] at hvisits

/-! ## Steps of the collector -/

/-- What a step of the collector leaves as it is. -/
structure SameCells (s s' : Mutator) : Prop where
  region : s'.heap.arenas.regionStart = s.heap.arenas.regionStart ∧
    s'.heap.arenas.regionEnd = s.heap.arenas.regionEnd
  contents : s'.heap.contents = s.heap.contents
  roots : s'.roots = s.roots

theorem SameCells.reached (h : SameCells s s') : Reached s' payload ↔ Reached s payload := by
  constructor
  · refine reached_of_cells ⟨h.region.1.symm, h.region.2.symm⟩ h.roots.symm ?_ ?_ <;>
      · intro _ _
        rw [h.contents]
  · refine reached_of_cells h.region h.roots ?_ ?_ <;>
      · intro _ _
        rw [h.contents]

theorem SameCells.holds (h : SameCells s s') (hs : ReachHolds s) (hheap : CollectorHolds s'.heap)
    (hlive : ∀ payload, Reached s payload → Live s'.heap payload)
    (hclosed : ∀ payload target, Reached s payload → Marked s'.heap payload →
      Holds s.heap.contents payload target → InHeap s.heap target → Marked s'.heap target) :
    ReachHolds s' := by
  refine ⟨hheap, by rw [h.region.2]; exact hs.bound, ?_, ?_, ?_, ?_⟩
  · intro payload hreach
    exact hlive payload (h.reached.1 hreach)
  · intro payload target hreach hmarked hholds hin
    rw [h.contents] at hholds
    exact hclosed payload target (h.reached.1 hreach) hmarked hholds ((inHeap_congr h.region).1 hin)
  · intro payload hreach
    rw [h.contents]
    exact hs.fits payload (h.reached.1 hreach)
  · intro payload other hreach hother
    rw [h.contents]
    exact hs.apart payload other (h.reached.1 hreach) (h.reached.1 hother)

theorem release_holds (hs : ReachHolds s) (howned : Owned s.heap payload)
    (hunreached : ¬ Reached s payload) : ReachHolds ⟨s.heap.release payload, s.roots⟩ := by
  rcases CollectorHolds.release hs.heap howned with ⟨_, heq⟩ | ⟨hlive, hfrees⟩
  · rw [heq]
    exact hs
  have hregion : (s.heap.release payload).arenas.regionStart = s.heap.arenas.regionStart ∧
      (s.heap.release payload).arenas.regionEnd = s.heap.arenas.regionEnd := by
    obtain ⟨_, _, _, _, _, harenas, _⟩ := hfrees.shape
    rw [harenas]
    exact ⟨rfl, rfl⟩
  have hsame : SameCells s ⟨s.heap.release payload, s.roots⟩ := ⟨hregion, hfrees.contents, rfl⟩
  have hne : ∀ other, Reached s other → other ≠ payload := by
    rintro other hother rfl
    exact hunreached hother
  have hmarked : ∀ other, Reached s other →
      (Marked (s.heap.release payload) other ↔ Marked s.heap other) := by
    intro other hother
    have hword := hfrees.words (Collector.headerOf other) fun heq =>
      hne other hother (headerOf_injective (hs.live other hother) hlive heq)
    rw [Marked, Marked, storedCycle, storedCycle, hword, hfrees.currentPass]
  refine hsame.holds hs hfrees.holds ?_ ?_
  · intro other hother
    exact (hfrees.live other).2 ⟨hs.live other hother, hne other hother⟩
  · intro other target hother hmark hholds hin
    exact (hmarked target (.step hother hholds hin)).2
      (hs.closed other target hother ((hmarked other hother).1 hmark) hholds hin)

theorem startPass_holds (hs : ReachHolds s)
    (hcareful : Careful host s .startPass) : ReachHolds ⟨s.heap.startPass, s.roots⟩ := by
  have hsame : SameCells s ⟨s.heap.startPass, s.roots⟩ := ⟨⟨rfl, rfl⟩, rfl, rfl⟩
  exact hsame.holds hs ⟨hs.heap.heap, nextCycle_lt _⟩ hs.live hcareful

theorem inHeap_of_skips {h : CellHeap}
    (hskips : (tracing (runtimeTypes host)).skips h payload = false) : InHeap h payload := by
  obtain ⟨hne, howns, _⟩ := skips_eq_false.1 hskips
  exact ⟨hne, howns⟩

theorem reach_of_fresh {slot : ℕ}
    (h : (tracing (runtimeTypes host)).Fresh s.heap (s.roots slot).address payload) :
    Reach (runtimeTypes host) s.heap (fun other => ¬ Marked s.heap other)
      [(s.roots slot).address] payload := by
  induction h with
  | here hskips =>
    exact .root List.mem_cons_self (inHeap_of_skips hskips) (skips_eq_false.1 hskips).2.2.2
  | step _ hmem hskips ih =>
    exact .step ih hmem (inHeap_of_skips hskips) (skips_eq_false.1 hskips).2.2.2

/-- What a root is marked with can be reached, as long as no block is misread on the way. -/
theorem reached_of_fresh {slot : ℕ} (hcareful : Careful host s (.mark slot))
    (h : (tracing (runtimeTypes host)).Fresh s.heap (s.roots slot).address payload) :
    Reached s payload := by
  induction h with
  | here hskips => exact .root slot (inHeap_of_skips hskips)
  | @step other target hbefore hmem hskips ih =>
    have hin := inHeap_of_skips hskips
    have hunmarked : ¬ Marked s.heap target := (skips_eq_false.1 hskips).2.2.2
    by_cases hholds : Holds s.heap.contents other target
    · exact .step ih hholds hin
    · exact absurd (hcareful other target (reach_of_fresh hbefore) (.inr ⟨hmem, hholds⟩) hin)
        hunmarked

theorem mark_holds (hs : ReachHolds s) {slot depth : ℕ} {heap : CellHeap}
    (hcareful : Careful host s (.mark slot))
    (hmark : s.heap.markObject (runtimeTypes host) depth (s.roots slot).address = some heap) :
    ReachHolds ⟨heap, s.roots⟩ := by
  obtain ⟨objects, hmarks, hobjects⟩ := CollectorHolds.mark hs.heap
    (fun last hfresh => hs.live last (reached_of_fresh hcareful hfresh)) hmark
  have hsame : SameCells s ⟨heap, s.roots⟩ := by
    refine ⟨?_, hmarks.contents, rfl⟩
    change heap.arenas.regionStart = _ ∧ heap.arenas.regionEnd = _
    rw [hmarks.arenas]
    exact ⟨rfl, rfl⟩
  have hmarked : ∀ other, Reached s other →
      (Marked heap other ↔ other ∈ objects ∨ Marked s.heap other) := by
    intro other hother
    rw [Marked, Marked, storedCycle, hmarks.cycle other (hs.live other hother), hmarks.currentPass]
    by_cases hmem : other ∈ objects
    · simp [hmem]
    · simp only [hmem, false_or]
      rfl
  have hunmarked : ∀ other, Reached s other → ¬ Marked s.heap other →
      (tracing (runtimeTypes host)).skips s.heap other = false := by
    intro other hother hnot
    obtain ⟨hne, howns, header, hheader, hdead, _⟩ :=
      CollectorHolds.live hs.heap (hs.live other hother)
    refine skips_eq_false.2 ⟨hne, howns, ?_, hnot⟩
    rw [hheader]
    exact hdead
  refine hsame.holds hs hmarks.holds ?_ ?_
  · intro other hother
    exact (live_congr hmarks.arenas).2 (hs.live other hother)
  · intro other target hother hmark' hholds hin
    have htarget : Reached s target := .step hother hholds hin
    rw [hmarked target htarget]
    rcases (hmarked other hother).1 hmark' with hmem | hold
    · have hfresh := (hobjects other).1 hmem
      by_cases hvisits : target ∈ s.heap.visits (runtimeTypes host) other
      · by_cases hold : Marked s.heap target
        · exact .inr hold
        · exact .inl ((hobjects target).2 (.step hfresh hvisits (hunmarked target htarget hold)))
      · exact .inr (hcareful other target (reach_of_fresh hfresh) (.inl ⟨hholds, hvisits⟩) hin)
    · exact .inr (hs.closed other target hother hold hholds hin)

theorem marked_of_roots (hs : ReachHolds s) {budget : Int}
    (hcareful : Careful host s (.sweep budget)) (hreach : Reached s payload) :
    Marked s.heap payload := by
  induction hreach with
  | root slot hin => exact hcareful slot hin
  | step hbefore hholds hin ih => exact hs.closed _ _ hbefore ih hholds hin

theorem sweep_holds (hs : ReachHolds s) {budget : Int}
    (hcareful : Careful host s (.sweep budget)) :
    ReachHolds ⟨(s.heap.sweepPass (runtimeTypes host) budget).1, s.roots⟩ ∧
      (∀ payload, Reached s payload →
        Live (s.heap.sweepPass (runtimeTypes host) budget).1 payload) ∧
      ∃ destroyed, (s.heap.sweepPass (runtimeTypes host) budget).1.destroyed =
        destroyed ++ s.heap.destroyed ∧ ∀ payload ∈ destroyed, ¬ Reached s payload := by
  cases hresult : s.heap.sweepPass (runtimeTypes host) budget with
  | mk heap finished =>
    obtain ⟨seen, _, _, hswept, _⟩ := sweepPass_spec hs.heap hresult
    have hlive : ∀ payload, Reached s payload → Live heap payload := by
      intro payload hreach
      exact (hswept.live payload).2
        ⟨hs.live payload hreach, fun _ => marked_of_roots hs hcareful hreach⟩
    have hmarked : ∀ payload, Reached s payload →
        (Marked heap payload ↔ Marked s.heap payload) := by
      intro payload hreach
      rw [Marked, Marked, hswept.cycle payload (hlive payload hreach), hswept.currentPass]
    have hsame : SameCells s ⟨heap, s.roots⟩ := ⟨hswept.region, hswept.contents, rfl⟩
    refine ⟨hsame.holds hs hswept.holds hlive ?_, hlive, ?_⟩
    · intro payload target hreach hmark hholds hin
      exact (hmarked target (.step hreach hholds hin)).2
        (hs.closed payload target hreach ((hmarked payload hreach).1 hmark) hholds hin)
    · obtain ⟨destroyed, heq, _, hmem⟩ := hswept.destroyed
      refine ⟨destroyed, heq, fun payload hpayload hreach => ?_⟩
      exact ((hmem payload).1 hpayload).2.2.1 (marked_of_roots hs hcareful hreach)

/-! ## Runs -/

theorem setField_holds (hs : ReachHolds s) {field : ℕ} {fields : ℕ → Variant} {value : Variant}
    (hvalue : InRegister s value) (hmay : MayStore s payload value)
    (hcell : s.heap.contents payload = .object fields) :
    ReachHolds ⟨CellHeap.setCell s.heap payload
      (.object fun other => if other = field then value else fields other), s.roots⟩ := by
  refine (setCell_container hs (by rw [hcell]; exact id) id (fun _ hnew => hnew.elim) ?_ ?_ ?_ :
    Mutates s _ fun _ => False).holds hs
  · intro target hholds hin
    rw [Holds, set_same] at hholds
    rw [Holds, hcell]
    obtain ⟨i, hi'⟩ := hholds
    change (if i = field then value else fields i).address = target at hi'
    by_cases hi : i = field
    · rw [if_pos hi] at hi'
      subst hi'
      exact .inr (.inr ⟨InRegister.reached hvalue hin, fun hmarked => hmay hmarked hin⟩)
    · rw [if_neg hi] at hi'
      exact .inl ⟨i, hi'⟩
  · rw [CellFits, set_same]
    trivial
  · left
    rw [bufferOf, bufferOf, set_same, hcell]

theorem ActionStep.holds {action : Action} (hs : ReachHolds s)
    (hcareful : Careful host s action) (hstep : ActionStep host fpu s action s') :
    ReachHolds s' := by
  cases hstep with
  | @allocate slot sid size payload heap halloc =>
    rw [CellHeap.allocObject, Option.map_eq_some_iff] at halloc
    obtain ⟨⟨allocated, address⟩, halloc, heq⟩ := halloc
    have hnew := newObject_holds hs slot (isBlank_blankCell sid) halloc
    by_cases hzero : address = 0
    · simp only [if_pos hzero, Prod.mk.injEq] at hnew heq
      obtain ⟨rfl, rfl⟩ := heq
      exact hnew
    · simp only [if_neg hzero, Prod.mk.injEq] at hnew heq
      obtain ⟨rfl, rfl⟩ := heq
      exact hnew
  | @makeMap slot value heap hmake =>
    rw [CellHeap.makeMap, Option.map_eq_some_iff] at hmake
    obtain ⟨⟨allocated, address⟩, halloc, heq⟩ := hmake
    have hblank : IsBlank (.map ⟨0, 0, 0, 0⟩) := ⟨rfl, rfl, rfl, rfl⟩
    have hnew := newObject_holds hs slot hblank halloc
    by_cases hzero : address = 0
    · simp only [if_pos hzero, Prod.mk.injEq] at hnew heq
      obtain ⟨rfl, rfl⟩ := heq
      rw [hzero] at hnew
      exact hnew
    · simp only [if_neg hzero, Prod.mk.injEq] at hnew heq
      obtain ⟨rfl, rfl⟩ := heq
      exact hnew
  | @makeArray slot kind value heap hmake =>
    rw [CellHeap.makeArray, Option.map_eq_some_iff] at hmake
    obtain ⟨⟨allocated, address⟩, halloc, heq⟩ := hmake
    have hblank : IsBlank (.array ⟨0, 0, 0, CellHeap.elemSizeFor kind⟩) := ⟨rfl, rfl, rfl⟩
    have hnew := newObject_holds hs slot hblank halloc
    by_cases hzero : address = 0
    · simp only [if_pos hzero, Prod.mk.injEq] at hnew heq
      obtain ⟨rfl, rfl⟩ := heq
      rw [hzero] at hnew
      exact hnew
    · simp only [if_neg hzero, Prod.mk.injEq] at hnew heq
      obtain ⟨rfl, rfl⟩ := heq
      exact hnew
  | setRoot hhas => exact setRoot_holds hs fun hin => .inl (hhas hin)
  | setField hin hobject hvalue hcell => exact setField_holds hs hvalue hcareful hcell
  | mapSet hmap hin hvalue hset => exact mapSet_holds hs hmap hin hvalue hcareful hset
  | push harray hin hvalue hpush => exact arrayPush_holds hs harray hin hvalue hcareful hpush
  | release howned hunreached => exact release_holds hs howned hunreached
  | startPass => exact startPass_holds hs hcareful
  | mark hmark => exact mark_holds hs hcareful hmark
  | sweep => exact (sweep_holds hs hcareful).1
  | finishPass =>
    have hsame : SameCells s ⟨s.heap.finishPass, s.roots⟩ := ⟨⟨rfl, rfl⟩, rfl, rfl⟩
    exact hsame.holds hs ⟨hs.heap.heap, hs.heap.pass⟩ hs.live hs.closed

theorem CarefulRun.holds {actions : List Action} (hs : ReachHolds s)
    (hrun : CarefulRun host fpu s actions s') : ReachHolds s' := by
  induction hrun with
  | nil => exact hs
  | cons hcareful hstep _ ih => exact ih (ActionStep.holds hs hcareful hstep)

theorem initial_reachHolds {start size : ℕ} (hregion : Reserved start size)
    (hbound : start + size ≤ 2 ^ 64) : ReachHolds (Mutator.initial start size) := by
  have hnone : ∀ payload, ¬ Reached (Mutator.initial start size) payload := by
    intro payload hreach
    induction hreach with
    | root slot hin => exact hin.1 rfl
    | step _ _ _ ih => exact ih
  exact ⟨initial_holds hregion _, hbound, fun p hp => absurd hp (hnone p),
    fun p _ hp => absurd hp (hnone p), fun p hp => absurd hp (hnone p),
    fun p _ hp => absurd hp (hnone p)⟩

/-- A mutator with sixteen megabytes from the first page on. -/
def emptyMutator : Mutator := Mutator.initial 4096 (16 * 1024 * 1024)

/-- A map in the first register. -/
def withMap : Mutator :=
  let made := (CellHeap.makeMap (runtimeTypes bareHost) emptyMutator.heap).getD
    (emptyMutator.heap, .null)
  emptyMutator.setRoot made.1 0 made.2

/-- An integer in the second. -/
def withValue : Mutator := withMap.setRoot withMap.heap 1 (.int 7)

/-- The integer is put into the map, under a key. -/
def withEntry : Mutator :=
  ⟨((CellHeap.mapSet (runtimeTypes bareHost) withValue.heap (withValue.roots 0) 5 (.int 7)).getD
    (withValue.heap, .null)).1, withValue.roots⟩

/-- A pass has started and its only root is marked. -/
def withMark : Mutator :=
  ⟨((withEntry.heap.startPass.markObject (runtimeTypes bareHost) 2
    (withEntry.roots 0).address).getD withEntry.heap), withEntry.roots⟩

theorem eq_some_getD {α : Type} {o : Option α} (d : α) (h : o.isSome = true) :
    o = some (o.getD d) := by
  cases o with
  | none => cases h
  | some x => rfl

set_option maxRecDepth 20000 in
theorem withMap_makes : CellHeap.makeMap (runtimeTypes bareHost) emptyMutator.heap =
    some ((CellHeap.makeMap (runtimeTypes bareHost) emptyMutator.heap).getD
      (emptyMutator.heap, .null)) := eq_some_getD _ (by with_unfolding_all decide)

set_option maxRecDepth 20000 in
theorem withEntry_sets :
    CellHeap.mapSet (runtimeTypes bareHost) withValue.heap (withValue.roots 0) 5 (.int 7) =
      some ((CellHeap.mapSet (runtimeTypes bareHost) withValue.heap (withValue.roots 0) 5
        (.int 7)).getD (withValue.heap, .null)) := eq_some_getD _ (by with_unfolding_all decide)

set_option maxRecDepth 20000 in
theorem withMark_marks : withEntry.heap.startPass.markObject (runtimeTypes bareHost) 2
    (withEntry.roots 0).address =
      some ((withEntry.heap.startPass.markObject (runtimeTypes bareHost) 2
        (withEntry.roots 0).address).getD withEntry.heap) :=
          eq_some_getD _ (by with_unfolding_all decide)

set_option maxRecDepth 20000 in
theorem withValue_inHeap : InHeap withValue.heap (withValue.roots 0).address := by
  exact ⟨by decide, by with_unfolding_all decide⟩

set_option maxRecDepth 20000 in
theorem withMap_marked : Marked withMap.heap (withMap.roots 0).address := by
  rw [Marked]
  with_unfolding_all decide

theorem withMark_run : ActionRun bareHost bareRuntime.fpu emptyMutator
    [.makeMap 0, .setRoot 1 (.int 7), .mapSet (withValue.roots 0) 5 (.int 7), .startPass, .mark 0]
    withMark := by
  refine .cons (.makeMap withMap_makes) (.cons (.setRoot fun hin => absurd rfl hin.1) ?_)
  refine .cons (.mapSet ⟨0, rfl⟩ (fun _ => withValue_inHeap) ⟨1, rfl⟩ withEntry_sets) ?_
  exact .cons .startPass (.cons (.mark withMark_marks) .nil)

theorem withEntry_holds : ReachHolds withEntry := by
  have hstep : ActionStep bareHost bareRuntime.fpu emptyMutator (.makeMap 0) withMap :=
    .makeMap withMap_makes
  have hcareful : Careful bareHost emptyMutator (.makeMap 0) := trivial
  have hmap : ReachHolds withMap :=
    ActionStep.holds (initial_reachHolds ⟨by decide, by decide⟩ (by decide)) hcareful hstep
  have hvalue : ReachHolds withValue := setRoot_holds hmap fun hin => absurd rfl hin.1
  exact mapSet_holds hvalue ⟨0, rfl⟩ (fun _ => withValue_inHeap) ⟨1, rfl⟩
    (fun _ hin => absurd rfl hin.1) withEntry_sets

/-- A root that holds nothing its delegate visits is marked alone. -/
theorem startPass_mark_holds (hs : ReachHolds s) {slot depth : ℕ} {heap : CellHeap}
    (hvisits : s.heap.startPass.visits (runtimeTypes host) (s.roots slot).address = [])
    (hmark : s.heap.startPass.markObject (runtimeTypes host) depth (s.roots slot).address =
      some heap) : CollectorHolds heap ∧ heap.sweepArena = 0 ∧ heap.sweepBlock = 0 := by
  have hstarted : CollectorHolds s.heap.startPass :=
    ⟨hs.heap.heap, nextCycle_lt s.heap.currentPass⟩
  have hroot : ∀ last, (tracing (runtimeTypes host)).Fresh s.heap.startPass
      (s.roots slot).address last → last = (s.roots slot).address := by
    intro last hfresh
    induction hfresh with
    | here => rfl
    | @step other target _ hmem _ ih =>
      change target ∈ s.heap.startPass.visits (runtimeTypes host) other at hmem
      rw [ih, hvisits] at hmem
      cases hmem
  have hlive : ∀ last, (tracing (runtimeTypes host)).Fresh s.heap.startPass
      (s.roots slot).address last → Live s.heap.startPass last := by
    intro last hfresh
    have hin : InHeap s.heap.startPass (s.roots slot).address := by
      cases hroot last hfresh
      cases hfresh with
      | here hskips => exact inHeap_of_skips hskips
      | step _ _ hskips => exact inHeap_of_skips hskips
    rw [hroot last hfresh]
    exact hs.live _ (.root slot hin)
  obtain ⟨_, hmarks, _⟩ := CollectorHolds.mark hstarted hlive hmark
  exact ⟨hmarks.holds, hmarks.cursor.1, hmarks.cursor.2⟩

set_option maxRecDepth 20000 in
theorem withEntry_visits : withEntry.heap.startPass.visits (runtimeTypes bareHost)
    (withEntry.roots 0).address = [] := by with_unfolding_all decide

theorem withMark_holds : CollectorHolds withMark.heap ∧ withMark.heap.sweepArena = 0 ∧
    withMark.heap.sweepBlock = 0 := startPass_mark_holds withEntry_holds withEntry_visits withMark_marks

/-- The keys of a map are in a block. -/
def keysIn (c : Cells) (map buffer : ℕ) : Bool :=
  match c map with
  | .map m => m.keys == buffer
  | _ => false

theorem holds_of_keysIn {c : Cells} {map buffer : ℕ} (h : keysIn c map buffer = true) :
    Holds c map buffer := by
  rw [keysIn] at h
  rw [Holds]
  cases hcell : c map with
  | map m =>
    simp only [hcell, beq_iff_eq] at h
    exact .inl h.symm
  | _ => simp [hcell] at h

set_option maxRecDepth 20000 in
theorem withMark_keys : Reached withMark 1052680 ∧ Live withMark.heap 1052680 ∧
    ¬ Marked withMark.heap 1052680 := by
  have hroot : (withMark.roots 0).address = 4104 := by with_unfolding_all decide
  have hin : InHeap withMark.heap 4104 := ⟨by decide, by with_unfolding_all decide⟩
  have hmap : Reached withMark 4104 := by
    rw [← hroot] at hin ⊢
    exact .root 0 hin
  refine ⟨.step hmap (holds_of_keysIn (by with_unfolding_all decide)) ⟨by decide,
    by with_unfolding_all decide⟩,
    live_of_allocated 1 0 1052672 (by with_unfolding_all decide), ?_⟩
  rw [Marked]
  with_unfolding_all decide

end Soot.Analysis
