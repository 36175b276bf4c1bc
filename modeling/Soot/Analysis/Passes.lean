import Soot.Analysis.HeapRuns

/-!
# What a complete pass leaves

Marking gives the number of the pass to what the roots lead to past the objects that have it
already, and a complete sweep leaves what has that number. So a pass is exact when the objects
that had the number before it are reachable and hide nothing, and only then.
-/

set_option autoImplicit false

namespace Soot.Model.Reach

open Soot.Program

variable {κ : Type} {types : TypeRegistry κ} {s : Collector κ} {roots : List ℕ} {payload : ℕ}

theorem mono {along along' : ℕ → Prop} (hle : ∀ other, along other → along' other)
    (h : Reach types s along roots payload) : Reach types s along' roots payload := by
  induction h with
  | root hmem hheap halong => exact .root hmem hheap (hle _ halong)
  | step _ hmem hheap halong ih => exact .step ih hmem hheap (hle _ halong)

theorem inHeap {along : ℕ → Prop} (h : Reach types s along roots payload) :
    InHeap s payload ∧ along payload := by
  cases h with
  | root _ hheap halong => exact ⟨hheap, halong⟩
  | step _ _ hheap halong => exact ⟨hheap, halong⟩

end Soot.Model.Reach

namespace Soot.Analysis

open Soot.Program Soot.Model Soot.Computation

variable {κ : Type} {types : TypeRegistry κ} {s s' : Collector κ} {roots : List ℕ}
  {payload : ℕ}

theorem markRoots_eq_runAll (depth : ℕ) (s : Collector κ) (roots : List ℕ) :
    markRoots types depth s roots = (tracing types).runAll depth s roots := by
  simp only [markRoots, Traversal.runAll, markObject_eq_run]

theorem startPass_skips (h : CollectorHolds s) (hlive : Live s payload) :
    (tracing types).skips s.startPass payload = false ↔ ¬ Stale s payload := by
  obtain ⟨hne, howns, header, hheader, hdead, _⟩ := CollectorHolds.live h hlive
  change s.startPass.skips payload = false ↔ _
  rw [skips_eq_false]
  change (payload ≠ 0 ∧ s.arenas.owns payload = true ∧
    (s.words (Collector.headerOf payload)).asHeader.dead = false ∧
      storedCycle s payload ≠ Collector.nextCycle s.currentPass) ↔ _
  have hdead' : (s.words (Collector.headerOf payload)).asHeader.dead = false := by
    rw [hheader]
    exact hdead
  exact ⟨fun h => h.2.2.2, fun hstale => ⟨hne, howns, hdead', hstale⟩⟩

theorem freshFrom_startPass (h : CollectorHolds s)
    (hheap : ∀ payload, Reachable types s roots payload → Live s payload) :
    (tracing types).FreshFrom s.startPass roots payload ↔
      Reach types s (fun other => ¬ Stale s other) roots payload := by
  have hunseen : ∀ other, (tracing types).skips s.startPass other = false →
      InHeap s other ∧ ¬ Stale s other := by
    intro other hother
    obtain ⟨hne, howns, _, hcycle⟩ := skips_eq_false.1 hother
    exact ⟨⟨hne, howns⟩, hcycle⟩
  constructor
  · rintro ⟨root, hroot, hfresh⟩
    induction hfresh with
    | here hskips =>
      obtain ⟨hin, hstale⟩ := hunseen root hskips
      exact .root hroot hin hstale
    | step _ hmem hskips ih =>
      obtain ⟨hin, hstale⟩ := hunseen _ hskips
      exact .step ih hmem hin hstale
  · intro hreach
    have hskips : ∀ other, Reach types s (fun other => ¬ Stale s other) roots other →
        (tracing types).skips s.startPass other = false := by
      intro other hother
      exact (startPass_skips h (hheap other (hother.mono fun _ _ => trivial))).2
        hother.inHeap.2
    induction hreach with
    | root hmem hin hstale => exact ⟨_, hmem, .here (hskips _ (.root hmem hin hstale))⟩
    | step hbefore hmem hin hstale ih =>
      obtain ⟨root, hroot, hfresh⟩ := ih
      exact ⟨root, hroot, .step hfresh hmem (hskips _ (.step hbefore hmem hin hstale))⟩

/-- The live objects, each at its place. -/
def liveBound (s : Collector κ) : Finset ℕ :=
  ((Collector.allPlaces s.arenas).map fun place =>
    (((shape s.arenas)[place.1]?).map fun blocks =>
      Collector.payloadOf (blocks.2 place.2)).getD 0).toFinset

theorem mem_liveBound (h : CollectorHolds s) (hlive : Live s payload) :
    payload ∈ liveBound s := by
  obtain ⟨place, hplace, blocks, hblocks, _, rfl⟩ := exists_place h hlive
  refine List.mem_toFinset.2 (List.mem_map.2 ⟨place, hplace, ?_⟩)
  rw [hblocks]
  rfl

theorem markRoots_returns (h : CollectorHolds s)
    (hheap : ∀ payload, Reachable types s roots payload → Live s payload) :
    ∃ depth marked, markRoots types depth s.startPass roots = some marked := by
  have hmarkable : Markable s.startPass :=
    ⟨nextCycle_lt s.currentPass, h.heap.aligned, h.heap.placed⟩
  obtain ⟨marked, hmarked⟩ := Traversal.runAll_returns ((liveBound s).card + 1) (liveBound s)
    (tracing_lawful : (tracing types).Lawful Markable)
    (fun t root ht hbound => Traversal.run_returns tracing_lawful ht hbound (Nat.lt_succ_self _))
    hmarkable fun other (hother : (tracing types).FreshFrom s.startPass roots other) =>
      mem_liveBound h
        (hheap other (((freshFrom_startPass h hheap).1 hother).mono fun _ _ => trivial))
  exact ⟨_, marked, by rw [markRoots_eq_runAll]; exact hmarked⟩

theorem markRoots_spec (h : CollectorHolds s)
    (hheap : ∀ payload, Reachable types s roots payload → Live s payload) {depth : ℕ}
    {marked : Collector κ} (hmark : markRoots types depth s.startPass roots = some marked) :
    ∃ objects, Marks s.startPass marked objects ∧
      ∀ payload, payload ∈ objects ↔
        Reach types s (fun other => ¬ Stale s other) roots payload := by
  rw [markRoots_eq_runAll] at hmark
  have hstart : CollectorHolds s.startPass := ⟨h.heap, nextCycle_lt s.currentPass⟩
  obtain ⟨objects, hentered, hmem⟩ :=
    Traversal.runAll_entered tracing_lawful (CollectorHolds.markable hstart) hmark
  have hobjects : ∀ payload, payload ∈ objects ↔
      Reach types s (fun other => ¬ Stale s other) roots payload := by
    intro payload
    rw [hmem payload, freshFrom_startPass h hheap]
  refine ⟨objects, marks_of_entered hstart hentered fun payload hpayload => ?_, hobjects⟩
  exact hheap payload (((hobjects payload).1 hpayload).mono fun _ _ => trivial)

/-- What a complete pass leaves and destroys. -/
structure PassLeaves (types : TypeRegistry κ) (s : Collector κ) (kept : ℕ → Prop)
    (swept : Collector κ) : Prop where
  live : ∀ payload, Live swept payload ↔ Live s payload ∧ kept payload
  destroyed : ∃ destroyed, swept.destroyed = destroyed ++ s.destroyed ∧ destroyed.Nodup ∧
    ∀ payload, payload ∈ destroyed ↔ Live s payload ∧ ¬ kept payload ∧ Destroys types s payload

theorem pass_leaves (h : CollectorHolds s)
    (hheap : ∀ payload, Reachable types s roots payload → Live s payload) {depth : ℕ}
    {marked swept : Collector κ} {budgets : List Int}
    (hmark : markRoots types depth s.startPass roots = some marked)
    (hsweep : SweepsDone types marked budgets swept) :
    PassLeaves types s (fun payload =>
      Reach types s (fun other => ¬ Stale s other) roots payload ∨ Stale s payload) swept := by
  obtain ⟨objects, hmarks, hobjects⟩ := markRoots_spec h hheap hmark
  have hswept := sweepsDone_spec hmarks.holds hsweep
  have hplaces : marked.places = Collector.allPlaces marked.arenas :=
    places_eq_allPlaces ⟨hmarks.cursor.1, hmarks.cursor.2⟩
  rw [hplaces] at hswept
  have hlive : ∀ payload, Live marked payload ↔ Live s payload :=
    fun payload => live_congr hmarks.arenas
  have hplace : ∀ payload, Live marked payload →
      ∃ place ∈ Collector.allPlaces marked.arenas, AtPlace marked.arenas payload place :=
    fun payload hpayload => exists_place hmarks.holds hpayload
  have hcycle : ∀ payload, Live s payload →
      (storedCycle marked payload = marked.currentPass ↔
        Reach types s (fun other => ¬ Stale s other) roots payload ∨ Stale s payload) := by
    intro payload hpayload
    have hstored := hmarks.cycle payload hpayload
    rw [storedCycle, hstored, hmarks.currentPass, ← hobjects payload]
    by_cases hmem : payload ∈ objects
    · simp [hmem]
    · simp only [hmem, false_or]
      rfl
  refine ⟨?_, ?_⟩
  · intro payload
    rw [hswept.live payload, hlive payload]
    constructor
    · rintro ⟨hpayload, hkept⟩
      exact ⟨hpayload, (hcycle payload hpayload).1 (hkept (hplace payload ((hlive _).2 hpayload)))⟩
    · rintro ⟨hpayload, hkept⟩
      exact ⟨hpayload, fun _ => (hcycle payload hpayload).2 hkept⟩
  · obtain ⟨destroyed, heq, hnodup, hmem⟩ := hswept.destroyed
    refine ⟨destroyed, by rw [heq, hmarks.destroyed]; rfl, hnodup, ?_⟩
    intro payload
    rw [hmem payload, hlive payload]
    constructor
    · rintro ⟨hpayload, _, hne, hdestroys⟩
      refine ⟨hpayload, fun hkept => hne ((hcycle payload hpayload).2 hkept), ?_⟩
      rw [Destroys, hmarks.typeIndex payload hpayload] at hdestroys
      exact hdestroys
    · rintro ⟨hpayload, hkept, hdestroys⟩
      refine ⟨hpayload, hplace payload ((hlive _).2 hpayload),
        fun heq => hkept ((hcycle payload hpayload).1 heq), ?_⟩
      rw [Destroys, hmarks.typeIndex payload hpayload]
      exact hdestroys

/-- After every run, a complete pass over a heap without dangling pointers is exact if and only
if what has the number of the pass beforehand is reachable and hides nothing; and its marking
returns. -/
theorem exact_iff_nothingMistaken {start size : ℕ} (hregion : Reserved start size) (contents : κ)
    {requests : List (HeapRequest κ)}
    (hrun : HeapRun types (Collector.initial start size contents) requests s)
    (hheap : ∀ payload, Reachable types s roots payload → Live s payload) :
    (∃ depth marked, markRoots types depth s.startPass roots = some marked) ∧
      ∀ (depth : ℕ) (marked swept : Collector κ) (budgets : List Int),
        markRoots types depth s.startPass roots = some marked →
        SweepsDone types marked budgets swept →
        (Exact types s roots swept ↔ NothingMistaken types s roots) := by
  have h := HeapRun.holds (initial_holds hregion contents) hrun
  refine ⟨markRoots_returns h hheap, ?_⟩
  intro depth marked swept budgets hmark hsweep
  have hleaves := pass_leaves h hheap hmark hsweep
  have hpast : ∀ payload, Reach types s (fun other => ¬ Stale s other) roots payload →
      Reachable types s roots payload := fun payload hreach => hreach.mono fun _ _ => trivial
  constructor
  · rintro ⟨hexact, _⟩
    refine ⟨?_, ?_⟩
    · intro payload hlive hstale
      exact (hexact payload).1 ((hleaves.live payload).2 ⟨hlive, .inr hstale⟩)
    · intro payload hreach hstale
      obtain ⟨_, hkept⟩ := (hleaves.live payload).1 ((hexact payload).2 hreach)
      exact hkept.resolve_right hstale
  · rintro ⟨hstale, hhidden⟩
    have hkept : ∀ payload, Live s payload →
        ((Reach types s (fun other => ¬ Stale s other) roots payload ∨ Stale s payload) ↔
          Reachable types s roots payload) := by
      intro payload hlive
      constructor
      · rintro (hreach | hnumber)
        · exact hpast payload hreach
        · exact hstale payload hlive hnumber
      · intro hreach
        by_cases hnumber : Stale s payload
        · exact .inr hnumber
        · exact .inl (hhidden payload hreach hnumber)
    refine ⟨?_, ?_⟩
    · intro payload
      rw [hleaves.live payload]
      constructor
      · rintro ⟨hlive, hpayload⟩
        exact (hkept payload hlive).1 hpayload
      · intro hreach
        exact ⟨hheap payload hreach, (hkept payload (hheap payload hreach)).2 hreach⟩
    · obtain ⟨destroyed, heq, hnodup, hmem⟩ := hleaves.destroyed
      refine ⟨destroyed, heq, hnodup, ?_⟩
      intro payload
      rw [hmem payload]
      refine and_congr_right fun hlive => and_congr_left fun _ => not_congr (hkept payload hlive)

/-! ## A heap with one object -/

theorem reachable_untyped {s : Collector Unit} {roots : List ℕ} {payload : ℕ}
    (h : Reachable untyped s roots payload) : payload ∈ roots := by
  cases h with
  | root hmem _ _ => exact hmem
  | step _ hmem _ _ => cases hmem

/-- An object that was allocated in a pass, fifteen starts of a pass later. -/
def wrapped : Collector Unit := (Collector.startPass)^[14] (allocated smallHeap.startPass)

/-- One type: the object at the beginning of the heap points to the second one. -/
def pointing : TypeRegistry Unit :=
  { untyped with
    findByIndex := fun _ =>
      some ⟨4000, some fun _ payload => if payload = 4104 then [8200] else [], true⟩ }

/-- Three objects. -/
def threeObjects : Collector Unit := allocated (allocated (allocated smallHeap))

def threeMarked : Collector Unit :=
  (markRoots pointing 3 threeObjects.startPass [4104]).getD threeObjects

/-- The first object is a root and leads to the second; the third is destroyed. -/
theorem exact_iff_nothingMistaken_three : ∃ swept,
    SweepsDone pointing threeMarked [2, 10] swept ∧ swept.destroyed = [12296] ∧
      (Exact pointing threeObjects [4104] swept ↔
        NothingMistaken pointing threeObjects [4104]) := by
  have hrun : HeapRun pointing smallHeap [.alloc 0 4000, .alloc 0 4000, .alloc 0 4000]
      threeObjects :=
    .cons trivial (allocated_eq pointing rfl (by decide)) <|
      .cons trivial (allocated_eq pointing rfl (by decide)) <|
      .cons trivial (allocated_eq pointing rfl (by decide)) .nil
  have hlive : ∀ payload, Reachable pointing threeObjects [4104] payload →
      Live threeObjects payload := by
    intro payload hreach
    have hpayload : payload = 4104 ∨ payload = 8200 := by
      cases hreach with
      | root hmem _ _ => exact .inl (List.mem_singleton.mp hmem)
      | @step other _ _ hmem _ _ =>
        have hmem' : payload ∈ if other = 4104 then [8200] else [] := hmem
        split_ifs at hmem'
        · exact .inr (List.mem_singleton.mp hmem')
        · cases hmem'
    rcases hpayload with rfl | rfl
    · exact live_of_allocated 0 0 4096 (by decide)
    · exact live_of_allocated 0 1 8192 (by decide)
  have hmark : markRoots pointing 3 threeObjects.startPass [4104] = some threeMarked := by
    have hsome : (markRoots pointing 3 threeObjects.startPass [4104]).isSome = true := by
      decide
    obtain ⟨marked, hmarked⟩ := Option.isSome_iff_exists.mp hsome
    rw [threeMarked, hmarked, Option.getD_some]
  have hfirst : (threeMarked.sweepPass pointing 2).2 = false := by decide
  have hdone : ((threeMarked.sweepPass pointing 2).1.sweepPass pointing 10).2 = true := by
    decide +kernel
  have hsweep : SweepsDone pointing threeMarked [2, 10]
      ((threeMarked.sweepPass pointing 2).1.sweepPass pointing 10).1 :=
    .next (by rw [← hfirst]) (.last (by rw [← hdone]))
  refine ⟨_, hsweep, by decide +kernel, ?_⟩
  exact (exact_iff_nothingMistaken ⟨by decide, by decide⟩ () hrun hlive).2 _ _ _ _ hmark hsweep

/-- The object has the number of the next pass, whose roots do not lead to it, and is left by
its sweep. -/
theorem not_exact_wrapped : ∃ swept, SweepsDone untyped wrapped.startPass [1000] swept ∧
    Live swept 4104 ∧ ¬ Reachable untyped wrapped [] 4104 ∧ ¬ Exact untyped wrapped [] swept := by
  have hunreachable : ¬ Reachable untyped wrapped [] 4104 := by
    intro hreach
    cases reachable_untyped hreach
  have hlive : Live (wrapped.startPass.sweepPass untyped 1000).1 4104 :=
    live_of_allocated 0 0 4096 (by decide +kernel)
  refine ⟨(wrapped.startPass.sweepPass untyped 1000).1, .last ?_, hlive, hunreachable, ?_⟩
  · have hdone : (wrapped.startPass.sweepPass untyped 1000).2 = true := by decide +kernel
    rw [← hdone]
  · intro hexact
    exact hunreachable ((hexact.1 4104).1 hlive)

end Soot.Analysis
