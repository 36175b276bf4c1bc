import Soot.Analysis.Sweeps

/-!
# Runs of the mutator and the collector

Every permitted step keeps the representation of the heap, and so does every run from the
reserved region; from the representation follows what the allocator promises.
-/

set_option autoImplicit false

namespace Soot.Analysis

open Soot.Program Soot.Model Soot.Computation

variable {κ : Type} {types : TypeRegistry κ} {s s' : Collector κ}

theorem initial_holds {start size : ℕ} (h : Reserved start size) (contents : κ) :
    CollectorHolds (Collector.initial start size contents) := by
  refine ⟨⟨h.1, ?_, ?_, ?_, ?_⟩, Nat.zero_lt_succ 15⟩
  · intro hzero
    change start + size = 0
    rw [show start = 0 from hzero, h.2 hzero]
  · simp [Collector.initial, ArenaManager.new, arenaStart]
  · exact Nat.le_add_right start size
  · intro i entry hi
    simp [Collector.initial, ArenaManager.new] at hi

theorem nextCycle_lt (current : ℕ) : Collector.nextCycle current < 16 := by
  simp only [Collector.nextCycle]
  split <;> omega

theorem HeapStep.holds {request : HeapRequest κ} (h : CollectorHolds s)
    (hpermitted : Permitted types s request) (hstep : HeapStep types s request s') :
    CollectorHolds s' := by
  cases hstep with
  | alloc halloc =>
    rcases CollectorHolds.alloc h halloc with ⟨_, rfl⟩ | ⟨_, hnew⟩
    · exact h
    · exact (Allocates.live h hnew).1
  | release =>
    rcases CollectorHolds.release h hpermitted with ⟨_, heq⟩ | ⟨_, hfrees⟩
    · rw [heq]
      exact h
    · exact hfrees.holds
  | store => exact ⟨h.heap, h.pass⟩
  | startPass => exact ⟨h.heap, nextCycle_lt _⟩
  | mark hmark =>
    obtain ⟨_, hmarks, _⟩ := CollectorHolds.mark h hpermitted hmark
    exact hmarks.holds
  | @sweep budget =>
    cases hresult : s.sweepPass types budget with
    | mk swept finished =>
      obtain ⟨_, _, _, hswept, _⟩ := sweepPass_spec h hresult
      exact hswept.holds
  | finishPass => exact ⟨h.heap, h.pass⟩

theorem HeapRun.holds {requests : List (HeapRequest κ)} (h : CollectorHolds s)
    (hrun : HeapRun types s requests s') : CollectorHolds s' := by
  induction hrun with
  | nil => exact h
  | cons hpermitted hstep _ ih => exact ih (HeapStep.holds h hpermitted hstep)

/-! ## What the representation says -/

theorem count_eq_countP (bits : List Bool) :
    bits.count true = (List.range bits.length).countP fun j => bits.getD j false := by
  induction bits with
  | nil => rfl
  | cons bit bits ih =>
    rw [List.length_cons, List.range_succ_eq_map, List.countP_cons, List.countP_map,
      List.count_cons, ih]
    cases bit <;> simp [Function.comp_def]

theorem HeapHolds.sound {arenas : ArenaManager} {m : HeapWords} (h : HeapHolds arenas m) :
    AllocatorSound arenas m := by
  refine ⟨?_, ?_, ?_, ?_, ?_⟩
  · intro i i' j j' entry entry' hi hi' hj hj' hne
    have hat := h.arenas i entry hi
    have hat' := h.arenas i' entry' hi'
    have hrange := ArenaAt.block_range hat (ArenaAt.lt_capacity hat hj)
    have hrange' := ArenaAt.block_range hat' (ArenaAt.lt_capacity hat' hj')
    obtain ⟨_, _, hholds⟩ := hat.2.2
    obtain ⟨_, _, hholds'⟩ := hat'.2.2
    rw [hholds.blockSize, hholds'.blockSize]
    rcases Nat.lt_trichotomy i i' with hlt | rfl | hlt
    · have hmono : arenaStart arenas (i + 1) ≤ arenaStart arenas i' := arenaStart_mono hlt
      omega
    · rw [hi, Option.some.injEq] at hi'
      subst hi'
      have hjj : j ≠ j' := fun heq => hne (by rw [heq])
      rw [hholds.block_eq, hholds.block_eq]
      rcases Nat.lt_or_gt_of_ne hjj with hlt | hlt
      · have hmul : (j + 1) * classSize entry.1 ≤ j' * classSize entry.1 :=
          Nat.mul_le_mul_right _ hlt
        rw [Nat.succ_mul] at hmul
        omega
      · have hmul : (j' + 1) * classSize entry.1 ≤ j * classSize entry.1 :=
          Nat.mul_le_mul_right _ hlt
        rw [Nat.succ_mul] at hmul
        omega
    · have hmono : arenaStart arenas (i' + 1) ≤ arenaStart arenas i := arenaStart_mono hlt
      omega
  · rintro block ⟨i, entry, j, hi, _, rfl⟩
    have hat := h.arenas i entry hi
    obtain ⟨c, hc⟩ := (classSize_spec hat.1).2.2.1
    have haligned := h.aligned
    have hstart : arenaStart arenas i % 16 = 0 := by
      simp only [arenaStart, arenaSize_eq]
      omega
    rw [ArenaAt.block_eq hat, Nat.add_mod, hstart, hc, Nat.mul_left_comm, Nat.mul_mod_right]
  · intro i j entry hi hj
    have hat := h.arenas i entry hi
    have hlt := ArenaAt.lt_capacity hat hj
    obtain ⟨_, _, hholds⟩ := hat.2.2
    have hmul : (j + 1) * classSize entry.1 ≤ entry.2.capacity * classSize entry.1 :=
      Nat.mul_le_mul_right _ hlt
    rw [Nat.succ_mul] at hmul
    rw [hholds.block_eq, hholds.blockSize, hholds.dataBegin, hholds.dataEnd]
    omega
  · intro i entry hi
    have hat := h.arenas i entry hi
    have hsize := ArenaAt.size_pos hat
    obtain ⟨bumped, free, hholds⟩ := hat.2.2
    refine ⟨_, hholds.chain, hholds.nodup.map ?_, ?_⟩
    · intro j k heq
      exact ArenaHolds.block_injective hsize heq
    · intro block
      rw [List.mem_map]
      constructor
      · rintro ⟨j, hj, rfl⟩
        obtain ⟨hlt, hfree⟩ := (hholds.mem_free j).1 hj
        refine ⟨j, (hholds.block_eq j).symm, ?_, hfree⟩
        rw [hholds.bump]
        have := Nat.mul_lt_mul_of_pos_right hlt hsize
        omega
      · rintro ⟨j, rfl, hlt, hfree⟩
        rw [hholds.block_eq, hholds.bump, Nat.add_lt_add_iff_left] at hlt
        exact ⟨j, (hholds.mem_free j).2 ⟨Nat.lt_of_mul_lt_mul_right hlt, hfree⟩,
          (hholds.block_eq j).symm⟩
  · intro i entry hi
    obtain ⟨_, _, hholds⟩ := (h.arenas i entry hi).2.2
    rw [hholds.used, count_eq_countP, hholds.bitmap]
    rfl

theorem LastFull.not_hasFreeBlock {arenas : ArenaManager} {index : ℕ} (h : LastFull arenas index)
    (hearlier : ¬ HasEarlierFree arenas index) : ¬ HasFreeBlock arenas index := by
  rintro ⟨i, entry, j, hi, hindex, hj, hfree⟩
  have hlast : arenas.lastOfClass index = some i := by
    by_contra hne
    exact hearlier ⟨i, entry, j, hne, hi, hindex, hj, hfree⟩
  rw [h i entry hlast hi j hj] at hfree
  cases hfree

/-- The heap of every run is sound; what is handed out was not live and is live then; and there
is no block only for a size above the largest class, or when the last arena of the class is
full and no other fits in the region: then no arena of the class has a free block, unless an
earlier one has. -/
theorem allocator_sound {start size : ℕ} (hregion : Reserved start size) (contents : κ)
    {requests : List (HeapRequest κ)}
    (hrun : HeapRun types (Collector.initial start size contents) requests s) :
    AllocatorSound s.arenas s.words ∧
      (∀ (sid size payload : ℕ) (s' : Collector κ), s.alloc types sid size = some (s', payload) →
        payload ≠ 0 → ¬ Live s payload ∧ Live s' payload) ∧
      ∀ (size : ℕ) (arenas : ArenaManager), s.arenas.allocate s.words size = (arenas, none) →
        4096 < size ∨ ∃ index, sizeClassFor size = some index ∧ LastFull s.arenas index ∧
          (¬ HasEarlierFree s.arenas index → ¬ HasFreeBlock s.arenas index) ∧
          s.arenas.regionEnd - s.arenas.bump < ArenaManager.arenaSize := by
  have hholds := HeapRun.holds (initial_holds hregion contents) hrun
  refine ⟨HeapHolds.sound hholds.heap, ?_, ?_⟩
  · intro sid size payload s' halloc hne
    rcases CollectorHolds.alloc hholds halloc with ⟨hzero, _⟩ | ⟨_, hnew⟩
    · exact absurd hzero hne
    · obtain ⟨_, hfresh, hlive, _⟩ := Allocates.live hholds hnew
      exact ⟨hfresh, (hlive payload).2 (.inr rfl)⟩
  · intro size arenas halloc
    rcases (HeapHolds.allocate hholds.heap halloc).2 with hlarge | ⟨index, hindex, hfull, hroom⟩
    · exact .inl hlarge
    · exact .inr ⟨index, hindex, hfull, LastFull.not_hasFreeBlock hfull, hroom⟩

/-! ## A heap of two arenas -/

/-- No types. -/
def untyped : TypeRegistry Unit := ⟨fun _ => 0, fun _ => none, fun contents _ _ => contents⟩

/-- Two megabytes from the first page on. -/
def smallHeap : Collector Unit := Collector.initial 4096 (2 * 1024 * 1024) ()

/-- An object of 4000 bytes. -/
def allocated (s : Collector Unit) : Collector Unit := ((s.alloc untyped 0 4000).getD (s, 0)).1

theorem allocated_eq (types : TypeRegistry Unit) {s : Collector Unit}
    (heq : s.alloc types 0 4000 = s.alloc untyped 0 4000)
    (h : (s.alloc untyped 0 4000).isSome = true) :
    HeapStep types s (.alloc 0 4000) (allocated s) := by
  obtain ⟨result, halloc⟩ := Option.isSome_iff_exists.mp h
  have hallocated : allocated s = result.1 := by rw [allocated, halloc, Option.getD_some]
  rw [hallocated]
  exact .alloc (heq.trans halloc)

/-- Two objects, of which the first is released and the second is swept. -/
def sweptHeap : Collector Unit :=
  (((allocated (allocated smallHeap)).release 4104).startPass.sweepPass untyped 10).1

theorem allocator_sound_sweptHeap :
    AllocatorSound sweptHeap.arenas sweptHeap.words ∧
      (∀ (sid size payload : ℕ) (s' : Collector Unit),
        sweptHeap.alloc untyped sid size = some (s', payload) →
        payload ≠ 0 → ¬ Live sweptHeap payload ∧ Live s' payload) ∧
      ∀ (size : ℕ) (arenas : ArenaManager),
        sweptHeap.arenas.allocate sweptHeap.words size = (arenas, none) →
        4096 < size ∨ ∃ index, sizeClassFor size = some index ∧ LastFull sweptHeap.arenas index ∧
          (¬ HasEarlierFree sweptHeap.arenas index → ¬ HasFreeBlock sweptHeap.arenas index) ∧
          sweptHeap.arenas.regionEnd - sweptHeap.arenas.bump < ArenaManager.arenaSize := by
  have hlive : Live (allocated (allocated smallHeap)) 4104 :=
    live_of_allocated 0 0 4096 (by decide)
  have hrun : HeapRun untyped smallHeap
      [.alloc 0 4000, .alloc 0 4000, .release 4104, .startPass, .sweep 10] sweptHeap :=
    .cons trivial (allocated_eq untyped rfl (by decide)) <|
      .cons trivial (allocated_eq untyped rfl (by decide)) <|
      .cons (.inr (.inr (.inl hlive))) .release <| .cons trivial .startPass <|
      .cons trivial .sweep .nil
  exact allocator_sound ⟨by decide, by decide⟩ () hrun

/-- An object that is released twice is counted twice, although it was allocated once. -/
theorem not_allocator_sound_released :
    HeapStep untyped smallHeap (.alloc 0 4000) (allocated smallHeap) ∧
      HeapStep untyped (allocated smallHeap) (.release 4104)
        ((allocated smallHeap).release 4104) ∧
      HeapStep untyped ((allocated smallHeap).release 4104) (.release 4104)
        (((allocated smallHeap).release 4104).release 4104) ∧
      ¬ AllocatorSound (((allocated smallHeap).release 4104).release 4104).arenas
        (((allocated smallHeap).release 4104).release 4104).words := by
  refine ⟨allocated_eq untyped rfl (by decide), .release, .release, fun hsound => ?_⟩
  have hfirst : ((((allocated smallHeap).release 4104).release 4104).arenas.arenas[0]?).map
      (fun entry => decide (entry.2.used =
        (List.range entry.2.capacity).countP entry.2.isAllocated)) = some false := by
    decide +kernel
  rw [Option.map_eq_some_iff] at hfirst
  obtain ⟨entry, hentry, hcount⟩ := hfirst
  exact of_decide_eq_false hcount (hsound.count 0 entry hentry)

end Soot.Analysis
