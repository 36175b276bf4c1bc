import Soot.Analysis.Queues
import Soot.Analysis.Stacks

/-!
# A tick visits each process once

In a run that kills processes only where no active call uses them and no tick is active, resumes
them only from the suspended ones and ticks only where no tick is active, each tick visits the
ready queue it began with, each process of it once, and nothing that was deleted is used.
-/

set_option autoImplicit false

namespace Soot.Analysis

open Soot.Computation Soot.Computation.Recording Soot.Program Soot.Model

variable {σ μ : Type} {host : KernelHost σ μ} {k t : Kernel σ μ}

/-- What is known of a step that was recorded. -/
abbrev TicksKnown (a : KernelAction) (k : Kernel σ μ) : Prop := KeepsTicks a k ∧ VisitsOnce a k

theorem orderlyKills_of_ticksKnown (a : KernelAction) (k : Kernel σ μ) (h : TicksKnown a k) :
    OrderlyKills a k := by
  cases a
  case kills p => exact h.1.1
  case resumes p => exact h.1
  all_goals exact trivial

theorem ticksHold_initial (memory : μ) : TicksHold (Kernel.initial memory : Kernel σ μ) where
  listed := listed_initial memory
  stateFrames := stacksHold_initial memory
  progress := Or.inl ⟨rfl, rfl⟩
  distinct := fun _ h => by cases h
  taken := fun _ h => by cases h

theorem not_dead_of_pending (hI : Listed k) {p : ℕ} {P : Process} {l : List ℕ}
    (pending : k.history.pending = p :: l) (cell : k.processes p = some P) : P.isDead = false := by
  have hpos : 0 < k.history.pending.count p := by simp [pending]
  have hall : p ∈ k.all := mem_all_of_places hI (by simp [places, pending])
  exact not_dead_of_listed hI cell hall (not_dying_of_count hI (by omega))

theorem progress_step (hI : TicksHold k) (hstep : KernelStep host TicksKnown k t) :
    t.history.pending = [] ∧ t.history.visits = t.history.snapshots.flatten ∨
      ∃ older done, t.history.snapshots = older ++ [done ++ t.history.pending] ∧
        t.history.visits = older.flatten ++ done := by
  cases hstep
  case machine moves =>
    rw [moves.rest]
    exact hI.progress
  case visit p P l pending cell alive current condition =>
    right
    rcases hI.progress with ⟨h, -⟩ | ⟨older, done, hsnapshots, hvisits⟩
    · rw [pending] at h
      cases h
    · refine ⟨older, done ++ [p], ?_, ?_⟩
      · simp [Kernel.beginVisit, pending, hsnapshots]
      · simp [Kernel.beginVisit, hvisits]
  case skip p P l pending cell dead =>
    rw [not_dead_of_pending hI.listed pending cell] at dead
    cases dead
  case takeReady k₀ begun since current =>
    right
    have hnone : k.history.pending = [] := since ▸ begun.1.1
    refine ⟨k.history.snapshots, [], by simp [Kernel.takeReady, hnone], ?_⟩
    rcases hI.progress with ⟨-, h⟩ | ⟨older, done, hsnapshots, hvisits⟩
    · simpa [Kernel.takeReady] using h
    · rw [hnone] at hsnapshots
      simp [Kernel.takeReady, hsnapshots, hvisits]
  all_goals exact hI.progress

theorem snapshots_step (hk : FramesInOrder k) (hI : TicksHold k)
    (hstep : KernelStep host TicksKnown k t) :
    (∀ snapshot ∈ t.history.snapshots, snapshot.Nodup) ∧
      ∀ snapshot ∈ t.history.snapshots, ∀ p ∈ snapshot,
        p < t.processCount ∧ p ∉ t.history.spawning := by
  cases hstep
  case machine moves =>
    rw [moves.rest]
    exact ⟨hI.distinct, hI.taken⟩
  case create name script s pid entry state =>
    refine ⟨hI.distinct, ?_⟩
    intro snapshot hmem p hp
    obtain ⟨hlt, hspawning⟩ := hI.taken snapshot hmem p hp
    refine ⟨Nat.lt_succ_of_lt hlt, ?_⟩
    intro h
    rcases List.mem_cons.mp h with h | h
    · omega
    · exact hspawning h
  case list p P s l l' cell status spawning entering main current condition =>
    refine ⟨hI.distinct, ?_⟩
    intro snapshot hmem q hq
    obtain ⟨hlt, hspawning⟩ := hI.taken snapshot hmem q hq
    exact ⟨hlt, fun h => hspawning (List.mem_of_mem_tail h)⟩
  case takeReady k₀ begun since current =>
    have hready : ∀ p, p ∈ k.ready → p ∈ k.all := fun p hp =>
      mem_all_of_places hI.listed (by simp [places, hp])
    constructor
    · intro snapshot hmem
      rcases List.mem_append.mp hmem with h | h
      · exact hI.distinct snapshot h
      · obtain rfl : snapshot = k.ready := by simpa using h
        rw [List.nodup_iff_count_le_one]
        intro p
        have hle := count_places_le hI.listed p
        rw [count_places] at hle
        omega
    · intro snapshot hmem p hp
      rcases List.mem_append.mp hmem with h | h
      · exact hI.taken snapshot h p hp
      · obtain rfl : snapshot = k.ready := by simpa using h
        have hall := hready p hp
        refine ⟨?_, ?_⟩
        · by_contra hlt
          exact there_of_mem_all hI.listed hall (hk.processes p (Nat.le_of_not_lt hlt))
        · intro hspawning
          have honce := hI.listed.once p
          have hcountAll := List.count_pos_iff.mpr hall
          have hcountSpawning : 0 < k.history.spawning.count p :=
            List.count_pos_iff.mpr hspawning
          unfold population at honce
          omega
  all_goals exact ⟨hI.distinct, hI.taken⟩

theorem visits_of_noTick (hI : TicksHold k) (h : k.history.pending = []) :
    k.history.visits = k.history.snapshots.flatten := by
  rcases hI.progress with ⟨-, hvisits⟩ | ⟨older, done, hsnapshots, hvisits⟩
  · exact hvisits
  · rw [h, List.append_nil] at hsnapshots
    simp [hsnapshots, hvisits]

theorem ticksHold_upholds (host : KernelHost σ μ) :
    Upholds host KeepsTicks VisitsOnce (fun e => e ≠ .freedProcess)
      (TicksHold (σ := σ) (μ := μ)) where
  step := fun k t hk hI hstep =>
    { listed := listed_step orderlyKills_of_ticksKnown (fun _ _ h => h.2) hk hI.listed hstep
      stateFrames := stacksHold_step hk hI.stateFrames hstep
      progress := progress_step hI hstep
      distinct := (snapshots_step hk hI hstep).1
      taken := (snapshots_step hk hI hstep).2 }
  enters := fun _ _ hI _ => Or.inl { hI with listed := { hI.listed with },
                                              stateFrames := { hI.stateFrames with } }
  promise := by
    intro k a hI hat hc
    cases a
    case handles p => exact there_of_inUse hI.listed hat
    case ticks => exact visits_of_noTick hI hc.1
    case visits p =>
      obtain ⟨-, l, pending⟩ := hat
      refine ⟨there_of_inUse hI.listed (Or.inl (by simp [pending])), ?_⟩
      rcases hI.progress with ⟨h, -⟩ | ⟨older, done, hsnapshots, hvisits⟩
      · rw [pending] at h
        cases h
      · rw [pending] at hsnapshots
        exact ⟨older, done, l, hsnapshots, hI.distinct _ (by simp [hsnapshots]), hvisits⟩
    case lists p =>
      obtain ⟨l, spawning⟩ := hat
      intro snapshot hmem hp
      exact (hI.taken snapshot hmem p hp).2 (by simp [spawning])
    case buries p =>
      obtain ⟨P, l, cell, dead, settling⟩ := hat
      have hpos : 0 < k.history.settling.count p := by simp [settling]
      have hall : p ∈ k.all := mem_all_of_places hI.listed (by simp [places, settling])
      rw [not_dead_of_listed hI.listed cell hall (not_dying_of_count hI.listed (by omega))] at dead
      cases dead
    case reads p =>
      obtain ⟨k₀, ⟨⟨-, htick⟩, -⟩, hpending, hquanta, hsettling⟩ := hat
      refine ⟨⟨hpending.trans htick.1, hquanta.trans htick.2.1, hsettling.trans htick.2.2⟩, ?_⟩
      intro f hf
      by_cases hon : OnStack k f
      · exact Or.inl ⟨hon, hI.stateFrames.waiting f (Or.inl hon)⟩
      · exact Or.inr ⟨hon, hI.stateFrames.exited f hon hf⟩
    all_goals exact trivial
  known := fun k p hI known hnone => absurd hnone (there_of_known hI.listed known)
  freedFrame := by simp
  undefined := by simp
  escaped := by simp
  outOfFuel := by simp

/-- In a run whose kills are of processes no active call uses and are made where no tick is
active, whose resumes are of suspended processes and whose ticks begin where none is active: a
tick visits the ready queue it begins with, in order and each process once, no process that is
spawned meanwhile is in it, handlers and visits are of processes that are there, no deleted
process is used, and at the end every process of every snapshot was visited. Without the
condition it fails: `kill_recursive` deletes the process at once and reads its pid afterwards,
while `tick` goes on with raw pointers to the snapshot. SRCLINE: Scheduler.cpp:117-215,
NativeProcess.cpp:213-221, StateFrame.cpp:36-60 -/
theorem hostRun_visitsOnce (host : KernelHost σ μ) (fuel : ℕ) (calls : List KernelCall)
    (memory : μ)
    (hsteps : ∀ step ∈ (hostRun host fuel calls (Kernel.initial memory)).steps,
      KeepsTicks step.1 step.2) :
    (∀ step ∈ (hostRun host fuel calls (Kernel.initial memory)).steps,
      VisitsOnce step.1 step.2) ∧
    (hostRun host fuel calls (Kernel.initial memory)).result ≠ .error .freedProcess ∧
    ((hostRun host fuel calls (Kernel.initial memory)).result = .ok () →
      (hostRun host fuel calls (Kernel.initial memory)).state.history.visits =
        (hostRun host fuel calls (Kernel.initial memory)).state.history.snapshots.flatten) := by
  have hmeets : Recording.Meets KeepsTicks VisitsOnce _ (hostRun host fuel calls)
      (Kernel.initial memory) _ :=
    hostRun_meets (ticksHold_upholds host) calls
      ⟨ticksHold_initial memory, framesInOrder_initial memory⟩ rfl
  obtain ⟨hpromises, hend⟩ := hmeets hsteps
  refine ⟨hpromises, ?_, ?_⟩
  · intro hfreed
    rw [hfreed] at hend
    exact hend rfl
  · intro hok
    obtain ⟨⟨hI, -⟩, hb⟩ := hmeets.result hsteps hok
    exact visits_of_noTick hI hb.pending

/-! ## A run -/

/-- INTERNAL: two processes that yield and sleep, ticked three times, and one of them killed.
SRCLINE: Scheduler.cpp:117-215 -/
theorem hostRun_visitsOnce_yielding :
    (hostRun (scriptHost twoScripts fun _ => [.currentPid, .yield, .sleep 1]) 20
      [.spawn 1 [], .spawn 2 [], .tick, .tick, .kill 1, .tick]
      (Kernel.initial ())).state.history.visits = [0, 1, 0, 1, 1] ∧
    ∀ step ∈ (hostRun (scriptHost twoScripts fun _ => [.currentPid, .yield, .sleep 1]) 20
        [.spawn 1 [], .spawn 2 [], .tick, .tick, .kill 1, .tick] (Kernel.initial ())).steps,
      VisitsOnce step.1 step.2 :=
  ⟨by decide +kernel, (hostRun_visitsOnce _ 20 _ () (by decide +kernel)).1⟩

/-- INTERNAL: the process visited first kills itself, and the tick looks at the deleted process.
SRCLINE: Scheduler.cpp:117-148, 198-205 -/
theorem not_hostRun_visitsOnce :
    ¬ ((∀ step ∈ (hostRun (scriptHost twoScripts fun lambda =>
          if lambda = 1 then [.kill .self] else []) 20
          [.spawn 1 [], .spawn 2 [], .tick] (Kernel.initial ())).steps,
        VisitsOnce step.1 step.2) ∧
      (hostRun (scriptHost twoScripts fun lambda => if lambda = 1 then [.kill .self] else []) 20
        [.spawn 1 [], .spawn 2 [], .tick] (Kernel.initial ())).result ≠
          .error .freedProcess) := by
  rintro ⟨-, h⟩
  exact h (by decide)

end Soot.Analysis
