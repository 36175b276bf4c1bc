import Soot.Model.Processes
import Soot.Analysis.KernelRuns

/-!
# The current process is the one whose code runs

In a run in which code of a process calls native functions only in its own visit or as it is
spawned, and processes are spawned where no process code is on the call stack, every native
function called by process code finds that process current, and no tick begins inside another.
-/

set_option autoImplicit false

namespace Soot.Analysis

open Soot.Computation Soot.Computation.Recording Soot.Program Soot.Model

variable {σ μ : Type} {host : KernelHost σ μ} {k t : Kernel σ μ}

/-- What is known of a step that was recorded. -/
abbrev CurrentKnown (a : KernelAction) (k : Kernel σ μ) : Prop := KeepsCurrent a k ∧ CurrentRuns a k

theorem currentHolds_initial (memory : μ) : CurrentHolds (Kernel.initial memory : Kernel σ μ) where
  idle := fun _ => ⟨rfl, rfl, fun _ => List.not_mem_nil⟩
  turn := fun _ h => by simp [HasTurn, Kernel.initial, History.empty] at h

/-! ## Steps -/

theorem currentHolds_of_same (hI : CurrentHolds k) (hcurrent : t.currentProcess = k.currentProcess)
    (hquanta : t.history.quanta.map Prod.fst = k.history.quanta.map Prod.fst)
    (hbegun : t.history.begun = k.history.begun)
    (hactive : ∀ p, some p ∈ t.history.active → some p ∈ k.history.active) : CurrentHolds t where
  idle := by
    intro hnone
    obtain ⟨hquiet, hnot, hidle⟩ := hI.idle (hcurrent ▸ hnone)
    rw [hquiet, List.map_nil, List.map_eq_nil_iff] at hquanta
    exact ⟨hquanta, hbegun.trans hnot, fun p hp => hidle p (hactive p hp)⟩
  turn := by
    intro p hp
    rw [hcurrent]
    rw [HasTurn, hquanta, hbegun] at hp
    exact hI.turn p hp

/-- Where no process code was on the call stack, nothing is left when a turn ends. -/
theorem currentHolds_ended (hquiet : NoProcessCode k)
    (hquanta : t.history.quanta = k.history.quanta) (hbegun : t.history.begun = k.history.begun)
    (hactive : t.history.active = k.history.active) : CurrentHolds t where
  idle := fun _ => ⟨hquanta.trans hquiet.1, hbegun.trans hquiet.2.1, hactive ▸ hquiet.2.2⟩
  turn := by
    intro p hp
    rw [HasTurn, hquanta, hbegun, hquiet.1, hquiet.2.1] at hp
    simp at hp

theorem currentHolds_step (hI : CurrentHolds k) (hstep : KernelStep host CurrentKnown k t) :
    CurrentHolds t := by
  cases hstep
  case leaveRun active =>
    exact currentHolds_of_same hI rfl rfl rfl fun p hp => List.mem_of_mem_tail hp
  case machine moves =>
    rw [moves.rest]
    exact { hI with }
  case visit p P l pending cell alive current condition =>
    obtain ⟨hquanta, hbegun, -⟩ := hI.idle current
    refine ⟨by rintro ⟨⟩, fun q hq => ?_⟩
    have hq : q = p := by simpa [HasTurn, Kernel.beginVisit, hquanta, hbegun] using hq
    rw [hq]
    rfl
  case visited k₀ p begun quantum enters active _ =>
    exact currentHolds_ended begun.2 (congrArg List.tail quantum) enters active
  case running p P l cell quantum =>
    refine currentHolds_of_same hI rfl ?_ rfl fun _ hp => hp
    simp [Kernel.markRunning, Kernel.noting, Kernel.setProcess, quantum]
  case rested p P P' l cell quantum rests =>
    refine currentHolds_of_same hI rfl ?_ rfl fun _ hp => hp
    simp [Kernel.markRested, Kernel.noting, Kernel.setProcess, quantum]
  case begins p l spawning condition =>
    obtain ⟨hquanta, hbegun, -⟩ : NoProcessCode k := condition.1
    refine ⟨by rintro ⟨⟩, fun q hq => ?_⟩
    have hq : q = p := by simpa [HasTurn, Kernel.beginEnter, hquanta, hbegun] using hq
    rw [hq]
    rfl
  case begun k₀ p l spawning begun quanta enters active _ =>
    exact currentHolds_ended begun.1 quanta (congrArg List.tail enters) active
  all_goals exact { hI with }

theorem owner_of_moves (h : MachineMoves k t) (F : ℕ) : Kernel.owner t F = Kernel.owner k F := by
  have hframe := congrArg (Option.bind · Prod.snd) (h.frames F)
  simpa [Kernel.owner, Option.bind_map, Function.comp_def] using hframe

/-- A run for a process that is not current is silent: the process has no turn, so its code calls
nothing. -/
theorem currentHolds_enters (hI : CurrentHolds k) (F : ℕ) :
    CurrentHolds (k.enterRun F (Kernel.owner k F)) ∨ Silent KeepsCurrent CurrentHolds k F := by
  by_cases howner : ∀ p, Kernel.owner k F = some p → k.currentProcess = some p
  · refine .inl ⟨fun hnone => ?_, fun p hp => hI.turn p hp⟩
    obtain ⟨hquanta, hbegun, hidle⟩ := hI.idle hnone
    refine ⟨hquanta, hbegun, fun p hp => ?_⟩
    rcases List.mem_cons.mp hp with hp | hp
    · have hcurrent := howner p hp.symm
      rw [show k.currentProcess = none from hnone] at hcurrent
      cases hcurrent
    · exact hidle p hp
  · push Not at howner
    obtain ⟨p, hp, hother⟩ := howner
    refine .inr fun t hmoves => ⟨fun hF native hcalls => hother (hI.turn p ?_), ?_⟩
    · have hrunning : runningProcess t = some p := by
        rw [runningProcess, hF, Option.bind_some, owner_of_moves hmoves]
        exact hp
      have hturn := hcalls p hrunning
      rw [hmoves.rest] at hturn
      exact hturn
    · rw [hmoves.rest]
      exact { hI with }

/-! ## Runs -/

theorem currentHolds_upholds (host : KernelHost σ μ) :
    Upholds host KeepsCurrent CurrentRuns (fun _ => True) (CurrentHolds (σ := σ) (μ := μ)) where
  step := fun _ _ _ hI hstep => currentHolds_step hI hstep
  enters := fun _ F hI _ => currentHolds_enters hI F
  promise := by
    intro k a hI hat hc
    cases a
    case calls =>
      refine ⟨fun p hp => hI.turn p (hc p hp), ?_⟩
      intro p hp hnone
      exact (hI.idle hnone).2.2 p hp
    case ticks => exact hI.idle hat
    case visits => exact hI.idle hat.1
    all_goals exact trivial
  known := fun _ _ _ _ _ => trivial
  freedFrame := trivial
  undefined := trivial
  escaped := trivial
  outOfFuel := trivial

/-- In a run in which code of a process calls native functions only while a tick visits the process
or `spawn` runs its enter handler, and in which processes are spawned where no process code is on
the call stack: every native function that code of a process calls finds that process current, some
process is current while a run for a process is active, and no tick begins while process code is
active. Without the condition it fails: `spawn` resets the current process to none instead of to
the one it was called from, and `send`, `kill` and `go-state` run handlers of a process that is not
current, which is harmless only if they call nothing.
SRCLINE: Scheduler.cpp:69-81, 187-197, Process.cpp:194-221, NativeProcess.cpp:349-380 -/
theorem hostRun_current (host : KernelHost σ μ) (fuel : ℕ) (calls : List KernelCall) (memory : μ)
    (hsteps : ∀ step ∈ (hostRun host fuel calls (Kernel.initial memory)).steps,
      KeepsCurrent step.1 step.2) :
    ∀ step ∈ (hostRun host fuel calls (Kernel.initial memory)).steps,
      CurrentRuns step.1 step.2 :=
  (hostRun_meets (currentHolds_upholds host) calls
    ⟨currentHolds_initial memory, framesInOrder_initial memory⟩ rfl hsteps).1

/-! ## A run -/

/-- A state script whose state has code and an exit handler. -/
def exitScript (name : Word) : Option StateScript :=
  if name = 1 then some ⟨1, [⟨1, [⟨.Code, 0, some 1, []⟩, ⟨.Exit, 0, some 2, []⟩]⟩]⟩ else none

/-- INTERNAL: two processes that yield and sleep are ticked, and the host kills one: its exit
handler runs with no process current, and calls nothing. SRCLINE: Scheduler.cpp:108-147, 174-215 -/
theorem hostRun_current_yielding :
    (hostRun (scriptHost exitScript fun lambda =>
        if lambda = 1 then [.currentPid, .yield, .sleep 1] else []) 20
      [.spawn 1 [], .spawn 1 [], .tick, .tick, .kill 1, .tick]
      (Kernel.initial ())).state.history.visits = [0, 1, 0, 1, 1] ∧
    ∀ step ∈ (hostRun (scriptHost exitScript fun lambda =>
          if lambda = 1 then [.currentPid, .yield, .sleep 1] else []) 20
        [.spawn 1 [], .spawn 1 [], .tick, .tick, .kill 1, .tick] (Kernel.initial ())).steps,
      CurrentRuns step.1 step.2 :=
  ⟨by decide +kernel, hostRun_current _ 20 _ () (by decide +kernel)⟩

/-- INTERNAL: a process whose code spawns another and then ticks: the tick is not refused, and
begins inside the tick that runs the process. SRCLINE: Scheduler.cpp:81 -/
theorem not_hostRun_current :
    ¬ ∀ step ∈ (hostRun (scriptHost twoScripts fun lambda =>
        if lambda = 1 then [.spawn 2 [], .tick 1] else []) 20 [.spawn 1 [], .tick]
        (Kernel.initial ())).steps,
      CurrentRuns step.1 step.2 := by
  have hnested : ∃ step ∈ (hostRun
      (scriptHost twoScripts fun lambda => if lambda = 1 then [.spawn 2 [], .tick 1] else [])
      20 [.spawn 1 [], .tick] (Kernel.initial ())).steps,
      isTick step.1 = true ∧ ¬ NoProcessCode step.2 := by decide
  obtain ⟨⟨a, k⟩, hmem, htick, hcode⟩ := hnested
  intro hall
  have hpromise := hall (a, k) hmem
  cases a <;> simp [isTick] at htick
  exact hcode hpromise

end Soot.Analysis
