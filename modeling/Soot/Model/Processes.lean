import Soot.Model.KernelSteps

/-!
# The processes of the kernel

The process that is current, the processes that have finished and the lists of the scheduler.
-/

set_option autoImplicit false

namespace Soot.Model

open Soot.Computation.Recording Soot.Program

/-!
## The current process

When the current process is the one whose code runs, and what has to hold along a run for it to
be so: the kernel sets the current process in `spawn` and in `tick` only, and resets it to none.
-/

section CurrentProcess

variable {σ μ : Type}

/-- The process whose code the machine is at, if it is code of a process. -/
def runningProcess (k : Kernel σ μ) : Option ℕ := k.currentFrame.bind (Kernel.owner k)

/-- A tick is visiting the process, or `spawn` is running its enter handler. -/
def HasTurn (k : Kernel σ μ) (p : ℕ) : Prop :=
  p ∈ k.history.quanta.map Prod.fst ∨ p ∈ k.history.begun

/-- No process is being visited or entered, and no run of the machine was started for one. -/
def NoProcessCode (k : Kernel σ μ) : Prop :=
  k.history.quanta = [] ∧ k.history.begun = [] ∧ ∀ p, some p ∉ k.history.active

/-- The condition on the calls that code makes: code of a process calls a native function only in
a visit of that process by a tick, or in its enter handler as it is spawned, and `spawn` is called
where no process code is on the call stack. -/
def KeepsCurrent (a : KernelAction) (k : Kernel σ μ) : Prop :=
  match a with
  | .calls _ => ∀ p, runningProcess k = some p → HasTurn k p
  | .begins _ => NoProcessCode k
  | _ => True

/-- What is promised of the steps of a run: where a native function is called from code of a
process, that process is the current one, and while a run for a process is active some process
is current, so that `tick` and `run` are refused; a tick and a visit begin where no process code
is on the call stack. -/
def CurrentRuns (a : KernelAction) (k : Kernel σ μ) : Prop :=
  match a with
  | .calls _ => (∀ p, runningProcess k = some p → k.currentProcess = some p) ∧
      ∀ p, some p ∈ k.history.active → k.currentProcess ≠ none
  | .ticks => NoProcessCode k
  | .visits _ => NoProcessCode k
  | _ => True

theorem noProcessCode_iff (k : Kernel σ μ) :
    (k.history.quanta.isEmpty ∧ k.history.begun.isEmpty ∧ ∀ p ∈ k.history.active, p = none) ↔
      NoProcessCode k := by
  unfold NoProcessCode
  rw [List.isEmpty_iff, List.isEmpty_iff]
  refine and_congr_right fun _ => and_congr_right fun _ => ?_
  constructor
  · intro hactive p hp
    cases hactive _ hp
  · intro hactive p hp
    cases p with
    | none => rfl
    | some q => exact absurd hp (hactive q)

theorem hasTurn_iff (k : Kernel σ μ) :
    (∀ p ∈ (runningProcess k).toList, p ∈ k.history.quanta.map Prod.fst ∨ p ∈ k.history.begun) ↔
      ∀ p, runningProcess k = some p → HasTurn k p := by
  simp [HasTurn]

instance (k : Kernel σ μ) : Decidable (NoProcessCode k) :=
  decidable_of_iff _ (noProcessCode_iff k)

instance (a : KernelAction) (k : Kernel σ μ) : Decidable (KeepsCurrent a k) :=
  match a with
  | .calls _ => decidable_of_iff _ (hasTurn_iff k)
  | .begins _ => inferInstanceAs (Decidable (NoProcessCode k))
  | .handles _ | .clears _ | .ticks | .lists _ | .visits _ | .parks _ | .kills _ | .buries _
  | .reads _ | .resumes _ | .suspends _ | .wakes _ | .goes _ _ => isTrue trivial

/-- The invariant: with no current process there is no process code on the call stack, and a process
that is visited or entered is the current one. -/
structure CurrentHolds (k : Kernel σ μ) : Prop where
  idle : k.currentProcess = none → NoProcessCode k
  turn : ∀ p, HasTurn k p → k.currentProcess = some p

end CurrentProcess

/-!
## Processes whose code has returned

A visit of a process in a plain state, without tracks and without trans or post handler, comes to
its code; the code returns when the machine is left without a frame. The process is to be removed
then, and by no tick otherwise, unless it is killed.
-/

section Finished

variable {σ μ : Type}

structure AtCode (k : Kernel σ μ) (p f F : ℕ) (P : Process) : Prop where
  cell : k.processes p = some P
  awake : P.hasMask MASK_SLEEP_CODE = false
  trans : P.transHook = none
  state : P.currentStateFrame = some f
  tracks : ∃ frame, k.stateFrames f = some frame ∧ frame.tracks = []
  quiet : k.isYielded = false
  main : P.mainThread = some F

/-- The code of a process has returned: no transition is pending and there is no post handler, and
the process was not killed meanwhile. -/
structure Returned (t : Kernel σ μ) (p : ℕ) (P : Process) : Prop where
  frame : t.currentFrame = none
  cell : t.processes p = some P
  alive : P.isDead = false
  listed : p ∈ t.all
  pending : P.nextState = none
  post : P.postHook = none

variable (host : KernelHost σ μ) (exec : ℕ → KernelM σ μ Variant) (fuel : ℕ)

/-- In the visit of a process, after a transition that was pending, the code of its state, with the
state frame `f`, returns and leaves the kernel `t`. -/
def Finishes (k : Kernel σ μ) (p f : ℕ) (t : Kernel σ μ) : Prop :=
  ∃ (P P₁ P₂ : Process) (k₁ : Kernel σ μ) (F : ℕ) (value : Variant),
    k.processes p = some P ∧ P.isRunnable = true ∧
    Ends (applyPending host exec fuel p) (k.beginVisit p) () k₁ ∧ AtCode k₁ p f F P₁ ∧
    Ends (exec F) (k₁.markRunning p P₁) value t ∧ Returned t p P₂

/-- A process is gone, and the exit handler of its state has run once. -/
structure Removed (t u : Kernel σ μ) (p f : ℕ) : Prop where
  ready : p ∉ u.ready
  suspended : p ∉ u.suspended
  byPid : ∀ pid, (pid, p) ∉ u.byPid
  all : p ∉ u.all
  exits : u.history.exits f = t.history.exits f + 1

/-! ### Runs -/

/-- Every process in `m_all` is there, and if it is dead it is being torn down; a process that is
being spawned is not in it yet. -/
structure Accounted (k : Kernel σ μ) : Prop where
  distinct : k.all.Nodup
  spawning : k.history.spawning.Nodup
  apart : ∀ p ∈ k.history.spawning, p ∉ k.all
  created : ∀ p ∈ k.history.spawning, p < k.processCount
  there : ∀ p ∈ k.all, ∃ P, k.processes p = some P ∧
    (P.isDead = true → ∃ b, (p, b) ∈ k.history.dying)

/-- A process is in `m_all` and not being torn down. -/
def Stays (p : ℕ) (k : Kernel σ μ) : Prop :=
  Accounted k ∧ p ∈ k.all ∧ ∀ b, (p, b) ∉ k.history.dying

end Finished

/-!
## The lists of the scheduler

Where a process is: in `m_all` and in one place, which is one of the two lists or an active call
that has taken it out of them, or not in `m_all` yet as it is being spawned. And the ticks: each
takes the ready queue as its snapshot and visits what it has taken.
-/

section Queues

variable {σ μ : Type}

/-- How often a process is in `m_all` or being spawned. -/
def population (k : Kernel σ μ) (p : ℕ) : ℕ := k.all.count p + k.history.spawning.count p

/-- The places of the processes in `m_all`. -/
def places (k : Kernel σ μ) : List ℕ :=
  k.history.pending ++ k.history.quanta.map Prod.fst ++ k.history.settling ++
    k.history.dying.map Prod.fst ++ k.ready ++ k.suspended

def NoTick (k : Kernel σ μ) : Prop :=
  k.history.pending = [] ∧ k.history.quanta = [] ∧ k.history.settling = []

/-- A process is killed only where no active call uses it, and resumed only from the list of
suspended ones. -/
def OrderlyKills (a : KernelAction) (k : Kernel σ μ) : Prop :=
  match a with
  | .kills p => ¬ InUse k p
  | .resumes p => p ∈ k.suspended
  | _ => True

/-- Every process in `m_all` is in one place, processes are there as long as they are listed or
used, and their status is one of a process that runs or waits to. -/
structure Listed (k : Kernel σ μ) : Prop where
  placed : ∀ p, k.all.count p = (places k).count p
  once : ∀ p, population k p ≤ 1
  cells : ∀ p, k.processes p ≠ none ↔ 0 < population k p
  used : ∀ p, (p ∈ k.history.called ∨ (∃ s, (p, s) ∈ k.history.leaving) ∨
    ∃ s, (p, s) ∈ k.history.entering) → 0 < population k p
  current : ∀ p, k.currentProcess = some p →
    p ∈ k.history.spawning ∨ ∃ b, (p, b) ∈ k.history.quanta
  children : ∀ p P, k.processes p = some P → P.children = []
  pids : ∀ pid p, (pid, p) ∈ k.byPid →
    p ∈ k.all ∧ (p, true) ∉ k.history.dying ∧ ∃ P, k.processes p = some P ∧ P.pid = pid
  status : ∀ p P, k.processes p = some P → p ∈ k.all → (∀ b, (p, b) ∉ k.history.dying) →
    P.status = .READY ∨ P.status = .SUSPENDED ∨
      P.status = .RUNNING ∧ (p, true) ∈ k.history.quanta

/-- Between the calls of the host: `m_all` names the processes that are there, each once; each is in
one of the two lists, once, and has the status of one that waits; a pid leads to one of them. -/
structure Rests (k : Kernel σ μ) : Prop where
  distinct : k.all.Nodup
  there : ∀ p, k.processes p ≠ none ↔ p ∈ k.all
  listed : k.all.Perm (k.ready ++ k.suspended)
  status : ∀ p ∈ k.all, ∃ P, k.processes p = some P ∧
    (P.status = .READY ∨ P.status = .SUSPENDED)
  pids : ∀ pid p, (pid, p) ∈ k.byPid → p ∈ k.all ∧ ∃ P, k.processes p = some P ∧ P.pid = pid
  current : k.currentProcess = none

/-- A process is changed without a change of its pid or a new child. -/
def SameIdentity (P P' : Process) : Prop :=
  P'.pid = P.pid ∧ (P.children = [] → P'.children = [])

def IdentityKept (k t : Kernel σ μ) : Prop :=
  ∀ q, (t.processes q = none ↔ k.processes q = none) ∧
    ∀ P P', k.processes q = some P → t.processes q = some P' → SameIdentity P P'

/-! ### State frames -/

def OnStack (k : Kernel σ μ) (f : ℕ) : Prop := ∃ p P, k.processes p = some P ∧ f ∈ P.stack

/-- Every state frame that was pushed is on the stack of one process and not exited, or was
exited once and is on no stack; a stack has at most one frame, the current one. -/
structure StacksHold (k : Kernel σ μ) : Prop where
  single : ∀ p P, k.processes p = some P →
    P.stack = [] ∧ P.currentStateFrame = none ∨
      ∃ f, P.stack = [f] ∧ P.currentStateFrame = some f
  below : ∀ f, OnStack k f → f < k.stateFrameCount
  unique : ∀ p q P Q f, k.processes p = some P → k.processes q = some Q → f ∈ P.stack →
    f ∈ Q.stack → p = q
  entered : ∀ f, k.history.enters f = if f < k.stateFrameCount then 1 else 0
  waiting : ∀ f, OnStack k f ∨ k.stateFrameCount ≤ f → k.history.exits f = 0
  exited : ∀ f, ¬ OnStack k f → f < k.stateFrameCount → k.history.exits f = 1

/-! ### Ticks -/

/-- The condition on the steps of a run: a process is killed only where no active call uses it
and no tick is active, it is resumed only from the suspended ones, and no tick begins inside
another. -/
def KeepsTicks (a : KernelAction) (k : Kernel σ μ) : Prop :=
  match a with
  | .kills p => ¬ InUse k p ∧ NoTick k
  | .resumes p => p ∈ k.suspended
  | .ticks => NoTick k
  | _ => True

theorem inUse_iff (k : Kernel σ μ) (p : ℕ) :
    (p ∈ k.history.pending ∨ p ∈ k.history.quanta.map Prod.fst ∨ p ∈ k.history.settling ∨
      p ∈ k.history.spawning ∨ p ∈ k.history.dying.map Prod.fst ∨ p ∈ k.history.called ∨
      p ∈ k.history.leaving.map Prod.fst ∨ p ∈ k.history.entering.map Prod.fst) ↔ InUse k p := by
  simp [InUse]

instance (k : Kernel σ μ) (p : ℕ) : Decidable (InUse k p) :=
  decidable_of_iff _ (inUse_iff k p)

instance (a : KernelAction) (k : Kernel σ μ) : Decidable (OrderlyKills a k) :=
  match a with
  | .kills p => inferInstanceAs (Decidable (¬ InUse k p))
  | .resumes p => inferInstanceAs (Decidable (p ∈ k.suspended))
  | .handles _ | .begins _ | .clears _ | .calls _ | .ticks | .lists _ | .visits _ | .parks _
  | .buries _ | .reads _ | .suspends _ | .wakes _ | .goes _ _ => isTrue trivial

theorem noTick_iff (k : Kernel σ μ) :
    (k.history.pending.isEmpty ∧ k.history.quanta.isEmpty ∧ k.history.settling.isEmpty) ↔
      NoTick k := by
  simp [NoTick]

instance (k : Kernel σ μ) : Decidable (NoTick k) :=
  decidable_of_iff _ (noTick_iff k)

instance (a : KernelAction) (k : Kernel σ μ) : Decidable (KeepsTicks a k) :=
  match a with
  | .kills p => inferInstanceAs (Decidable (¬ InUse k p ∧ NoTick k))
  | .resumes p => inferInstanceAs (Decidable (p ∈ k.suspended))
  | .ticks => inferInstanceAs (Decidable (NoTick k))
  | .handles _ | .begins _ | .clears _ | .calls _ | .lists _ | .visits _ | .parks _ | .buries _
  | .reads _ | .suspends _ | .wakes _ | .goes _ _ => isTrue trivial

/-- What is promised of the steps of a run. A tick begins with every process of the snapshots so
far visited once; a visit is of the next process of the last snapshot, which names no process
twice; a process that is listed is in no snapshot so far; a handler runs for a process that is
there; the pid of a deleted process is read in no tick, and each state frame that was pushed is
on the stack of one process or was exited once. -/
def VisitsOnce (a : KernelAction) (k : Kernel σ μ) : Prop :=
  match a with
  | .ticks => k.history.visits = k.history.snapshots.flatten
  | .visits p => k.processes p ≠ none ∧ ∃ older done rest,
      k.history.snapshots = older ++ [done ++ p :: rest] ∧ (done ++ p :: rest).Nodup ∧
        k.history.visits = older.flatten ++ done
  | .lists p => ∀ snapshot ∈ k.history.snapshots, p ∉ snapshot
  | .handles p => k.processes p ≠ none
  | .reads _ => NoTick k ∧ ∀ f, f < k.stateFrameCount →
      OnStack k f ∧ k.history.exits f = 0 ∨ ¬ OnStack k f ∧ k.history.exits f = 1
  | .buries _ => False
  | _ => True

structure TicksHold (k : Kernel σ μ) : Prop where
  listed : Listed k
  stateFrames : StacksHold k
  progress : k.history.pending = [] ∧ k.history.visits = k.history.snapshots.flatten ∨
    ∃ older done, k.history.snapshots = older ++ [done ++ k.history.pending] ∧
      k.history.visits = older.flatten ++ done
  distinct : ∀ snapshot ∈ k.history.snapshots, snapshot.Nodup
  taken : ∀ snapshot ∈ k.history.snapshots, ∀ p ∈ snapshot,
    p < k.processCount ∧ p ∉ k.history.spawning

end Queues

end Soot.Model
