import Soot.Program.Scheduler
import Soot.Program.VirtualMachine

/-!
# What the kernel does, step by step

Every change of the kernel that is made at once, with what is known where it is made: which
calls are active, what was just read, and what is known of a step recorded before, as `C`. An
invariant of all runs is one that these steps preserve.
-/

set_option autoImplicit false

namespace Soot.Model

open Soot.Computation.Recording Soot.Program

variable {σ μ : Type}

/-! ## Where a change is made -/

def Kernel.owner (k : Kernel σ μ) (F : ℕ) : Option ℕ := (k.frames F).bind (·.process)

/-- A frame that a run for a process is started on: one of its own, its main thread, or the
parked main frame of a track of one of its states. -/
def FrameFits (k : Kernel σ μ) (p F : ℕ) : Prop :=
  (∃ c, k.frames F = some c ∧ c.process = some p) ∨
  (∃ P, k.processes p = some P ∧ P.mainThread = some F) ∨
  ∃ f frame t, k.stateFrames f = some frame ∧ frame.process = p ∧ t ∈ frame.tracks ∧
    t.mainFrame = some F

/-- A run may be started on a frame: for a process it fits, or on code of no process. -/
def Enterable (C : KernelAction → Kernel σ μ → Prop) (k : Kernel σ μ) (F : ℕ) : Prop :=
  (∃ p, C (.handles p) k ∧ FrameFits k p F) ∨ ∃ c, k.frames F = some c ∧ c.process = none

/-- A main thread is a new frame of the state's code, or none if the state has no code. -/
def MainFits (k : Kernel σ μ) (p : ℕ) (s : ScriptState) (main : Option ℕ) : Prop :=
  match main with
  | none => s.function .Code = none
  | some F => ∃ c, k.frames F = some c ∧ c.process = some p ∧ s.function .Code = some c.lambda

def InUse (k : Kernel σ μ) (p : ℕ) : Prop :=
  p ∈ k.history.pending ∨ (∃ b, (p, b) ∈ k.history.quanta) ∨ p ∈ k.history.settling ∨
  p ∈ k.history.spawning ∨
  (∃ b, (p, b) ∈ k.history.dying) ∨ p ∈ k.history.called ∨ (∃ s, (p, s) ∈ k.history.leaving) ∨
  ∃ s, (p, s) ∈ k.history.entering

/-- An active call uses the process, or the scheduler or another process has it. -/
def Known (k : Kernel σ μ) (p : ℕ) : Prop :=
  InUse k p ∨ p ∈ k.all ∨ p ∈ k.suspended ∨ (∃ pid, (pid, p) ∈ k.byPid) ∨ k.currentProcess = some p ∨
  ∃ q Q, k.processes q = some Q ∧ p ∈ Q.children

/-- Two processes that differ at most in `should_yield`, the sleep timer and the clock. -/
def SameButClock (P P' : Process) : Prop :=
  P' = { P with
    shouldYield := P'.shouldYield, sleepFrames := P'.sleepFrames, stateTime := P'.stateTime }

/-- The machine moved on: memory, flags and the code of frames may have changed, and the
current frame may have been dropped. -/
structure MachineMoves (k t : Kernel σ μ) : Prop where
  rest : t = { k with
    frames := t.frames, memory := t.memory, currentFrame := t.currentFrame
    hasError := t.hasError, isYielded := t.isYielded }
  frames : ∀ F, (t.frames F).map (fun c => (c.lambda, c.process)) =
    (k.frames F).map (fun c => (c.lambda, c.process))
  currentFrame : t.currentFrame = k.currentFrame ∨ t.currentFrame = none

/-- New tracks for a state frame: those it has, with their times and main frames changed; a
main frame that is new is a frame of the process. -/
structure TracksMove (k : Kernel σ μ) (frame : StateFrame) (tracks : List TrackFrame) : Prop where
  same : tracks.map (·.track) = frame.tracks.map (·.track)
  mains : ∀ t ∈ tracks, ∀ F, t.mainFrame = some F →
    (∃ t' ∈ frame.tracks, t'.mainFrame = some F) ∨
    ∃ c, k.frames F = some c ∧ c.process = some frame.process

/-! ## The steps -/

inductive KernelStep (host : KernelHost σ μ) (C : KernelAction → Kernel σ μ → Prop) :
    Kernel σ μ → Kernel σ μ → Prop where
  /-- a new frame of script code -/
  | frame (k : Kernel σ μ) (lambda : Lambda) (args : Arguments) (p : Option ℕ) :
      KernelStep host C k (k.withFrame ⟨lambda, host.enter lambda args, p⟩)
  | leaveRun {k : Kernel σ μ} (active : k.history.active ≠ []) : KernelStep host C k k.leaveRun
  | machine {k t : Kernel σ μ} (moves : MachineMoves k t) : KernelStep host C k t
  | clock {k : Kernel σ μ} {p : ℕ} {P P' : Process} (cell : k.processes p = some P)
      (same : SameButClock P P') : KernelStep host C k (k.setProcess p (some P'))
  | suspend {k : Kernel σ μ} {p : ℕ} {P : Process} (cell : k.processes p = some P)
      (condition : C (.suspends p) k) : KernelStep host C k (k.setProcess p (some P.suspend))
  | wake {k : Kernel σ μ} {p : ℕ} {P : Process} (cell : k.processes p = some P)
      (condition : C (.wakes p) k) : KernelStep host C k (k.setProcess p (some P.wakeUp))
  | tracks {k : Kernel σ μ} {f : ℕ} {frame : StateFrame} {tracks : List TrackFrame}
      (cell : k.stateFrames f = some frame) (moves : TracksMove k frame tracks) :
      KernelStep host C k (k.setStateFrame f (some { frame with tracks := tracks }))
  -- state frames
  | pop {k : Kernel σ μ} {p f : ℕ} {P : Process} {rest : List ℕ}
      (cell : k.processes p = some P) (top : P.stack = f :: rest)
      (leaves : (∃ s l, k.history.leaving = (p, s) :: l) ∨ ∃ b l, k.history.dying = (p, b) :: l) :
      KernelStep host C k (k.popState p P f rest)
  | drop {k : Kernel σ μ} {f : ℕ} {l : List ℕ} (exiting : k.history.exiting = f :: l) :
      KernelStep host C k (k.dropState f)
  | push {k : Kernel σ μ} {p : ℕ} {P : Process} {s : ScriptState}
      (cell : k.processes p = some P) (stack : P.stack = [])
      (state : P.currentState = some s) (trans : P.transHook = s.function .Update)
      (post : P.postHook = s.function .Post)
      (enters : (∃ l, k.history.leaving = (p, s) :: l) ∨
        (∃ l, k.history.spawning = p :: l) ∧ k.history.told p = some s ∧ P.nextState = none ∧
          P.mainThread = none) :
      KernelStep host C k (k.pushState p P s)
  -- transitions
  | beginNow {k : Kernel σ μ} {p : ℕ} {P : Process} {s : ScriptState}
      (cell : k.processes p = some P) (status : P.status ≠ .RUNNING)
      (condition : C (.goes p s) k) : KernelStep host C k (k.beginTransition p s)
  | beginPending {k : Kernel σ μ} {p : ℕ} {P : Process} {s : ScriptState} {l : List (ℕ × Bool)}
      (cell : k.processes p = some P) (pending : P.nextState = some s)
      (quantum : k.history.quanta = (p, false) :: l) : KernelStep host C k (k.beginTransition p s)
  | switch {k : Kernel σ μ} {p : ℕ} {P : Process} {s : ScriptState}
      {l : List (ℕ × ScriptState)} (cell : k.processes p = some P) (stack : P.stack = [])
      (leaving : k.history.leaving = (p, s) :: l) : KernelStep host C k (k.switchState p P s)
  | left {k : Kernel σ μ} {p : ℕ} {s : ScriptState} {l l' : List (ℕ × ScriptState)}
      (leaving : k.history.leaving = (p, s) :: l) (entering : k.history.entering = (p, s) :: l') :
      KernelStep host C k (k.noting fun h => { h with leaving := h.leaving.tail })
  | main {k : Kernel σ μ} {p : ℕ} {P : Process} {s : ScriptState} {l : List (ℕ × ScriptState)}
      {main : Option ℕ} (cell : k.processes p = some P)
      (entering : k.history.entering = (p, s) :: l) (fits : MainFits k p s main) :
      KernelStep host C k (k.setProcess p (some { P with mainThread := main }))
  | clearPending {k : Kernel σ μ} {p : ℕ} {P : Process} {s : ScriptState}
      {l : List (ℕ × ScriptState)} (cell : k.processes p = some P)
      (entering : k.history.entering = (p, s) :: l) :
      KernelStep host C k (k.setProcess p
        (some { P with nextState := none, mask := P.mask &&& ~~~MASK_GOING }))
  | entered {k : Kernel σ μ} {p : ℕ} {P : Process} {s : ScriptState}
      {l : List (ℕ × ScriptState)} (cell : k.processes p = some P)
      (entering : k.history.entering = (p, s) :: l) (fits : MainFits k p s P.mainThread) :
      KernelStep host C k (k.noting fun h => { h with entering := h.entering.tail })
  | defer {k : Kernel σ μ} {p : ℕ} {P : Process} {s : ScriptState}
      (cell : k.processes p = some P) (status : P.status = .RUNNING)
      (condition : C (.goes p s) k) : KernelStep host C k (k.deferTransition p P s)
  -- events
  | call {k : Kernel σ μ} {p : ℕ} {P : Process} (cell : k.processes p = some P) :
      KernelStep host C k (k.noting fun h => { h with called := p :: h.called })
  | called {k : Kernel σ μ} {p : ℕ} {l : List ℕ} (called : k.history.called = p :: l) :
      KernelStep host C k (k.noting fun h => { h with called := h.called.tail })
  -- quanta
  | visit {k : Kernel σ μ} {p : ℕ} {P : Process} {l : List ℕ}
      (pending : k.history.pending = p :: l) (cell : k.processes p = some P)
      (alive : P.isDead = false) (current : k.currentProcess = none)
      (condition : C (.visits p) k) : KernelStep host C k (k.beginVisit p)
  | skip {k : Kernel σ μ} {p : ℕ} {P : Process} {l : List ℕ}
      (pending : k.history.pending = p :: l) (cell : k.processes p = some P)
      (dead : P.isDead = true) :
      KernelStep host C k (k.noting fun h => { h with pending := h.pending.tail })
  | running {k : Kernel σ μ} {p : ℕ} {P : Process} {l : List (ℕ × Bool)}
      (cell : k.processes p = some P) (quantum : k.history.quanta = (p, false) :: l) :
      KernelStep host C k (k.markRunning p P)
  | parks {k : Kernel σ μ} {p : ℕ} {P : Process} {l : List (ℕ × Bool)}
      (cell : k.processes p = some P) (quantum : k.history.quanta = (p, true) :: l)
      (settled : k.history.settled = true) (condition : C (.parks p) k) :
      KernelStep host C k (k.setProcess p (some { P with mainThread := k.currentFrame }))
  | rested {k : Kernel σ μ} {p : ℕ} {P P' : Process} {l : List (ℕ × Bool)}
      (cell : k.processes p = some P) (quantum : k.history.quanta = (p, true) :: l)
      (rests : P' = { P with status := .READY } ∨ P' = settleStatus P) :
      KernelStep host C k (k.markRested p P')
  | visited {k k₀ : Kernel σ μ} {p : ℕ} (begun : C (.visits p) k₀)
      (quantum : k.history.quanta = (p, false) :: k₀.history.quanta)
      (enters : k.history.begun = k₀.history.begun)
      (active : k.history.active = k₀.history.active) (condition : C (.clears p) k) :
      KernelStep host C k (k.endVisit p)
  | place {k : Kernel σ μ} {p : ℕ} {P : Process} {l : List ℕ}
      (cell : k.processes p = some P) (settling : k.history.settling = p :: l)
      (alive : P.isDead = false) : KernelStep host C k (k.place p P)
  | bury {k : Kernel σ μ} {p : ℕ} {P : Process} {l : List ℕ}
      (cell : k.processes p = some P) (settling : k.history.settling = p :: l)
      (dead : P.isDead = true) (condition : C (.buries p) k) :
      KernelStep host C k (k.noting fun h =>
        { h with settling := h.settling.tail, dying := (p, false) :: h.dying })
  -- killing
  | detach {k : Kernel σ μ} {p : ℕ} {P : Process} (cell : k.processes p = some P)
      (alive : P.isDead = false) (condition : C (.kills p) k) : KernelStep host C k (k.detach p)
  | child {k : Kernel σ μ} {p c : ℕ} {P : Process} {cs : List ℕ} {l : List (ℕ × Bool)}
      (cell : k.processes p = some P) (dying : k.history.dying = (p, false) :: l)
      (children : P.children = c :: cs) :
      KernelStep host C k (k.setProcess p (some { P with children := cs }))
  | die {k : Kernel σ μ} {p : ℕ} {P : Process} {l : List (ℕ × Bool)}
      (cell : k.processes p = some P) (dying : k.history.dying = (p, false) :: l) :
      KernelStep host C k (k.setProcess p (some { P with status := .DEAD }))
  | unlist {k : Kernel σ μ} {p : ℕ} {P : Process} {l : List (ℕ × Bool)}
      (cell : k.processes p = some P) (dying : k.history.dying = (p, false) :: l) :
      KernelStep host C k (k.unlist p P.pid)
  | delete {k k₀ : Kernel σ μ} {p : ℕ} {P : Process} {l : List (ℕ × Bool)}
      (cell : k.processes p = some P) (dying : k.history.dying = (p, true) :: l)
      (stack : P.stack = []) (begun : C (.kills p) k₀ ∨ C (.buries p) k₀)
      (called : k.history.called = k₀.history.called)
      (leaving : k.history.leaving = k₀.history.leaving)
      (entering : k.history.entering = k₀.history.entering) : KernelStep host C k (k.delete p)
  | unlisted {k : Kernel σ μ} {p : ℕ} {l : List (ℕ × Bool)}
      (dying : k.history.dying = (p, true) :: l) (gone : p ∉ k.all) :
      KernelStep host C k (k.noting fun h => { h with dying := h.dying.tail })
  -- spawning
  | nextPid (k : Kernel σ μ) : KernelStep host C k { k with nextPid := k.nextPid + 1 }
  | create {k : Kernel σ μ} {name : Word} {script : StateScript} {s : ScriptState} (pid : ℕ)
      (entry : host.entries name = some script)
      (state : script.resolveState script.initialStateId = some s) :
      KernelStep host C k (k.withProcess (freshProcess pid name script s) s)
  | begins {k : Kernel σ μ} {p : ℕ} {l : List ℕ} (spawning : k.history.spawning = p :: l)
      (condition : C (.begins p) k) : KernelStep host C k (k.beginEnter p)
  | begun {k k₀ : Kernel σ μ} {p : ℕ} {l : List ℕ} (spawning : k.history.spawning = p :: l)
      (begun : C (.begins p) k₀) (quanta : k.history.quanta = k₀.history.quanta)
      (enters : k.history.begun = p :: k₀.history.begun)
      (active : k.history.active = k₀.history.active) (condition : C (.clears p) k) :
      KernelStep host C k k.endEnter
  | readied {k : Kernel σ μ} {p : ℕ} {P : Process} {l : List ℕ} (cell : k.processes p = some P)
      (spawning : k.history.spawning = p :: l) :
      KernelStep host C k (k.setProcess p (some { P with status := .READY }))
  | list {k : Kernel σ μ} {p : ℕ} {P : Process} {s : ScriptState} {l : List ℕ}
      {l' : List (ℕ × ScriptState)} (cell : k.processes p = some P)
      (status : P.status = .READY) (spawning : k.history.spawning = p :: l)
      (entering : k.history.entering = (p, s) :: l')
      (main : s.function .Code ≠ none → MainFits k p s P.mainThread)
      (current : k.currentProcess = none) (condition : C (.lists p) k) :
      KernelStep host C k (k.list p P)
  -- the scheduler
  | awake {k k₀ : Kernel σ μ} {p i : ℕ} {P : Process} (cell : k.processes p = some P)
      (here : k.suspended[i]? = some p) (alive : P.isDead = false) (timer : P.sleepFrames = 1)
      (begun : C .ticks k₀) (since : k₀.history = k.history) :
      KernelStep host C k (k.awake p P i)
  | takeReady {k k₀ : Kernel σ μ} (begun : C .ticks k₀) (since : k₀.history = k.history)
      (current : k.currentProcess = none) : KernelStep host C k k.takeReady
  | resume {k : Kernel σ μ} {p : ℕ} {P : Process} (cell : k.processes p = some P)
      (status : P.status = .SUSPENDED) (condition : C (.resumes p) k) :
      KernelStep host C k (k.resume p P)

/-! ## What calls leave as they found it -/

/-- A call leaves the stacks of active calls as it found them, keeps what frames are for, and
leaves the current process or none. -/
structure Balanced (k t : Kernel σ μ) : Prop where
  pending : t.history.pending = k.history.pending
  quanta : t.history.quanta = k.history.quanta
  settling : t.history.settling = k.history.settling
  spawning : t.history.spawning = k.history.spawning
  begun : t.history.begun = k.history.begun
  dying : t.history.dying = k.history.dying
  called : t.history.called = k.history.called
  leaving : t.history.leaving = k.history.leaving
  entering : t.history.entering = k.history.entering
  exiting : t.history.exiting = k.history.exiting
  active : t.history.active = k.history.active
  frames : ∀ F c, k.frames F = some c → ∃ c', t.frames F = some c' ∧ c'.lambda = c.lambda ∧
    c'.process = c.process
  stateFrames : ∀ f frame, f < k.stateFrameCount → t.stateFrames f = some frame →
    ∃ frame', k.stateFrames f = some frame' ∧ frame'.process = frame.process
  stateFrameCount : k.stateFrameCount ≤ t.stateFrameCount
  currentProcess : t.currentProcess = k.currentProcess ∨ t.currentProcess = none

/-! ## Invariants of all runs -/

/-- State frames belong to the process they were pushed for, and tables are filled in order. -/
structure FramesInOrder (k : Kernel σ μ) : Prop where
  frames : ∀ F, k.frameCount ≤ F → k.frames F = none
  stateFrames : ∀ f, k.stateFrameCount ≤ f → k.stateFrames f = none
  processes : ∀ p, k.processCount ≤ p → k.processes p = none
  current : ∀ p P f, k.processes p = some P → P.currentStateFrame = some f →
    f < k.stateFrameCount ∧ ∀ frame, k.stateFrames f = some frame → frame.process = p

def NotedAt (C : KernelAction → Kernel σ μ → Prop) (k : Kernel σ μ) : KernelAction → Prop
  | .handles p => InUse k p
  | .calls _ => k.history.active ≠ []
  | .ticks => k.currentProcess = none
  | .begins p => ∃ l, k.history.spawning = p :: l
  | .clears p => (∃ l, k.history.spawning = p :: l) ∨ ∃ l, k.history.quanta = (p, false) :: l
  | .lists p => ∃ l, k.history.spawning = p :: l
  | .visits p => k.currentProcess = none ∧ ∃ l, k.history.pending = p :: l
  | .parks p => ∃ l, k.history.quanta = (p, true) :: l
  | .kills p => ∃ P, k.processes p = some P ∧ P.isDead = false
  | .buries p => ∃ P l, k.processes p = some P ∧ P.isDead = true ∧ k.history.settling = p :: l
  | .reads p => ∃ k₀, C (.kills p) k₀ ∧ k.history.pending = k₀.history.pending ∧
      k.history.quanta = k₀.history.quanta ∧ k.history.settling = k₀.history.settling
  | .resumes p => ∃ P, k.processes p = some P ∧ P.status = .SUSPENDED
  | .suspends p => Known k p
  | .wakes p => Known k p
  | .goes p _ => Known k p

/-- A run on a frame that calls no native function while the steps recorded meet the condition,
and keeps the invariant where the machine is left. -/
def Silent (C : KernelAction → Kernel σ μ → Prop) (I : Kernel σ μ → Prop) (k : Kernel σ μ)
    (F : ℕ) : Prop :=
  ∀ t, MachineMoves (k.enterRun F (Kernel.owner k F)) t →
    (t.currentFrame = some F → ∀ native, ¬ C (.calls native) t) ∧ I t.leaveRun

/-- An invariant that every step keeps, and every run as it is entered if it is not silent, promises
it makes at the steps recorded, and stops it rules out. -/
structure Upholds (host : KernelHost σ μ) (C P : KernelAction → Kernel σ μ → Prop) (E : Stop → Prop)
    (I : Kernel σ μ → Prop) : Prop where
  step : ∀ k t, FramesInOrder k → I k → KernelStep host (fun a k => C a k ∧ P a k) k t → I t
  enters : ∀ k F, I k → Enterable (fun a k => C a k ∧ P a k) k F →
    I (k.enterRun F (Kernel.owner k F)) ∨ Silent C I k F
  promise : ∀ k a, I k → NotedAt (fun a k => C a k ∧ P a k) k a → C a k → P a k
  known : ∀ k p, I k → Known k p → k.processes p = none → E .freedProcess
  freedFrame : E .freedFrame
  undefined : E .undefined
  escaped : E .escaped
  outOfFuel : E .outOfFuel

def KernelHolds (I : Kernel σ μ → Prop) (k : Kernel σ μ) : Prop := I k ∧ FramesInOrder k

def CallKeeps (I : Kernel σ μ → Prop) (k t : Kernel σ μ) : Prop := KernelHolds I t ∧ Balanced k t

/-- A run of the machine does what a call does, and says that the machine was left. -/
def RunsKeep (C P : KernelAction → Kernel σ μ → Prop) (E : Stop → Prop) (I : Kernel σ μ → Prop)
    (exec : ℕ → KernelM σ μ Variant) : Prop :=
  ∀ k F, KernelHolds I k → Enterable (fun a k => C a k ∧ P a k) k F →
    Meets C P E (exec F) k fun _ t => CallKeeps I k t ∧ t.history.settled = true

/-! ## A program -/

def isTick : KernelAction → Bool
  | .ticks => true
  | _ => false

/-- Script code in which each lambda is a list of native calls, with the given state scripts. -/
def scriptHost (entries : Word → Option StateScript) (code : Lambda → List Native) :
    KernelHost (List Native) Unit where
  enter := fun lambda _ => code lambda
  step := fun natives _ =>
    match natives with
    | [] => .returns .null ()
    | native :: rest => .calls native rest () fun _ next => next
  entries := entries
  fpu := bareRuntime.fpu

/-- Two state scripts with one state each, whose code is the lambda of the same number. -/
def twoScripts (name : Word) : Option StateScript :=
  if name = 1 then some ⟨1, [⟨1, [⟨.Code, 0, some 1, []⟩]⟩]⟩
  else if name = 2 then some ⟨1, [⟨1, [⟨.Code, 0, some 2, []⟩]⟩]⟩
  else none

end Soot.Model
