import Soot.Computation.Recording
import Soot.Program.Variant

/-!
# Processes

What the scheduler, the processes and the virtual machine keep while state scripts run. Objects
are cells of tables, named by their index; a process or a state frame that has been deleted
leaves an empty cell, and using it then stops the run. Script code is a transition system: a
frame stands for a call and the calls it makes in turn, and all that is kept of the
instructions between two native calls is what they do to memory.

`History` is not in the source: it holds the locals of the calls that are active and what has
happened, for the statements about runs; no operation reads it.
-/

set_option autoImplicit false

namespace Soot.Program

/-! ## State scripts in memory -/

/-- A `ScriptLambda`. -/
abbrev Lambda := ℕ

/-- SRCLINE: DCScript.hpp:66-75 -/
inductive BlockType where
  | Enter | End | Event | Update | Virtual | Code | Exit | Post
  deriving DecidableEq

/-- A lambda of a track; a main lambda has the frame number `FRAME_SENTINEL_MAIN`.
SRCLINE: DCScript.hpp:260-272 -/
structure TrackLambda where
  scriptLambda : Option Lambda
  frameNumber : Word
  deriving DecidableEq

/-- SRCLINE: DCScript.hpp:264 -/
def FRAME_SENTINEL_MAIN : Word := 0xFFFFFFFFFFFFFFFF

/-- SRCLINE: DCScript.hpp:247-256 -/
structure TrackData where
  trackId : Word
  lambdas : List TrackLambda
  deriving DecidableEq

/-- SRCLINE: DCScript.hpp:119-140 -/
structure OnBlock where
  blockType : BlockType
  blockEventId : Word
  scriptLambda : Option Lambda
  trackGroup : List TrackData
  deriving DecidableEq

/-- SRCLINE: DCScript.hpp:78-103 -/
structure ScriptState where
  stateId : Word
  onBlocks : List OnBlock
  deriving DecidableEq

namespace ScriptState

/-- SRCLINE: DCScript.hpp:430-445 -/
def lookup (s : ScriptState) (type : BlockType) : Option OnBlock :=
  s.onBlocks.find? (·.blockType = type)

@[inherit_doc lookup] def lookupEvent (s : ScriptState) (event : Word) : Option OnBlock :=
  s.onBlocks.find? fun b => b.blockType = .Event ∧ b.blockEventId = event

/-- `get_trans_function` and the like. SRCLINE: DCScript.hpp:447-470 -/
def function (s : ScriptState) (type : BlockType) : Option Lambda :=
  (s.lookup type).bind (·.scriptLambda)

@[inherit_doc function] def eventHandler (s : ScriptState) (event : Word) : Option Lambda :=
  (s.lookupEvent event).bind (·.scriptLambda)

/-- The tracks of the `enter` block. SRCLINE: Scheduler.cpp:56-65 -/
def enterTracks (s : ScriptState) : List TrackData :=
  ((s.lookup .Enter).map (·.trackGroup)).getD []

end ScriptState

/-- SRCLINE: DCScript.hpp:149-176 -/
structure StateScript where
  initialStateId : Word
  states : List ScriptState
  deriving DecidableEq

def StateScript.resolveState (script : StateScript) (id : Word) : Option ScriptState :=
  script.states.find? (·.stateId = id)

/-! ## Frames -/

/-- A `TrackFrame`. SRCLINE: TrackFrame.hpp:31-60 -/
structure TrackFrame where
  track : TrackData
  time : Word
  mainStarted : Bool
  mainFrame : Option ℕ

/-- A `StateFrame` with the track frames below it, and the process whose stack it is pushed
on. SRCLINE: StateFrame.hpp:25-50 -/
structure StateFrame where
  state : ScriptState
  tracks : List TrackFrame
  process : ℕ

/-- A frame of script code: its lambda, where its code is, and the process whose handler it
runs, if any. SRCLINE: StackFrame.hpp:51-90 -/
structure CodeFrame (σ : Type) where
  lambda : Lambda
  code : σ
  process : Option ℕ

/-! ## Processes -/

/-- SRCLINE: Types.hpp:11-19 -/
inductive ProcessStatus where
  | DEAD | READY | RUNNING | SUSPENDED | WAITING_TO_RUN | INITIALIZE | INITIALIZE_GO
  deriving DecidableEq

/-- The flags of `ProcessMask` that are looked at or set.
SRCLINE: Types.hpp:26-36 -/
def MASK_EXECUTE : BitVec 32 := 1
@[inherit_doc MASK_EXECUTE] def MASK_SLEEP : BitVec 32 := 2
@[inherit_doc MASK_EXECUTE] def MASK_SLEEP_CODE : BitVec 32 := 4
@[inherit_doc MASK_EXECUTE] def MASK_GOING : BitVec 32 := 64

/-- A process. `brother` is the tail of the parent's `children`; `top_thread`, which is only
saved and written back, is left out. SRCLINE: Process.hpp:30-190 -/
structure Process where
  pid : ℕ
  name : Word
  type : StateScript
  status : ProcessStatus
  mask : BitVec 32
  children : List ℕ
  mainThread : Option ℕ
  stack : List ℕ
  currentStateFrame : Option ℕ
  currentState : Option ScriptState
  nextState : Option ScriptState
  transHook : Option Lambda
  postHook : Option Lambda
  shouldYield : Bool
  sleepFrames : ℤ
  stateTime : Word

namespace Process

/-- SRCLINE: Process.hpp:230-261 -/
def isDead (p : Process) : Bool := p.status = .DEAD

def hasMask (p : Process) (check : BitVec 32) : Bool := p.mask &&& check ≠ 0

def isRunnable (p : Process) : Bool :=
  (p.status = .READY || p.status = .SUSPENDED) && !p.hasMask MASK_EXECUTE && !p.hasMask MASK_SLEEP

/-- SRCLINE: Process.hpp:430-448 -/
def hasAnyEventHandler (p : Process) : Bool :=
  (p.currentState.bind (·.lookup .Event)).isSome

@[inherit_doc hasAnyEventHandler] def eventHandler (p : Process) (event : Word) : Option Lambda :=
  p.currentState.bind (·.eventHandler event)

/-- `RequestYield`, `Suspend`, `WakeUp`. SRCLINE: Process.hpp:174-191 -/
def requestYield (p : Process) : Process := { p with shouldYield := true }

@[inherit_doc requestYield] def suspend (p : Process) : Process :=
  { p with status := .SUSPENDED, shouldYield := true }

@[inherit_doc requestYield] def wakeUp (p : Process) : Process :=
  { p with
    status := if p.status = .SUSPENDED then .READY else p.status
    sleepFrames := 0 }

end Process

/-! ## The kernel -/

/-- What the active calls hold, each as a stack with the innermost call first, and what has
happened so far.
* `pending`: the processes an active `tick` has yet to visit, `quanta`: those whose visit is
  under way, and whether their quantum has marked them as running, `settling`: those whose quantum
  is over and that have yet to be put in a list;
* `spawning`: the processes of the active `spawn`s, `begun`: those whose enter handler is being
  run, `dying`: those being torn down, and whether their pid was erased;
* `called`: the processes whose event handler is being run;
* `leaving`, `entering`: the processes with an active transition, and the state they go to,
  before and after its frame is pushed (`spawn` pushes the frame of the first state);
* `exiting`: the state frames whose exit is under way;
* `active`: for each active run of the machine, the process whose code it was started for;
* `settled`: whether the machine was left since the current process last changed;
* `snapshots`: the ready queues that ticks have taken, `visits`: the processes `execute_quantum`
  was called for, both in order;
* `told`: the state a process was last told to go to, by `spawn` or by an accepted `go_state`;
* `enters`, `exits`: how often the enter handler and the exit handler of a state frame were run,
  counted as the frame is pushed and popped. -/
structure History where
  pending : List ℕ
  quanta : List (ℕ × Bool)
  settling : List ℕ
  spawning : List ℕ
  begun : List ℕ
  dying : List (ℕ × Bool)
  called : List ℕ
  leaving : List (ℕ × ScriptState)
  entering : List (ℕ × ScriptState)
  exiting : List ℕ
  active : List (Option ℕ)
  settled : Bool
  snapshots : List (List ℕ)
  visits : List ℕ
  told : ℕ → Option ScriptState
  enters : ℕ → ℕ
  exits : ℕ → ℕ

def History.empty : History where
  pending := []
  quanta := []
  settling := []
  spawning := []
  begun := []
  dying := []
  called := []
  leaving := []
  entering := []
  exiting := []
  active := []
  settled := false
  snapshots := []
  visits := []
  told := fun _ => none
  enters := fun _ => 0
  exits := fun _ => 0

/-- The tables of objects, the virtual machine, the scheduler and the current process.
SRCLINE: Scheduler.hpp:120-130, VirtualMachine.hpp:42-60, Carbon.cpp:76 -/
structure Kernel (σ μ : Type) where
  processes : ℕ → Option Process
  processCount : ℕ
  stateFrames : ℕ → Option StateFrame
  stateFrameCount : ℕ
  frames : ℕ → Option (CodeFrame σ)
  frameCount : ℕ
  memory : μ
  currentFrame : Option ℕ
  hasError : Bool
  isYielded : Bool
  ready : List ℕ
  suspended : List ℕ
  all : List ℕ
  byPid : List (ℕ × ℕ)
  nextPid : ℕ
  currentProcess : Option ℕ
  history : History

def Kernel.initial {σ μ : Type} (memory : μ) : Kernel σ μ where
  processes := fun _ => none
  processCount := 0
  stateFrames := fun _ => none
  stateFrameCount := 0
  frames := fun _ => none
  frameCount := 0
  memory := memory
  currentFrame := none
  hasError := false
  isYielded := false
  ready := []
  suspended := []
  all := []
  byPid := []
  nextPid := 1
  currentProcess := none
  history := .empty

/-! ## Script code and native calls -/

/-- A process argument: `"self"`, a name, or no process name at all.
SRCLINE: NativeProcess.cpp:42-66 -/
inductive Target where
  | self
  | named (name : Word)
  | nothing

/-- A call of a native function, with its arguments converted: the process natives, the
operations on processes and the scheduler that natives of a host use, running a function (as
loading a module runs its top level), and any other function, which touches no process.
SRCLINE: NativeProcess.cpp:120-410, Process.hpp:174-191 -/
inductive Native where
  | spawn (name : Word) (args : List Variant)
  | start (name : Word) (args : List Variant)
  | currentPid
  | sleep (frames : ℤ)
  | yield
  | kill (target : Target)
  | goState (target : Target) (state : Word)
  | send (source target : Target) (event : Word) (params : List Variant)
  | process (target : Target)
  | getStateTime (target : Target)
  | setStateTime (target : Target) (ticks : Word)
  | getTrackTime (target : Target) (track : Word)
  | setTrackTime (target : Target) (track : Word) (ticks : Word)
  | tick (count : ℕ)
  | run (maxTicks : Option ℕ)
  | suspend (target : Target)
  | requestYield (target : Target)
  | wakeUp (target : Target)
  | resume (pid : ℕ)
  | runs (lambda : Lambda) (args : List Variant)
  | plain (value : Variant)

/-- What a frame is entered with: nothing, the new process (by `spawn`), an event, or values. -/
inductive Arguments where
  | nothing
  | process (p : ℕ)
  | event (sender : ℕ) (event : Word) (params : List Variant)
  | values (args : List Variant)

/-- What script code does next: instructions without a native call, a native call (with the
state it is in meanwhile, and how it takes the value), a return from its first frame, an
instruction that sets the error flag, one that drops the frame, an assertion thrown past the
loop, or something undefined. SRCLINE: VirtualMachine.cpp:76-1046 -/
inductive CodeStep (σ μ : Type) where
  | computes (next : σ) (memory : μ)
  | calls (native : Native) (next : σ) (memory : μ) (store : Variant → σ → σ)
  | returns (value : Variant) (memory : μ)
  | fails (memory : μ)
  | drops (memory : μ)
  | escapes
  | undefined

/-- What the kernel runs in: the compiled lambdas, the state scripts among the globals, and the
floating-point operations. -/
structure KernelHost (σ μ : Type) where
  enter : Lambda → Arguments → σ
  step : σ → μ → CodeStep σ μ
  entries : Word → Option StateScript
  fpu : FloatUnit

/-! ## Steps and stops -/

/-- The steps of a run that statements speak of, recorded just before they are taken. -/
inductive KernelAction where
  /-- a handler of a process is about to run -/
  | handles (p : ℕ)
  /-- the current frame calls a native function -/
  | calls (native : Native)
  /-- `Scheduler::tick` begins -/
  | ticks
  /-- `spawn` is about to make its process the current one -/
  | begins (p : ℕ)
  /-- `spawn` or `tick` is about to reset the current process -/
  | clears (p : ℕ)
  /-- `spawn` is about to list its process under its pid -/
  | lists (p : ℕ)
  /-- `execute_quantum` is called -/
  | visits (p : ℕ)
  /-- the main thread of a process is about to be what the machine is left with -/
  | parks (p : ℕ)
  /-- a live process is about to be killed -/
  | kills (p : ℕ)
  /-- a process that is dead after its quantum is about to be removed -/
  | buries (p : ℕ)
  /-- the pid of a process that was deleted is read for the log -/
  | reads (p : ℕ)
  /-- a suspended process is about to be resumed, by `resume` -/
  | resumes (p : ℕ)
  | suspends (p : ℕ)
  | wakes (p : ℕ)
  /-- `go_state` is called with a state -/
  | goes (p : ℕ) (s : ScriptState)

/-- Why a run stops: a process or a state frame is used after it was deleted (but for the log),
script code or an entry is not what it is taken for, an exception leaves the machine, or the bound
on the number of steps is reached. -/
inductive Stop where
  | freedProcess
  | freedFrame
  | undefined
  | escaped
  | outOfFuel
  deriving DecidableEq

abbrev KernelM (σ μ α : Type) := Computation.Recording (Kernel σ μ) KernelAction Stop α

end Soot.Program
