import Soot.Program.Process
import Soot.Program.Instruction

/-!
# The scheduler, transitions and the virtual machine

Handlers run on the one virtual machine, and the native functions they call spawn, kill and
send to processes, change their states and, where no process is current, tick the scheduler
again. `exec` stands for a run of the machine on a frame; it is tied to the loop of the machine
in `executeFrame`, which bounds the instructions and the nesting by one number. Loops of the source
that handlers can prolong are bounded by the same number.

What is done at once, without a handler in between, is a change of the kernel of its own
(namespace `Kernel`), with what it adds to the history.
-/

set_option autoImplicit false

namespace Soot.Program

open Computation Computation.Recording

variable {σ μ : Type}

/-! ## Changes -/

namespace Kernel

def setProcess (k : Kernel σ μ) (p : ℕ) (P : Option Process) : Kernel σ μ :=
  { k with processes := Function.update k.processes p P }

def setStateFrame (k : Kernel σ μ) (f : ℕ) (frame : Option StateFrame) : Kernel σ μ :=
  { k with stateFrames := Function.update k.stateFrames f frame }

def setFrame (k : Kernel σ μ) (F : ℕ) (frame : CodeFrame σ) : Kernel σ μ :=
  { k with frames := Function.update k.frames F (some frame) }

def noting (k : Kernel σ μ) (f : History → History) : Kernel σ μ :=
  { k with history := f k.history }

def withFrame (k : Kernel σ μ) (c : CodeFrame σ) : Kernel σ μ :=
  { k.setFrame k.frameCount c with frameCount := k.frameCount + 1 }

/-- The entry of `execute(frame)`. SRCLINE: VirtualMachine.cpp:55-58, 76-80 -/
def enterRun (k : Kernel σ μ) (F : ℕ) (p : Option ℕ) : Kernel σ μ :=
  { k with
    currentFrame := some F
    hasError := false
    history := { k.history with active := p :: k.history.active } }

/-- The loop of `execute` is left. -/
def leaveRun (k : Kernel σ μ) : Kernel σ μ :=
  k.noting fun h => { h with active := h.active.tail, settled := true }

/-- A process that is spawned is the current one while its enter handler runs.
SRCLINE: Scheduler.cpp:69-81 -/
def beginEnter (k : Kernel σ μ) (p : ℕ) : Kernel σ μ :=
  { k with
    currentProcess := some p
    history := { k.history with settled := false, begun := p :: k.history.begun } }

@[inherit_doc beginEnter] def endEnter (k : Kernel σ μ) : Kernel σ μ :=
  { k with
    currentProcess := none
    history := { k.history with settled := false, begun := k.history.begun.tail } }

/-- `push_frame` of a new state frame, with the track frames of the state.
SRCLINE: Process.cpp:226-237, 385-400, Scheduler.cpp:52-66 -/
def pushState (k : Kernel σ μ) (p : ℕ) (P : Process) (s : ScriptState) : Kernel σ μ :=
  let f := k.stateFrameCount
  let k := k.setStateFrame f (some ⟨s, s.enterTracks.map (⟨·, 0, false, none⟩), p⟩)
  let k := k.setProcess p (some { P with stack := f :: P.stack, currentStateFrame := some f })
  { k with
    stateFrameCount := f + 1
    history := { k.history with
      enters := Function.update k.history.enters f (k.history.enters f + 1)
      entering := (p, s) :: k.history.entering } }

/-- `pop_frame`, up to the exit of the frame. SRCLINE: Process.cpp:239-246 -/
def popState (k : Kernel σ μ) (p : ℕ) (P : Process) (f : ℕ) (rest : List ℕ) : Kernel σ μ :=
  let k := k.setProcess p (some { P with
    stack := rest
    currentStateFrame := if P.currentStateFrame = some f then none else P.currentStateFrame })
  k.noting fun h => { h with
    exits := Function.update h.exits f (h.exits f + 1)
    exiting := f :: h.exiting }

/-- A state frame that was popped is freed. SRCLINE: Process.cpp:247-249 -/
def dropState (k : Kernel σ μ) (f : ℕ) : Kernel σ μ :=
  (k.setStateFrame f none).noting fun h => { h with exiting := h.exiting.tail }

def beginTransition (k : Kernel σ μ) (p : ℕ) (s : ScriptState) : Kernel σ μ :=
  k.noting fun h => { h with
    told := Function.update h.told p (some s)
    leaving := (p, s) :: h.leaving }

/-- The state, its hooks and its clock are switched.
SRCLINE: Process.cpp:372-381 -/
def switchState (k : Kernel σ μ) (p : ℕ) (P : Process) (s : ScriptState) : Kernel σ μ :=
  k.setProcess p (some { P with
    currentState := some s
    transHook := s.function .Update
    postHook := s.function .Post
    stateTime := 0 })

/-- `go_state` of a running process: the transition is left to its next quantum.
SRCLINE: Process.cpp:118-122 -/
def deferTransition (k : Kernel σ μ) (p : ℕ) (P : Process) (s : ScriptState) : Kernel σ μ :=
  (k.setProcess p (some { P with nextState := some s, mask := P.mask ||| MASK_GOING })).noting
    fun h => { h with told := Function.update h.told p (some s) }

/-- A process of the snapshot is the current one, and `execute_quantum` is called for it.
SRCLINE: Scheduler.cpp:189-192 -/
def beginVisit (k : Kernel σ μ) (p : ℕ) : Kernel σ μ :=
  { k with
    currentProcess := some p
    history := { k.history with
      settled := false
      pending := k.history.pending.tail
      quanta := (p, false) :: k.history.quanta
      visits := k.history.visits ++ [p] } }

/-- No process is the current one after a quantum. SRCLINE: Scheduler.cpp:194-195 -/
def endVisit (k : Kernel σ μ) (p : ℕ) : Kernel σ μ :=
  { k with
    currentProcess := none
    history := { k.history with
      settled := false
      quanta := k.history.quanta.tail
      settling := p :: k.history.settling } }

/-- The process runs. SRCLINE: Process.cpp:325-326 -/
def markRunning (k : Kernel σ μ) (p : ℕ) (P : Process) : Kernel σ μ :=
  (k.setProcess p (some { P with status := .RUNNING, stateTime := P.stateTime + 1 })).noting
    fun h => { h with quanta := (p, true) :: h.quanta.tail }

def markRested (k : Kernel σ μ) (p : ℕ) (P : Process) : Kernel σ μ :=
  (k.setProcess p (some P)).noting fun h => { h with quanta := (p, false) :: h.quanta.tail }

/-- `detach`. SRCLINE: Scheduler.cpp:150-168 -/
def detach (k : Kernel σ μ) (p : ℕ) : Kernel σ μ :=
  { k with
    ready := k.ready.erase p
    suspended := k.suspended.erase p
    history := { k.history with dying := (p, false) :: k.history.dying } }

/-- A process leaves the table of pids. SRCLINE: Scheduler.cpp:138, 201 -/
def unlist (k : Kernel σ μ) (p pid : ℕ) : Kernel σ μ :=
  { k with
    byPid := k.byPid.filter (·.1 ≠ pid)
    history := { k.history with dying := (p, true) :: k.history.dying.tail } }

/-- A process leaves `m_all` and is deleted. SRCLINE: Scheduler.cpp:141-146 -/
def delete (k : Kernel σ μ) (p : ℕ) : Kernel σ μ :=
  { k.setProcess p none with
    all := k.all.erase p
    history := { k.history with dying := k.history.dying.tail } }

def withProcess (k : Kernel σ μ) (P : Process) (s : ScriptState) : Kernel σ μ :=
  let p := k.processCount
  { k.setProcess p (some P) with
    processCount := p + 1
    history := { k.history with
      spawning := p :: k.history.spawning
      told := Function.update k.history.told p (some s) } }

/-- A new process is listed, and ready. SRCLINE: Scheduler.cpp:95-98 -/
def list (k : Kernel σ μ) (p : ℕ) (P : Process) : Kernel σ μ :=
  { k with
    byPid := (P.pid, p) :: k.byPid.filter (·.1 ≠ P.pid)
    ready := k.ready ++ [p]
    all := k.all ++ [p]
    history := { k.history with
      spawning := k.history.spawning.tail
      entering := k.history.entering.tail } }

/-- A process whose timer has run out leaves the suspended ones.
SRCLINE: Scheduler.cpp:220-226 -/
def awake (k : Kernel σ μ) (p : ℕ) (P : Process) (i : ℕ) : Kernel σ μ :=
  { k.setProcess p (some { P with sleepFrames := 0, status := .READY }) with
    ready := k.ready ++ [p]
    suspended := k.suspended.eraseIdx i }

/-- The ready queue is taken for a tick. SRCLINE: Scheduler.cpp:181-184 -/
def takeReady (k : Kernel σ μ) : Kernel σ μ :=
  { k with
    ready := []
    history := { k.history with
      pending := k.ready ++ k.history.pending
      snapshots := k.history.snapshots ++ [k.ready] } }

/-- Where a process goes after its quantum. SRCLINE: Scheduler.cpp:208-214 -/
def place (k : Kernel σ μ) (p : ℕ) (P : Process) : Kernel σ μ :=
  { k with
    suspended := if P.status = .SUSPENDED then k.suspended ++ [p] else k.suspended
    ready := if P.status = .READY then k.ready ++ [p] else k.ready
    history := { k.history with settling := k.history.settling.tail } }

/-- `resume` of a suspended process. SRCLINE: Scheduler.cpp:237-246 -/
def resume (k : Kernel σ μ) (p : ℕ) (P : Process) : Kernel σ μ :=
  { k.setProcess p (some { P with status := .READY }) with
    suspended := k.suspended.erase p
    ready := k.ready ++ [p] }

end Kernel

/-! ## Objects -/

def process (p : ℕ) : KernelM σ μ Process := do
  match (← observe).processes p with
  | none => stop .freedProcess
  | some P => return P

def updateProcess (p : ℕ) (f : Process → Process) : KernelM σ μ Unit := do
  let P ← process p
  change (·.setProcess p (some (f P)))

def stateFrame (f : ℕ) : KernelM σ μ StateFrame := do
  match (← observe).stateFrames f with
  | none => stop .freedFrame
  | some frame => return frame

def trackFrame (f i : ℕ) : KernelM σ μ TrackFrame := do
  match (← stateFrame f).tracks[i]? with
  | none => stop .freedFrame
  | some track => return track

def updateTrack (f i : ℕ) (g : TrackFrame → TrackFrame) : KernelM σ μ Unit := do
  let frame ← stateFrame f
  change (·.setStateFrame f (some { frame with tracks := frame.tracks.modify i g }))

def noting (f : History → History) : KernelM σ μ Unit := change (·.noting f)

section Operations

variable (host : KernelHost σ μ) (exec : ℕ → KernelM σ μ Variant)

def newFrame (lambda : Lambda) (args : Arguments) (p : Option ℕ) : KernelM σ μ ℕ := do
  let k ← observe
  change (·.withFrame ⟨lambda, host.enter lambda args, p⟩)
  return k.frameCount

/-- Values put into the argument registers of a new frame, one after the other; an assertion
stops at the end of the registers. SRCLINE: Scheduler.cpp:87-91, VirtualMachine.cpp:47-50 -/
def checkArguments (args : List Variant) : KernelM σ μ Unit :=
  if MAX_REGISTERS < ARG_REGISTERS_OFFSET + args.length then stop .escaped else pure ()

def runOn (p F : ℕ) : KernelM σ μ Variant := do
  note (.handles p)
  exec F

def runHandler (p : ℕ) (lambda : Lambda) (args : Arguments) : KernelM σ μ Variant := do
  let F ← newFrame host lambda args (some p)
  runOn exec p F

/-- `execute_enter_handler` and the like; `top_thread` of the process is written afterwards.
SRCLINE: Process.cpp:625-720 -/
def executeHandler (p : ℕ) (hook : Option Lambda) : KernelM σ μ Unit := do
  match hook with
  | none => pure ()
  | some lambda =>
    let _ ← runHandler host exec p lambda .nothing
    let _ ← process p

/-! ## State frames -/

/-- `pop_frame`, with `StateFrame::exit`: the frame leaves the stack first, then its exit
handler runs, then its tracks are freed and it is dropped.
SRCLINE: Process.cpp:239-250, StateFrame.cpp:36-60 -/
def popFrame (p f : ℕ) (rest : List ℕ) : KernelM σ μ Unit := do
  let P ← process p
  let frame ← stateFrame f
  change (·.popState p P f rest)
  match frame.state.function .Exit with
  | none => pure ()
  | some lambda =>
    let _ ← runHandler host exec p lambda .nothing
  change (·.dropState f)

/-- `while (stack_frame_top) pop_frame();` every frame on the stack is a state frame. -/
def popFrames : ℕ → ℕ → KernelM σ μ Unit
  | 0, _ => stop .outOfFuel
  | n + 1, p => do
    match (← process p).stack with
    | [] => pure ()
    | f :: rest =>
      popFrame host exec p f rest
      popFrames n p

/-! ## Transitions -/

variable (fuel : ℕ)

/-- The main thread of a process from the code of a state, if it has any. -/
def newMainThread (p : ℕ) (s : ScriptState) (args : Arguments) : KernelM σ μ (Option ℕ) := do
  match s.function .Code with
  | none => return none
  | some lambda =>
    let F ← newFrame host lambda args (some p)
    return some F

/-- The enter handler of the state a process has come to, then its main thread.
SRCLINE: Process.cpp:402-413 -/
def enterState (p : ℕ) (s : ScriptState) : KernelM σ μ Unit := do
  executeHandler host exec p (s.function .Enter)
  let main ← newMainThread host p s .nothing
  updateProcess p fun P => { P with mainThread := main }

/-- `execute_deferred_transition`, up to the end of which it is noted as active by the caller.
SRCLINE: Process.cpp:360-410 -/
def executeDeferredTransition (p : ℕ) (s : ScriptState) : KernelM σ μ Unit := do
  change (·.beginTransition p s)
  popFrames host exec fuel p
  let P ← process p
  change (·.switchState p P s)
  let P ← process p
  change (·.pushState p P s)
  noting fun h => { h with leaving := h.leaving.tail }
  enterState host exec p s

def endTransition : KernelM σ μ Unit := noting fun h => { h with entering := h.entering.tail }

/-- `go_state`. SRCLINE: Process.cpp:105-129 -/
def goState (p : ℕ) (s : ScriptState) : KernelM σ μ Bool := do
  note (.goes p s)
  let P ← process p
  if P.status = .RUNNING then change (·.deferTransition p P s)
  else
    executeDeferredTransition host exec fuel p s
    endTransition
  return true

/-- `go_state` by the id of a state. SRCLINE: Process.cpp:99-103 -/
def goStateById (p : ℕ) (state : Word) : KernelM σ μ Bool := do
  match (← process p).type.resolveState state with
  | none => return false
  | some s => goState host exec fuel p s

/-! ## Events -/

/-- `send_event` and `execute_event`; `top_thread` of the target is written afterwards.
SRCLINE: Process.cpp:149-221 -/
def sendEvent (source p : ℕ) (event : Word) (params : List Variant) : KernelM σ μ Bool := do
  let P ← process p
  if !(P.hasAnyEventHandler && P.isRunnable) then return false
  match P.eventHandler event with
  | none => return false
  | some lambda =>
    noting fun h => { h with called := p :: h.called }
    let v ← runHandler host exec p lambda (.event source event params)
    let _ ← process p
    noting fun h => { h with called := h.called.tail }
    return v.toBool host.fpu

/-! ## Tracks -/

/-- A lambda of a track runs on a frame below the track frame; says whether it has yielded.
SRCLINE: TrackFrame.cpp:31-43, 77-82 -/
def runTrackLambda (p F : ℕ) : KernelM σ μ Bool := do
  let _ ← runOn exec p F
  return (← observe).isYielded

/-- The main lambdas of a track, one after the other until one yields.
SRCLINE: TrackFrame.cpp:22-53 -/
def runMains (p f i : ℕ) : List TrackLambda → KernelM σ μ Bool
  | [] => return false
  | l :: ls =>
    match l.scriptLambda with
    | none => runMains p f i ls
    | some lambda => do
      let F ← newFrame host lambda .nothing (some p)
      updateTrack f i fun t => { t with mainFrame := some F }
      if ← runTrackLambda exec p F then
        updateTrack f i fun t => { t with mainStarted := true }
        return true
      else
        updateTrack f i fun t => { t with mainFrame := none }
        runMains p f i ls

/-- The frame lambdas of a track that match its time; a yield in one is ignored.
SRCLINE: TrackFrame.cpp:68-92 -/
def runFrameLambdas (p f i : ℕ) : List TrackLambda → KernelM σ μ Unit
  | [] => pure ()
  | l :: ls => do
    let t ← trackFrame f i
    match l.scriptLambda with
    | none => runFrameLambdas p f i ls
    | some lambda =>
      if l.frameNumber = FRAME_SENTINEL_MAIN ∨ l.frameNumber ≠ t.time then
        runFrameLambdas p f i ls
      else
        let F ← newFrame host lambda .nothing (some p)
        if ← runTrackLambda exec p F then change fun k => { k with isYielded := false }
        runFrameLambdas p f i ls

/-- The first half of `TrackFrame::tick`: the main lambdas are started, or one that is parked
goes on. Says whether one has yielded. SRCLINE: TrackFrame.cpp:15-66 -/
def tickMain (p f i : ℕ) (t : TrackFrame) : KernelM σ μ Bool := do
  if !t.mainStarted then
    let mains := t.track.lambdas.takeWhile (·.frameNumber = FRAME_SENTINEL_MAIN)
    if ← runMains host exec p f i mains then return true
    updateTrack f i fun t => { t with mainStarted := true }
    return false
  else
    match t.mainFrame with
    | none => return false
    | some F =>
      if ← runTrackLambda exec p F then return true
      updateTrack f i fun t => { t with mainFrame := none }
      return false

/-- `TrackFrame::tick`. SRCLINE: TrackFrame.cpp:13-98 -/
def tickTrack (p f i : ℕ) : KernelM σ μ Unit := do
  let t ← trackFrame f i
  if t.track.lambdas.isEmpty then return
  if ← tickMain host exec p f i t then return
  runFrameLambdas host exec p f i t.track.lambdas
  updateTrack f i fun t => { t with time := t.time + 1 }

/-- `StateFrame::tick`: a yield from any track stops the rest.
SRCLINE: StateFrame.cpp:24-34 -/
def tickTracks (p f : ℕ) : List ℕ → KernelM σ μ Unit
  | [] => pure ()
  | i :: is => do
    tickTrack host exec p f i
    if (← observe).isYielded then return
    tickTracks p f is

/-! ## The quantum -/

/-- The transition that is pending, if any. SRCLINE: Process.cpp:307-315 -/
def applyPending (p : ℕ) : KernelM σ μ Unit := do
  match (← process p).nextState with
  | none => pure ()
  | some s =>
    executeDeferredTransition host exec fuel p s
    updateProcess p fun P => { P with nextState := none, mask := P.mask &&& ~~~MASK_GOING }
    endTransition

/-- The hooks are read when they run. SRCLINE: Process.cpp:656-704 -/
def executeTransHandler (p : ℕ) : KernelM σ μ Unit := do
  executeHandler host exec p (← process p).transHook

@[inherit_doc executeTransHandler] def executePostHandler (p : ℕ) : KernelM σ μ Unit := do
  executeHandler host exec p (← process p).postHook

/-- The tracks of the current state; says whether one has yielded.
SRCLINE: Process.cpp:331-339 -/
def tickState (p : ℕ) : KernelM σ μ Bool := do
  match (← process p).currentStateFrame with
  | none => return false
  | some f =>
    let frame ← stateFrame f
    tickTracks host exec p f (List.range frame.tracks.length)
    return (← observe).isYielded

/-- The state's code, and the thread the machine is left with.
SRCLINE: Process.cpp:341-346 -/
def runMainThread (p : ℕ) : KernelM σ μ Unit := do
  match (← process p).mainThread with
  | none => pure ()
  | some F =>
    let _ ← runOn exec p F
    note (.parks p)
    let k ← observe
    updateProcess p fun P => { P with mainThread := k.currentFrame }

/-- The status after a quantum that ran to its end.
SRCLINE: Process.cpp:350-355 -/
def settleStatus (P : Process) : Process :=
  { P with
    status := if P.status = .RUNNING then .READY else P.status
    shouldYield := false }

/-- The quantum of a process that runs: trans, tracks, code, post. A yield in a track ends it.
SRCLINE: Process.cpp:325-356 -/
def runQuantum (p : ℕ) : KernelM σ μ Unit := do
  let P ← process p
  change (·.markRunning p P)
  executeTransHandler host exec p
  if ← tickState host exec p then
    change fun k => { k with isYielded := false }
    let P ← process p
    change (·.markRested p { P with status := .READY })
  else
    runMainThread exec p
    executePostHandler host exec p
    let P ← process p
    change (·.markRested p (settleStatus P))

/-- `execute_quantum`. SRCLINE: Process.cpp:302-356 -/
def executeQuantum (p : ℕ) : KernelM σ μ Unit := do
  if !(← process p).isRunnable then return
  applyPending host exec fuel p
  if (← process p).hasMask MASK_SLEEP_CODE then
    updateProcess p fun P => { P with stateTime := P.stateTime + 1 }
    executeTransHandler host exec p
    executePostHandler host exec p
  else runQuantum host exec p

/-! ## Killing -/

/-- A process is erased from the table of pids and deleted with its entry in `m_all`; its
destructor pops what is left on its stack.
SRCLINE: Scheduler.cpp:138-147, 199-208, Process.cpp:56-80 -/
def removeProcess (p : ℕ) : KernelM σ μ Unit := do
  let P ← process p
  change (·.unlist p P.pid)
  if p ∈ (← observe).all then
    popFrames host exec fuel p
    change (·.delete p)
  else noting fun h => { h with dying := h.dying.tail }

mutual

/-- `kill_recursive`. The message at the end reads the pid of the process it has deleted.
SRCLINE: Scheduler.cpp:117-148 -/
def killRecursive : ℕ → ℕ → KernelM σ μ Unit
  | 0, _ => stop .outOfFuel
  | n + 1, p => do
    if (← process p).isDead then return
    note (.kills p)
    change (·.detach p)
    killChildren n p
    popFrames host exec n p
    updateProcess p fun P => { P with status := .DEAD }
    removeProcess host exec n p
    note (.reads p)

def killChildren : ℕ → ℕ → KernelM σ μ Unit
  | 0, _ => stop .outOfFuel
  | n + 1, p => do
    match (← process p).children with
    | [] => pure ()
    | c :: cs =>
      let _ ← process c
      updateProcess p fun P => { P with children := cs }
      killRecursive n c
      killChildren n p

end

/-- `find`. SRCLINE: Scheduler.cpp:253-256 -/
def find (pid : ℕ) : KernelM σ μ (Option ℕ) := do return (← observe).byPid.lookup pid

/-- `kill`. SRCLINE: Scheduler.cpp:108-115 -/
def kill (pid : ℕ) : KernelM σ μ Unit := do
  match ← find pid with
  | none => pure ()
  | some p => killRecursive host exec fuel p

/-! ## Spawning -/

/-- The process `spawn` makes, before anything is pushed or run; its pid has 32 bits.
SRCLINE: Scheduler.cpp:39-50 -/
def freshProcess (pid : ℕ) (name : Word) (script : StateScript) (s : ScriptState) : Process where
  pid := pid % 2 ^ 32
  name := name
  type := script
  status := .DEAD
  mask := 0
  children := []
  mainThread := none
  stack := []
  currentStateFrame := none
  currentState := some s
  nextState := none
  transHook := s.function .Update
  postHook := s.function .Post
  shouldYield := false
  sleepFrames := 0
  stateTime := 0

/-- The process of a spawn, with the frame of its first state pushed.
SRCLINE: Scheduler.cpp:39-66 -/
def newProcess (P : Process) (s : ScriptState) : KernelM σ μ ℕ := do
  let k ← observe
  change (·.withProcess P s)
  change (·.pushState k.processCount P s)
  return k.processCount

/-- The enter handler of a new process, as the current one.
SRCLINE: Scheduler.cpp:68-81 -/
def enterFirst (p : ℕ) (s : ScriptState) : KernelM σ μ Unit := do
  note (.begins p)
  change (·.beginEnter p)
  match s.function .Enter with
  | none => pure ()
  | some lambda =>
    let _ ← runHandler host exec p lambda (.process p)
  note (.clears p)
  change (·.endEnter)

/-- The main thread of a new process, its status and its place in the lists.
SRCLINE: Scheduler.cpp:83-101 -/
def makeReady (p : ℕ) (s : ScriptState) (args : List Variant) : KernelM σ μ ℕ := do
  match ← newMainThread host p s (.values args) with
  | none => pure ()
  | some F =>
    checkArguments args
    updateProcess p fun P => { P with mainThread := some F }
  updateProcess p fun P => { P with status := .READY }
  note (.lists p)
  let P ← process p
  change (·.list p P)
  return P.pid

/-- `spawn`: the pid, or 0. SRCLINE: Scheduler.cpp:32-102 -/
def spawn (name : Word) (args : List Variant) : KernelM σ μ ℕ := do
  match host.entries name with
  | none => return 0
  | some script =>
    let pid := (← observe).nextPid
    change fun k => { k with nextPid := k.nextPid + 1 }
    match script.resolveState script.initialStateId with
    | none => return 0
    | some s =>
      let p ← newProcess (freshProcess pid name script s) s
      enterFirst host exec p s
      makeReady host p s args

/-! ## Ticking -/

/-- What is done with a process after its quantum.
SRCLINE: Scheduler.cpp:198-214 -/
def settleProcess (p : ℕ) : KernelM σ μ Unit := do
  let P ← process p
  if P.isDead then
    note (.buries p)
    noting fun h => { h with settling := h.settling.tail, dying := (p, false) :: h.dying }
    removeProcess host exec fuel p
  else change (·.place p P)

/-- A process of the snapshot: its quantum, and where it goes afterwards.
SRCLINE: Scheduler.cpp:186-215 -/
def visit (p : ℕ) : KernelM σ μ Unit := do
  if (← process p).isDead then noting fun h => { h with pending := h.pending.tail }
  else
    note (.visits p)
    change (·.beginVisit p)
    executeQuantum host exec fuel p
    note (.clears p)
    change (·.endVisit p)
    settleProcess host exec fuel p

/-- `tick_sleepers`, from an index of the suspended ones on, for so many of them.
SRCLINE: Scheduler.cpp:217-230 -/
def tickSleepers : ℕ → ℕ → KernelM σ μ Unit
  | 0, _ => pure ()
  | n + 1, i => do
    match (← observe).suspended[i]? with
    | none => pure ()
    | some p =>
      let P ← process p
      if !P.isDead && 0 < P.sleepFrames then
        if P.sleepFrames = 1 then
          change (·.awake p P i)
          tickSleepers n i
        else
          updateProcess p fun P => { P with sleepFrames := P.sleepFrames - 1 }
          tickSleepers n (i + 1)
      else tickSleepers n (i + 1)

/-- `tick`. SRCLINE: Scheduler.cpp:174-215 -/
def tick : KernelM σ μ Unit := do
  note .ticks
  tickSleepers (← observe).suspended.length 0
  let k ← observe
  change (·.takeReady)
  forEach (visit host exec fuel) k.ready

/-- `run_loop` until the scheduler is empty, with the number of ticks so far; the clock and a
request of the host to exit are left out. SRCLINE: Carbon.cpp:724-767 -/
def runLoop (maxTicks : Option ℕ) : ℕ → ℕ → KernelM σ μ ℕ
  | 0, _ => stop .outOfFuel
  | n + 1, ticks => do
    let k ← observe
    if k.ready.isEmpty && k.suspended.isEmpty && k.all.isEmpty then return ticks
    tick host exec fuel
    if maxTicks.any (· ≤ ticks + 1) then return ticks + 1
    runLoop maxTicks n (ticks + 1)

/-- `resume`. SRCLINE: Scheduler.cpp:232-247 -/
def resume (pid : ℕ) : KernelM σ μ Bool := do
  match ← find pid with
  | none => return false
  | some p =>
    let P ← process p
    if P.status ≠ .SUSPENDED then return false
    note (.resumes p)
    change (·.resume p P)
    return true

/-! ## Native functions -/

/-- `find_by_name`: the first live process of the name.
SRCLINE: Scheduler.cpp:262-268 -/
def findByName (name : Word) : List ℕ → KernelM σ μ (Option ℕ)
  | [] => return none
  | p :: ps => do
    let P ← process p
    if P.name = name ∧ !P.isDead then return some p else findByName name ps

/-- `resolve_process_arg`. SRCLINE: NativeProcess.cpp:49-66 -/
def resolveProcess : Target → KernelM σ μ (Option ℕ)
  | .self => do return (← observe).currentProcess
  | .named name => do findByName name (← observe).all
  | .nothing => return none

/-- An operation on the process an argument names, or the value of a `ScriptError`. -/
def onProcess (target : Target) (f : ℕ → KernelM σ μ Variant) : KernelM σ μ Variant := do
  match ← resolveProcess target with
  | none => return .ofBool false
  | some p => f p

/-- Where a track of the current state is.
SRCLINE: Process.cpp:717-720, StateFrame.cpp:62-71 -/
def findTrack (p : ℕ) (track : Word) : KernelM σ μ (Option (ℕ × ℕ)) := do
  match (← process p).currentStateFrame with
  | none => return none
  | some f =>
    match (← stateFrame f).tracks.findIdx? (·.track.trackId = track) with
    | none => return none
    | some i => return some (f, i)

/-- The operations of `Process` a host calls. SRCLINE: Process.hpp:174-191 -/
def suspendProcess (p : ℕ) : KernelM σ μ Unit := do
  note (.suspends p)
  updateProcess p .suspend

@[inherit_doc suspendProcess] def wakeProcess (p : ℕ) : KernelM σ μ Unit := do
  note (.wakes p)
  updateProcess p .wakeUp

def intResult (n : ℕ) : Variant := .int (BitVec.ofNat 64 n)

/-- SRCLINE: EventMessage.hpp:17 -/
def MAX_PARAMS : ℕ := 7

/-- A call of a native function. SRCLINE: NativeProcess.cpp:120-410 -/
def callNative : Native → KernelM σ μ Variant
  | .spawn name args => do
    let pid ← spawn host exec name args
    return if pid = 0 then .ofBool false else intResult pid
  | .start name args => do
    match ← findByName name (← observe).all with
    | some p => return intResult (← process p).pid
    | none =>
      let pid ← spawn host exec name args
      return if pid = 0 then .ofBool false else intResult pid
  | .currentPid => do
    match (← observe).currentProcess with
    | none => return intResult 0
    | some p => return intResult (← process p).pid
  | .sleep frames => do
    match (← observe).currentProcess with
    | none => return .ofBool false
    | some p =>
      updateProcess p fun P => { P with sleepFrames := max frames 1 }
      suspendProcess p
      return .ofBool true
  | .yield => do
    match (← observe).currentProcess with
    | none => return .ofBool true
    | some p =>
      updateProcess p .requestYield
      return .ofBool true
  | .kill target => onProcess target fun p => do
    kill host exec fuel (← process p).pid
    return .ofBool true
  | .goState target state => onProcess target fun p => do
    return .ofBool (← goStateById host exec fuel p state)
  | .send source target event params =>
    onProcess source fun s => onProcess target fun p => do
      if MAX_PARAMS < params.length then return .ofBool false
      return .ofBool (← sendEvent host exec s p event params)
  | .process target => do
    match ← resolveProcess target with
    | none => return .pointer 0
    | some p => return .pointer (BitVec.ofNat 64 (p + 1))
  | .getStateTime target => onProcess target fun p => do
    return .int (← process p).stateTime
  | .setStateTime target ticks => onProcess target fun p => do
    updateProcess p fun P => { P with stateTime := ticks }
    return .ofBool true
  | .getTrackTime target track => onProcess target fun p => do
    match ← findTrack p track with
    | none => return intResult 0
    | some (f, i) => return .int (← trackFrame f i).time
  | .setTrackTime target track ticks => onProcess target fun p => do
    match ← findTrack p track with
    | none => return .ofBool false
    | some (f, i) =>
      updateTrack f i fun t => { t with time := ticks }
      return .ofBool true
  | .tick count => do
    if (← observe).currentProcess.isSome then return .ofBool false
    forEach (fun _ => tick host exec fuel) (List.range count)
    return intResult count
  | .run maxTicks => do
    if (← observe).currentProcess.isSome then return .ofBool false
    return intResult (← runLoop host exec fuel maxTicks fuel 0)
  | .suspend target => onProcess target fun p => do
    suspendProcess p
    return .null
  | .requestYield target => onProcess target fun p => do
    updateProcess p .requestYield
    return .null
  | .wakeUp target => onProcess target fun p => do
    wakeProcess p
    return .null
  | .resume pid => do return .ofBool (← resume pid)
  | .runs lambda args => do
    let F ← newFrame host lambda (.values args) none
    checkArguments args
    exec F
  | .plain value => return value

end Operations

/-! ## The machine -/

section Machine

variable (host : KernelHost σ μ)

def continueAt (F : ℕ) (code : σ → σ) : KernelM σ μ Unit := do
  match (← observe).frames F with
  | none => stop .undefined
  | some c => change (·.setFrame F { c with code := code c.code })

/-- The check after a native call: a current process that wants to yield ends the run.
SRCLINE: VirtualMachine.cpp:219-229 -/
def yieldsNow : KernelM σ μ Bool := do
  match (← observe).currentProcess with
  | none => return false
  | some p =>
    if (← process p).shouldYield then
      updateProcess p fun P => { P with shouldYield := false }
      change fun k => { k with isYielded := true }
      return true
    else return false

/-- `execute(frame)`, around its loop. SRCLINE: VirtualMachine.cpp:55-58, 76-80 -/
def startRun (loop : KernelM σ μ Variant) (F : ℕ) : KernelM σ μ Variant := do
  let p := ((← observe).frames F).bind (·.process)
  change (·.enterRun F p)
  let value ← loop
  change (·.leaveRun)
  return value

/-- The loop of `execute`, for at most `n` instructions and nested runs. A native call runs
handlers on the same machine, and the loop goes on with the frame they leave current.
SRCLINE: VirtualMachine.cpp:76-1046 -/
def loop : ℕ → KernelM σ μ Variant
  | 0 => stop .outOfFuel
  | n + 1 => do
    let k ← observe
    match k.currentFrame with
    | none => return .null
    | some F =>
      if k.hasError then return .null
      match k.frames F with
      | none => stop .undefined
      | some c =>
        match host.step c.code k.memory with
        | .computes next memory =>
          continueAt F fun _ => next
          change fun k => { k with memory := memory }
          loop n
        | .returns value memory =>
          change fun k => { k with memory := memory, currentFrame := none }
          return value
        | .fails memory =>
          change fun k => { k with memory := memory, hasError := true }
          loop n
        | .drops memory =>
          change fun k => { k with memory := memory, currentFrame := none }
          loop n
        | .escapes => stop .escaped
        | .undefined => stop .undefined
        | .calls native next memory store =>
          continueAt F fun _ => next
          change fun k => { k with memory := memory }
          note (.calls native)
          let value ← callNative host (startRun (loop n)) n native
          continueAt F (store value)
          if ← yieldsNow then return value
          loop n

/-- A run of the machine on a frame, for at most `n` instructions and nested runs. -/
def executeFrame (n : ℕ) : ℕ → KernelM σ μ Variant := startRun (loop host n)

/-! ## The host -/

/-- What a host does between ticks; it names processes by their pids.
SRCLINE: Carbon.cpp:630-770, Scheduler.hpp:45-100 -/
inductive KernelCall where
  | spawn (name : Word) (args : List Variant)
  | kill (pid : ℕ)
  | tick
  | runLoop (maxTicks : Option ℕ)
  | resume (pid : ℕ)
  | suspend (pid : ℕ)
  | requestYield (pid : ℕ)
  | wakeUp (pid : ℕ)
  | goState (pid : ℕ) (state : Word)
  | send (source pid : ℕ) (event : Word) (params : List Variant)
  | runs (lambda : Lambda) (args : List Variant)

def onPid (pid : ℕ) (f : ℕ → KernelM σ μ Unit) : KernelM σ μ Unit := do
  match ← find pid with
  | none => pure ()
  | some p => f p

variable (fuel : ℕ)

def hostCall : KernelCall → KernelM σ μ Unit
  | .spawn name args => do let _ ← spawn host (executeFrame host fuel) name args
  | .kill pid => kill host (executeFrame host fuel) fuel pid
  | .tick => tick host (executeFrame host fuel) fuel
  | .runLoop maxTicks => do
    let _ ← runLoop host (executeFrame host fuel) fuel maxTicks fuel 0
  | .resume pid => do let _ ← resume pid
  | .suspend pid => onPid pid suspendProcess
  | .requestYield pid => onPid pid fun p => updateProcess p .requestYield
  | .wakeUp pid => onPid pid wakeProcess
  | .goState pid state => onPid pid fun p => do
    let _ ← goStateById host (executeFrame host fuel) fuel p state
  | .send source pid event params => onPid source fun s => onPid pid fun p => do
    let _ ← sendEvent host (executeFrame host fuel) s p event params
  | .runs lambda args => do
    let _ ← callNative host (executeFrame host fuel) fuel (.runs lambda args)

/-- A run of the program: the calls of the host, one after the other. -/
def hostRun (calls : List KernelCall) : KernelM σ μ Unit := forEach (hostCall host fuel) calls

end Machine

end Soot.Program
