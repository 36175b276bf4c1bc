import Soot.Program.Process

/-!
# The timeline of a state's tracks

One tick of a track and of the tracks of a state, as in the scheduler, with the machine reduced to
its flag: a run of a lambda is known by whether it parks, and whether the flag is set by code that
the lambda has the machine run in turn. Each track has the runs of its lambdas listed, for the
statements about them; no operation reads the list. Scripts that set the time of a track, change
the state or kill the process are left out.
-/

set_option autoImplicit false

namespace Soot.Program

structure Execution where
  parks : Bool
  raises : Bool
  deriving DecidableEq

/-- A run of the lambda at an index, at a time of the track: from its beginning or resumed, up to
its end or a yield. -/
structure LambdaRun where
  index : ℕ
  time : Word
  resumed : Bool
  parks : Bool
  deriving DecidableEq

/-- A track frame, with the index of a lambda for the frame of a parked one, how often it was
ticked, and the runs of its lambdas. -/
structure Lane where
  frame : TrackFrame
  ticks : ℕ := 0
  runs : List LambdaRun := []

/-- The lambdas that are gone through: their number is stored in 16 bits.
SRCLINE: FileNode.cpp:625, TrackFrame.cpp:15, 25, 75 -/
def TrackData.counted (t : TrackData) : List TrackLambda :=
  t.lambdas.take (BitVec.ofNat 16 t.lambdas.length).toInt.toNat

namespace Lane

/-- A run of a lambda, and the flag it leaves. SRCLINE: VirtualMachine.cpp:222-228 -/
def execute (script : ℕ → Execution) (j : ℕ) (resumed : Bool) (l : Lane) (isYielded : Bool) :
    Lane × Bool :=
  ({ l with runs := l.runs ++ [⟨j, l.frame.time, resumed, (script j).parks⟩] },
    isYielded || (script j).parks || (script j).raises)

/-- The main lambdas from an index on, and whether the tick is over with one that is taken for
parked. SRCLINE: TrackFrame.cpp:25-53 -/
def startMains (script : ℕ → Execution) : ℕ → List TrackLambda → Lane → Bool → Lane × Bool × Bool
  | _, [], l, isYielded => (l, isYielded, false)
  | j, sl :: sls, l, isYielded =>
    if sl.frameNumber ≠ FRAME_SENTINEL_MAIN then (l, isYielded, false)
    else if sl.scriptLambda = none then startMains script (j + 1) sls l isYielded
    else
      let (l, isYielded) := l.execute script j false isYielded
      if isYielded then
        ({ l with frame := { l.frame with mainFrame := some j, mainStarted := true } }, true, true)
      else
        startMains script (j + 1) sls { l with frame := { l.frame with mainFrame := none } } false

/-- The first half of a tick. SRCLINE: TrackFrame.cpp:24-66 -/
def tickMain (script : ℕ → Execution) (l : Lane) (isYielded : Bool) : Lane × Bool × Bool :=
  if !l.frame.mainStarted then
    let (l, isYielded, parked) := l.startMains script 0 l.frame.track.counted isYielded
    ({ l with frame := { l.frame with mainStarted := true } }, isYielded, parked)
  else
    match l.frame.mainFrame with
    | none => (l, isYielded, false)
    | some j =>
      let (l, isYielded) := l.execute script j true isYielded
      if isYielded then (l, true, true)
      else ({ l with frame := { l.frame with mainFrame := none } }, false, false)

/-- The lambdas from an index on whose frame number is the time; the flag is cleared after each.
SRCLINE: TrackFrame.cpp:75-92 -/
def runFrameLambdas (script : ℕ → Execution) :
    ℕ → List TrackLambda → Lane → Bool → Lane × Bool
  | _, [], l, isYielded => (l, isYielded)
  | j, sl :: sls, l, isYielded =>
    if sl.frameNumber = FRAME_SENTINEL_MAIN ∨ sl.frameNumber ≠ l.frame.time ∨
        sl.scriptLambda = none then
      runFrameLambdas script (j + 1) sls l isYielded
    else runFrameLambdas script (j + 1) sls (l.execute script j false isYielded).1 false

/-- `TrackFrame::tick`. SRCLINE: TrackFrame.cpp:14-97 -/
def tick (script : ℕ → Execution) (l : Lane) (isYielded : Bool) : Lane × Bool :=
  let l := { l with ticks := l.ticks + 1 }
  if l.frame.track.counted = [] then (l, isYielded)
  else
    let (l, isYielded, parked) := l.tickMain script isYielded
    if parked then (l, isYielded)
    else
      let (l, isYielded) := l.runFrameLambdas script 0 l.frame.track.counted isYielded
      ({ l with frame := { l.frame with time := l.frame.time + 1 } }, isYielded)

end Lane

/-- `StateFrame::tick`, on the tracks from an index on: one that leaves the flag set stops the
rest. SRCLINE: StateFrame.cpp:22-34 -/
def tickLanes (script : ℕ → ℕ → Execution) : ℕ → List Lane → Bool → List Lane
  | _, [], _ => []
  | i, l :: ls, isYielded =>
    let (l, isYielded) := l.tick (script i) isYielded
    if isYielded then l :: ls else l :: tickLanes script (i + 1) ls false

/-- A tick of a state: the flag as it is found, and what the lambdas of the tracks do. The flag is
cleared afterwards if it is set. SRCLINE: Process.cpp:331-339 -/
structure StateTick where
  isYielded : Bool
  script : ℕ → ℕ → Execution

def runTicks (lanes : List Lane) (ticks : List StateTick) : List Lane :=
  ticks.foldl (fun lanes t => tickLanes t.script 0 lanes t.isYielded) lanes

end Soot.Program
