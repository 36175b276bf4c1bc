import Mathlib.Data.List.Chain
import Soot.Program.Timeline

/-!
# The timeline a track should keep

A track has main lambdas, which run one after the other, each to its end, and frame lambdas, each
of which runs once, when the time of the track is its frame number. `KeepsTimeline` says so of the
runs of its lambdas, and `Clean` is the condition under which the tracks of a state keep it.
-/

set_option autoImplicit false

namespace Soot.Model

open Soot.Program

structure TrackSource where
  trackId : Word
  mains : List Lambda
  frames : List (Lambda × Word)

namespace TrackSource

/-- The track as it is compiled. SRCLINE: FileNode.cpp:619-645 -/
def data (s : TrackSource) : TrackData where
  trackId := s.trackId
  lambdas := s.mains.map (fun l => ⟨some l, FRAME_SENTINEL_MAIN⟩) ++
    s.frames.map fun (l, frame) => ⟨some l, frame⟩

/-- The track before its first tick. SRCLINE: TrackFrame.hpp:36-46 -/
def lane (s : TrackSource) : Lane where
  frame := ⟨s.data, 0, false, none⟩

end TrackSource

/-! ## The timeline -/

/-- The run of a main lambda that comes next: one that has parked goes on, and after one that has
ended the next one begins. -/
def NextMain (a b : LambdaRun) : Prop :=
  if a.parks then b.index = a.index ∧ b.resumed = true
  else b.index = a.index + 1 ∧ b.resumed = false

def mainRuns (s : TrackSource) (l : Lane) : List LambdaRun :=
  l.runs.filter (·.index < s.mains.length)

/-- The main lambdas run once each, in order and each to its end, and have run when time advances,
which it does in every tick in which none parks; a frame lambda has run exactly once if the time of
the track has passed its frame number, at that time, and else not at all. -/
structure KeepsTimeline (s : TrackSource) (l : Lane) : Prop where
  first : ∀ r ∈ (mainRuns s l).head?, r.index = 0 ∧ r.resumed = false
  next : (mainRuns s l).IsChain NextMain
  complete : 0 < l.frame.time.toNat → ∀ j, j + 1 = s.mains.length →
    ∃ r ∈ (mainRuns s l).getLast?, r.index = j ∧ r.parks = false
  clock : s.data.lambdas ≠ [] →
    l.frame.time.toNat + (mainRuns s l).countP (·.parks) = l.ticks
  once : ∀ k, ∀ f ∈ s.frames[k]?,
    l.runs.countP (·.index = s.mains.length + k) =
      if f.2.toNat < l.frame.time.toNat then 1 else 0
  onTime : ∀ k, ∀ f ∈ s.frames[k]?, ∀ r ∈ l.runs, r.index = s.mains.length + k →
    r.time = f.2 ∧ r.resumed = false

def KeepTimelines (sources : List TrackSource) (ticks : List StateTick) : Prop :=
  List.Forall₂ KeepsTimeline sources (runTicks (sources.map (·.lane)) ticks)

/-! ## The condition -/

/-- No frame lambda has the number that marks main lambdas, and the number of lambdas is one of 16
bits with a sign. -/
def TrackSource.Plain (s : TrackSource) : Prop :=
  (∀ f ∈ s.frames, f.2 ≠ FRAME_SENTINEL_MAIN) ∧ s.data.lambdas.length < 2 ^ 15

def MainsDone (s : TrackSource) (l : Lane) : Prop :=
  s.mains = [] ∨ l.frame.mainStarted = true ∧ l.frame.mainFrame = none

/-- In a tick of a state: the flag is not set before it, unless the first track has no main lambda
to run; a main lambda leaves the flag set only if it parks; and only the last one parks. -/
structure CleanTick (sources : List TrackSource) (lanes : List Lane) (t : StateTick) : Prop where
  flag : t.isYielded = true → ∀ s ∈ sources.head?, ∀ l ∈ lanes.head?, MainsDone s l
  raised : ∀ i, ∀ s ∈ sources[i]?, ∀ j, j < s.mains.length →
    (t.script i j).raises = true → (t.script i j).parks = true
  parked : ∀ i, ∀ s ∈ sources[i]?, ∀ j, j + 1 < s.mains.length → (t.script i j).parks = false

def Clean (sources : List TrackSource) (ticks : List StateTick) : Prop :=
  (∀ s ∈ sources, s.Plain) ∧ ticks.length < 2 ^ 64 ∧
    ∀ n, ∀ t ∈ ticks[n]?,
      CleanTick sources (runTicks (sources.map (·.lane)) (ticks.take n)) t

end Soot.Model
