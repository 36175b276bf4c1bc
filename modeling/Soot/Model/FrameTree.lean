import Soot.Computation.LinkedLists
import Soot.Program.FrameTree

/-!
# Forests of stack frames

The links of the frames describe a forest if every frame has a list of children, which is threaded
from its first child and holds frames whose parent it is, if a frame with a parent is in the list
of this parent, and if nothing else is linked. A frame may be made with a parent before it is
attached.
-/

set_option autoImplicit false

namespace Soot.Model

open Soot.Computation Soot.Program

/-- The links describe these lists of children, each frame made with the given parent, if any. -/
structure DescribesFrames (made : ℕ → Option ℕ) (s : FrameTree) (children : ℕ → List ℕ) :
    Prop where
  threads : ∀ p, Threads (fun c => (s c).nextSibling) (s p).firstChild (children p)
  nodup : ∀ p, (children p).Nodup
  parent : ∀ p, ∀ c ∈ children p, (s c).parent = some p
  listed : ∀ c p, (s c).parent = some p → c ∈ children p ∨ Loose children c ∧ made c = some p
  unlinked : ∀ c, Loose children c → (s c).nextSibling = none
  finite : ∃ frames : List ℕ, ∀ p, children p ≠ [] → p ∈ frames

def IsFrameForest (made : ℕ → Option ℕ) (s : FrameTree) : Prop :=
  ∃ children, DescribesFrames made s children

/-- A call comes to an end, with these links and calls of `exit`. -/
def FrameStep (s : FrameTree) (call : FrameCall) (s' : FrameTree) (exited : List ℕ) : Prop :=
  ∃ turns, call.run turns s = some (s', exited)

/-- What a call does to the lists of children, and the frames whose `exit` it calls. -/
def ChangesChildren (children children' : ℕ → List ℕ) (exited : List ℕ) : FrameCall → Prop
  | .attach p (some c) => children' = Function.update children p (children p ++ [c])
  | .detach p (some c) => children' = Function.update children p ((children p).erase c)
  | .free p => exited.Nodup ∧ (∀ q, q ∈ exited ↔ Beneath children p q) ∧
      (∀ q, q = p ∨ q ∈ exited → children' q = []) ∧
      ∀ q, q ≠ p → q ∉ exited → children' q = children q
  | _ => children' = children

/-- Every call comes to an end, leaves a forest and does to the lists what it should. -/
def KeepsFrames (made : ℕ → Option ℕ) : FrameTree → List FrameCall → Prop
  | _, [] => True
  | s, call :: calls =>
    (∃ s' exited, FrameStep s call s' exited) ∧
      ∀ s' exited, FrameStep s call s' exited →
        (∃ children children', DescribesFrames made s children ∧
          DescribesFrames made s' children' ∧ ChangesChildren children children' exited call) ∧
        KeepsFrames made s' calls

/-! ## The condition -/

/-- A frame that is attached is no first child and no sibling of another. -/
def AttachesLoose (s : FrameTree) : FrameCall → Prop
  | .attach _ (some c) => ∀ q, (s q).firstChild ≠ some c ∧ (s q).nextSibling ≠ some c
  | _ => True

def LooseRun : FrameTree → List FrameCall → Prop
  | _, [] => True
  | s, call :: calls =>
    AttachesLoose s call ∧ ∀ s' exited, FrameStep s call s' exited → LooseRun s' calls

end Soot.Model
