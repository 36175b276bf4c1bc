import Mathlib.Data.Nat.Notation
import Mathlib.Logic.Function.Basic

/-!
# The tree of stack frames

Frames are linked to their parent, to their first child and to their next sibling. A frame is a
number; what keeps a frame alive is left out. A result of `none` is a loop that takes more turns
than are given.
-/

set_option autoImplicit false

namespace Soot.Program

/-- SRCLINE: StackFrame.hpp:72-74 -/
structure FrameLinks where
  parent : Option ℕ := none
  firstChild : Option ℕ := none
  nextSibling : Option ℕ := none
  deriving DecidableEq

abbrev FrameTree := ℕ → FrameLinks

namespace FrameTree

def modify (s : FrameTree) (frame : ℕ) (f : FrameLinks → FrameLinks) : FrameTree :=
  Function.update s frame (f (s frame))

/-- The loop of `attach_child`: the last sibling from a frame on.
SRCLINE: StackFrame.cpp:35-36 -/
def lastSibling (s : FrameTree) : ℕ → ℕ → Option ℕ
  | 0, _ => none
  | turns + 1, cursor =>
    match (s cursor).nextSibling with
    | none => some cursor
    | some next => lastSibling s turns next

/-- `attach_child`. SRCLINE: StackFrame.cpp:24-38 -/
def attachChild (turns frame : ℕ) (child : Option ℕ) (s : FrameTree) : Option FrameTree :=
  match child with
  | none => some s
  | some child =>
    let s := s.modify child fun links => { links with parent := some frame, nextSibling := none }
    match (s frame).firstChild with
    | none => some (s.modify frame fun links => { links with firstChild := some child })
    | some first => do
      let cursor ← s.lastSibling turns first
      return s.modify cursor fun links => { links with nextSibling := some child }

/-- The loop of `detach_child`: the frame before a child, if the loop comes to it.
SRCLINE: StackFrame.cpp:50-51 -/
def seekBefore (s : FrameTree) (child : ℕ) : ℕ → Option ℕ → Option (Option ℕ)
  | 0, _ => none
  | _ + 1, none => some none
  | turns + 1, some cursor =>
    if (s cursor).nextSibling = some child then some (some cursor)
    else seekBefore s child turns (s cursor).nextSibling

/-- `child->m_nextSibling.reset()` and `child->parent.reset()`. -/
def unlink (links : FrameLinks) : FrameLinks := { links with parent := none, nextSibling := none }

/-- `detach_child`. SRCLINE: StackFrame.cpp:40-57 -/
def detachChild (turns frame : ℕ) (child : Option ℕ) (s : FrameTree) : Option FrameTree :=
  match child with
  | none => some s
  | some child =>
    if (s frame).firstChild = some child then
      let s := s.modify frame fun links =>
        { links with firstChild := (s child).nextSibling }
      some (s.modify child unlink)
    else do
      match ← s.seekBefore child turns (s frame).firstChild with
      | none => return s
      | some cursor =>
        let s := s.modify cursor fun links =>
          { links with nextSibling := (s child).nextSibling }
        return s.modify child unlink

mutual

/-- `free_children`, with the frames whose `exit` is called, in order. The calls themselves are left
out. SRCLINE: StackFrame.cpp:59-76 -/
def freeChildren : ℕ → ℕ → FrameTree → Option (FrameTree × List ℕ)
  | 0, _, _ => none
  | turns + 1, frame, s =>
    freeSiblings turns (s frame).firstChild
      (s.modify frame fun links => { links with firstChild := none })

/-- The loop of `free_children`. SRCLINE: StackFrame.cpp:65-75 -/
def freeSiblings : ℕ → Option ℕ → FrameTree → Option (FrameTree × List ℕ)
  | 0, _, _ => none
  | _ + 1, none, s => some (s, [])
  | turns + 1, some child, s => do
    let next := (s child).nextSibling
    let (s, below) ← freeChildren turns child (s.modify child unlink)
    let (s, rest) ← freeSiblings turns next s
    return (s, below ++ child :: rest)

end

end FrameTree

inductive FrameCall where
  | attach (frame : ℕ) (child : Option ℕ)
  | detach (frame : ℕ) (child : Option ℕ)
  | free (frame : ℕ)

/-- What a call does, with the frames whose `exit` is called. -/
def FrameCall.run (turns : ℕ) (s : FrameTree) : FrameCall → Option (FrameTree × List ℕ)
  | attach frame child => (s.attachChild turns frame child).map (·, [])
  | detach frame child => (s.detachChild turns frame child).map (·, [])
  | free frame => FrameTree.freeChildren turns frame s

end Soot.Program
