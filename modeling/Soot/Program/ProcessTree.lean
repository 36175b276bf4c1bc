import Mathlib.Data.Nat.Notation
import Mathlib.Logic.Function.Basic

/-!
# The tree of processes

Processes are linked to their parent, to their first child and to their next brother. The links are
pointers: a process is a number that is given once, and a link may refer to a process that was
deleted. A result of `none` is a pointer that is followed to a deleted process, or a loop that does
not end. Exit handlers, which run while a process is killed, are left out.
-/

set_option autoImplicit false

namespace Soot.Program

/-- SRCLINE: Process.hpp:44-50 -/
structure ProcessLinks where
  parent : Option ℕ := none
  child : Option ℕ := none
  brother : Option ℕ := none
  deriving DecidableEq

/-- The processes that are not deleted, `m_all`, and their links. -/
structure ProcessTree where
  all : List ℕ := []
  links : ℕ → ProcessLinks := fun _ => {}

namespace ProcessTree

def get (t : ProcessTree) (p : ℕ) : Option ProcessLinks :=
  if p ∈ t.all then some (t.links p) else none

def update (t : ProcessTree) (p : ℕ) (f : ProcessLinks → ProcessLinks) : Option ProcessTree :=
  if p ∈ t.all then some { t with links := Function.update t.links p (f (t.links p)) } else none

/-- `spawn`, as far as it concerns the tree. SRCLINE: Scheduler.cpp:97-101 -/
def spawn (p : ℕ) (t : ProcessTree) : Option ProcessTree :=
  some { all := t.all ++ [p], links := Function.update t.links p {} }

/-- `add_child`. SRCLINE: Process.cpp:504-513 -/
def addChild (p child : ℕ) (t : ProcessTree) : Option ProcessTree := do
  let t ← t.update child fun C => { C with parent := some p }
  let P ← t.get p
  let t ← t.update child fun C => { C with brother := P.child }
  t.update p fun P => { P with child := some child }

/-- The search for a child in the list of brothers: what comes before it, if it is there.
SRCLINE: Process.cpp:523-529 -/
def seekChild (t : ProcessTree) (child : ℕ) : ℕ → Option ℕ → Option ℕ → Option (Option ℕ)
  | 0, _, _ => none
  | _ + 1, _, none => some none
  | n + 1, prev, some current =>
    if current = child then some prev
    else do
      let C ← t.get current
      seekChild t child n (some current) C.brother

/-- `remove_child`. SRCLINE: Process.cpp:515-541 -/
def removeChild (p child : ℕ) (t : ProcessTree) : Option ProcessTree := do
  let P ← t.get p
  let C ← t.get child
  let t ←
    (if P.child = some child then t.update p fun P => { P with child := C.brother }
    else do
      match ← t.seekChild child (t.all.length + 1) none P.child with
      | some prev => t.update prev fun V => { V with brother := C.brother }
      | none => some t)
  t.update child fun C => { C with parent := none, brother := none }

mutual

/-- `kill_recursive`. SRCLINE: Scheduler.cpp:117-148 -/
def killRecursive : ℕ → ℕ → ProcessTree → Option ProcessTree
  | 0, _, _ => none
  | n + 1, p, t => do
    let t ← killChildren n p t
    return { t with all := t.all.erase p }

/-- The children, depth-first. SRCLINE: Scheduler.cpp:124-129 -/
def killChildren : ℕ → ℕ → ProcessTree → Option ProcessTree
  | 0, _, _ => none
  | n + 1, p, t => do
    match (← t.get p).child with
    | none => return t
    | some child =>
      let t ← removeChild p child t
      let t ← killRecursive n child t
      killChildren n p t

end

/-- `kill`. SRCLINE: Scheduler.cpp:108-115 -/
def kill (p : ℕ) (t : ProcessTree) : Option ProcessTree :=
  if p ∈ t.all then killRecursive (2 * t.all.length) p t else some t

/-- A process that a tick finds dead is deleted. SRCLINE: Scheduler.cpp:198-206 -/
def removeDead (p : ℕ) (t : ProcessTree) : Option ProcessTree :=
  some { t with all := t.all.erase p }

end ProcessTree

end Soot.Program
