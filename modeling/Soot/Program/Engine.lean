import Mathlib.Data.Int.Notation
import Mathlib.Data.Nat.Notation
import Mathlib.Logic.Function.Basic

/-!
# The connections of an engine

An engine keeps its connections in a list of alive and a list of dead ones, between sentinels, and
each process has a list of its connections. A result of `none` is a pointer that is followed and is
null or was never set, or a loop that takes more turns than are given. The functions that
connections carry are given, and they leave the links alone.
-/

set_option autoImplicit false

namespace Soot.Program

/-- What a `Connectable*` points to: a sentinel of the engine, a connection of its pool, or the head
of the list of a process; or it was never set and is not null.
SRCLINE: Engine.hpp:36-45, Process.hpp:144 -/
inductive Connectable where
  | aliveList
  | aliveListEnd
  | deadList
  | deadListEnd
  | data (i : ℕ)
  | process (p : ℕ)
  | unset
  deriving DecidableEq

/-- The arguments of a connection; `arg0` is an address, zero if it is null.
SRCLINE: Connection.hpp:36-45 -/
structure ConnectionArguments where
  arg0 : ℕ := 0
  arg1 : ℤ := 0
  arg2 : ℤ := 0
  arg3 : ℤ := 0
  deriving DecidableEq

/-- SRCLINE: Connection.hpp:14-18 -/
inductive EngineResult where
  | none
  | dead
  deriving DecidableEq

/-- An engine with the links of everything that it reaches. SRCLINE: Engine.hpp:27-51,
Connectable.hpp:25-34 -/
structure Engine where
  length : ℤ
  next0 : Connectable → Option Connectable
  prev0 : Connectable → Option Connectable
  next1 : Connectable → Option Connectable
  prev1 : Connectable → Option Connectable
  args : Connectable → ConnectionArguments

namespace Engine

/-- Assignments to `Next0` and `Prev0`, which link one node to the other. -/
def link0 (e : Engine) (a b : Connectable) : Engine :=
  { e with
    next0 := Function.update e.next0 a (some b)
    prev0 := Function.update e.prev0 b (some a) }

/-- `Engine::Engine`, with processes that have no connections: the constructor of a process does not
set its links, and `isNull` says where they are null nevertheless.
SRCLINE: Engine.cpp:12-40, Process.cpp:31-50, Connectable.hpp:36 -/
def new (size : ℕ) (isNull : ℕ → Bool) : Engine :=
  let empty : Engine := {
    length := 0
    next0 := fun _ => none
    prev0 := fun _ => none
    next1 := fun
      | .process p => if isNull p then none else some .unset
      | _ => none
    prev1 := fun _ => none
    args := fun _ => {} }
  let sentinels := ((empty.link0 .aliveList .aliveListEnd).link0 .deadList (.data 0)).link0
    (.data (size - 1)) .deadListEnd
  (List.range (size - 1)).foldl (fun e i => e.link0 (.data i) (.data (i + 1))) sentinels

/-- `Connection::GetEngine`. The owners are looked at, and nothing is done with them.
SRCLINE: Connection.cpp:28-48 -/
def getEngine (e : Engine) : ℕ → Option Connectable → Option Engine
  | 0, _ => none
  | _ + 1, none => none
  | iterations + 1, some current => getEngine e iterations (e.prev0 current)

/-- `if (prev != nullptr) prev->next = next` and the other way. -/
def unlink (next prev : Connectable → Option Connectable) (c : Connectable) :
    (Connectable → Option Connectable) × (Connectable → Option Connectable) :=
  (match prev c with
    | some before => Function.update next before (next c)
    | none => next,
  match next c with
    | some after => Function.update prev after (prev c)
    | none => prev)

/-- `Connection::MoveToDead`. SRCLINE: Connection.cpp:82-103 -/
def moveToDead (e : Engine) (c : Connectable) : Engine :=
  match e.getEngine 1000 (some c) with
  | none => e
  | some _ =>
    let engineLinks := unlink e.next0 e.prev0 c
    let processLinks := unlink e.next1 e.prev1 c
    { e with
      next0 := engineLinks.1, prev0 := engineLinks.2
      next1 := processLinks.1, prev1 := processLinks.2 }

/-- `Connection::BelongsToEngine`, for the engine itself.
SRCLINE: Connection.cpp:72-75 -/
def belongsToEngine (e : Engine) (c : Connectable) : Bool := (e.getEngine 1000 (some c)).isSome

/-- `AddConnection`. SRCLINE: Engine.cpp:136-171 -/
def addConnection (process : Option ℕ) (args : ConnectionArguments) (e : Engine) :
    Option Engine :=
  match process with
  | none => some e
  | some process =>
    if e.next0 .deadList = some .deadListEnd then some e
    else do
      let connectable ← e.next0 .deadList
      let e := { e with args := Function.update e.args connectable args }
      let rest ← e.next0 connectable
      let e := e.link0 .deadList rest
      let first ← e.next0 .aliveList
      let e := e.link0 connectable first
      let e := e.link0 .aliveList connectable
      let head := e.next1 (.process process)
      guard (head ≠ some .unset)
      let e := { e with next1 := Function.update e.next1 connectable head }
      let e :=
        match head with
        | some head => { e with prev1 := Function.update e.prev1 head (some connectable) }
        | none => e
      return { e with
        prev1 := Function.update e.prev1 connectable (some (.process process))
        next1 := Function.update e.next1 (.process process) (some connectable)
        length := e.length + 1 }

/-- The loops over the alive connections, from `current` on, with a test for what is moved.
SRCLINE: Engine.cpp:203-211, 216-224 -/
def removeAlive (test : Connectable → ConnectionArguments → Bool) :
    ℕ → Option Connectable → Engine → Option Engine
  | 0, _, _ => none
  | _ + 1, none, e => some e
  | turns + 1, some current, e =>
    if current = .aliveListEnd then some e
    else
      removeAlive test turns (e.next0 current)
        (if test current (e.args current) then e.moveToDead current else e)

/-- `RemoveMatching`. SRCLINE: Engine.cpp:201-212 -/
def removeMatching (predicate : Connectable → ConnectionArguments → Bool) (turns : ℕ)
    (e : Engine) : Option Engine := removeAlive predicate turns (e.next0 .aliveList) e

/-- `RemoveAll`. SRCLINE: Engine.cpp:214-225 -/
def removeAll (turns : ℕ) (e : Engine) : Option Engine :=
  removeAlive (fun _ _ => true) turns (e.next0 .aliveList) e

/-- `RemoveByParam0`. SRCLINE: Engine.cpp:227-233 -/
def removeByParam0 (value : ℕ) (turns : ℕ) (e : Engine) : Option Engine :=
  e.removeMatching (fun _ args => args.arg0 = value) turns

/-- `RemoveByParam1`. SRCLINE: Engine.cpp:235-241 -/
def removeByParam1 (value : ℤ) (turns : ℕ) (e : Engine) : Option Engine :=
  e.removeMatching (fun _ args => args.arg1 = value) turns

/-- `RemoveByParam2`. SRCLINE: Engine.cpp:243-249 -/
def removeByParam2 (value : ℤ) (turns : ℕ) (e : Engine) : Option Engine :=
  e.removeMatching (fun _ args => args.arg2 = value) turns

/-- The loops over the connections of a process, from `item` on, with a test for what is moved.
SRCLINE: Engine.cpp:177-183, 190-197 -/
def removeItems (test : Engine → Connectable → Bool) :
    ℕ → Option Connectable → Engine → Option Engine
  | 0, _, _ => none
  | _ + 1, none, e => some e
  | turns + 1, some item, e =>
    if item = .unset then none
    else removeItems test turns (e.next1 item) (if test e item then e.moveToDead item else e)

/-- `ProcessDisconnect`. SRCLINE: Engine.cpp:173-184 -/
def processDisconnect (process : Option ℕ) (turns : ℕ) (e : Engine) : Option Engine :=
  match process with
  | none => some e
  | some process => removeItems (fun _ _ => true) turns (e.next1 (.process process)) e

/-- `RemoveFromProcess`. SRCLINE: Engine.cpp:186-198 -/
def removeFromProcess (process : Option ℕ) (turns : ℕ) (e : Engine) : Option Engine :=
  match process with
  | none => some e
  | some process => removeItems belongsToEngine turns (e.next1 (.process process)) e

/-- The result of the function of a connection, which is not called if it is null.
SRCLINE: Engine.cpp:106-110 -/
def result (function : ConnectionArguments → EngineResult) (args : ConnectionArguments) :
    EngineResult :=
  if args.arg0 ≠ 0 then function args else .none

/-- The loop of `ExecuteConnectionsAndMoveToDead`, from `current` on, with the connections whose
function returned `EER_Dead`. SRCLINE: Engine.cpp:102-116 -/
def executeAlive (function : ConnectionArguments → EngineResult) :
    ℕ → Option Connectable → Engine → Option (Engine × List Connectable)
  | 0, _, _ => none
  | _ + 1, none, e => some (e, [])
  | turns + 1, some current, e =>
    if current = .aliveList then some (e, [])
    else
      let dead := result function (e.args current) = .dead
      (executeAlive function turns (e.prev0 current)
        (if dead then e.moveToDead current else e)).map fun done =>
          (done.1, if dead then current :: done.2 else done.2)

/-- `ExecuteConnectionsAndMoveToDead`. SRCLINE: Engine.cpp:100-117 -/
def executeConnectionsAndMoveToDead (function : ConnectionArguments → EngineResult) (turns : ℕ)
    (e : Engine) : Option (Engine × List Connectable) :=
  executeAlive function turns (e.prev0 .aliveListEnd) e

end Engine

/-- The calls on an engine. The function of `execute` is given with its context. -/
inductive EngineCall where
  | addConnection (process : Option ℕ) (args : ConnectionArguments)
  | removeAll
  | removeMatching (predicate : Connectable → ConnectionArguments → Bool)
  | removeByParam0 (value : ℕ)
  | removeByParam1 (value : ℤ)
  | removeByParam2 (value : ℤ)
  | removeFromProcess (process : Option ℕ)
  | processDisconnect (process : Option ℕ)
  | execute (function : ConnectionArguments → EngineResult)

/-- What a call does, with the connections whose function returned `EER_Dead`. -/
def EngineCall.run (turns : ℕ) (e : Engine) : EngineCall → Option (Engine × List Connectable)
  | addConnection process args => (e.addConnection process args).map (·, [])
  | removeAll => (e.removeAll turns).map (·, [])
  | removeMatching predicate => (e.removeMatching predicate turns).map (·, [])
  | removeByParam0 value => (e.removeByParam0 value turns).map (·, [])
  | removeByParam1 value => (e.removeByParam1 value turns).map (·, [])
  | removeByParam2 value => (e.removeByParam2 value turns).map (·, [])
  | removeFromProcess process => (e.removeFromProcess process turns).map (·, [])
  | processDisconnect process => (e.processDisconnect process turns).map (·, [])
  | execute function => e.executeConnectionsAndMoveToDead function turns

end Soot.Program
