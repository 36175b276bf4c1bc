import Mathlib.Data.List.Perm.Basic
import Soot.Computation.LinkedLists
import Soot.Program.Engine

/-!
# The pool of an engine

The alive and the dead connections are two lists between their sentinels, together they are the
pool, and the list of a process holds the alive connections that were added for it.
-/

set_option autoImplicit false

namespace Soot.Model

open Soot.Computation Soot.Program

/-- The alive and the dead connections, and the process of each connection. -/
structure ConnectionPool where
  alive : List ℕ
  dead : List ℕ
  owner : ℕ → ℕ

def ConnectionPool.connectionsOf (pool : ConnectionPool) (p : ℕ) : List Connectable :=
  (pool.alive.filter (pool.owner · = p)).map .data

/-- The links of a process were set, or happen to be null. -/
def HasList (e : Engine) (p : ℕ) : Prop := e.next1 (.process p) ≠ some .unset

/-- The links and the counter of an engine describe a pool of a size. -/
structure DescribesPool (size : ℕ) (e : Engine) (pool : ConnectionPool) : Prop where
  partition : (pool.alive ++ pool.dead).Perm (List.range size)
  length : e.length = pool.alive.length
  alive : DoublyLinked e.next0 e.prev0 (.aliveList :: pool.alive.map .data ++ [.aliveListEnd])
  dead : DoublyLinked e.next0 e.prev0 (.deadList :: pool.dead.map .data ++ [.deadListEnd])
  owned : ∀ p, ¬ HasList e p → pool.connectionsOf p = []
  process : ∀ p, HasList e p → DoublyLinked e.next1 e.prev1 (.process p :: pool.connectionsOf p)
  threads : ∀ p, HasList e p → Threads e.next1 (e.next1 (.process p)) (pool.connectionsOf p)

def Matches (e : Engine) (pool : ConnectionPool) : EngineCall → ℕ → Prop
  | .removeAll, _ => True
  | .removeMatching predicate, c => predicate (.data c) (e.args (.data c)) = true
  | .removeByParam0 value, c => (e.args (.data c)).arg0 = value
  | .removeByParam1 value, c => (e.args (.data c)).arg1 = value
  | .removeByParam2 value, c => (e.args (.data c)).arg2 = value
  | .removeFromProcess process, c => process = some (pool.owner c)
  | .processDisconnect process, c => process = some (pool.owner c)
  | _, _ => False

/-- What becomes of the connections in a call: one that is added is the first of the dead ones, of
those that are to be removed none is alive, and those whose function returned `EER_Dead` are
dead. -/
def CallDone (e e' : Engine) (pool pool' : ConnectionPool) (returned : List Connectable)
    (call : EngineCall) : Prop :=
  (∀ c ∈ pool'.alive, ¬ (c ∈ pool.alive ∧ Matches e pool call c)) ∧
    (∀ node ∈ returned, ∃ c ∈ pool'.dead, node = .data c) ∧
    match call with
    | .addConnection (some p) args =>
      ∀ c rest, pool.dead = c :: rest →
        pool'.alive = c :: pool.alive ∧ pool'.dead = rest ∧ pool'.owner c = p ∧
          e'.args (.data c) = args
    | _ => True

/-- The engine has a pool, every call comes to an end, does with the connections what it should, and
leaves such an engine. -/
def KeepsPool (size : ℕ) : Engine → List EngineCall → Prop
  | e, [] => ∃ pool, DescribesPool size e pool
  | e, call :: calls =>
    (∃ pool, DescribesPool size e pool) ∧
      (∃ turns e' returned, call.run turns e = some (e', returned)) ∧
      ∀ turns e' returned pool, call.run turns e = some (e', returned) →
        DescribesPool size e pool →
        (∃ pool', DescribesPool size e' pool' ∧ CallDone e e' pool pool' returned call) ∧
          KeepsPool size e' calls

/-! ## The condition -/

/-- No alive connection is to be removed, and no function of an alive connection returns
`EER_Dead`. -/
def RemovesNothing (e : Engine) (pool : ConnectionPool) (call : EngineCall) : Prop :=
  (∀ c ∈ pool.alive, ¬ Matches e pool call c) ∧
    ∀ function, call = .execute function →
      ∀ c ∈ pool.alive, Engine.result function (e.args (.data c)) ≠ .dead

/-- The call does not read the links of a process that were never set. -/
def ReadsLists (e : Engine) : EngineCall → Prop
  | .addConnection (some p) _ => e.next0 .deadList = some .deadListEnd ∨ HasList e p
  | .removeFromProcess (some p) => HasList e p
  | .processDisconnect (some p) => HasList e p
  | _ => True

def RemovesNothingRun (size : ℕ) : Engine → List EngineCall → Prop
  | _, [] => True
  | e, call :: calls =>
    ReadsLists e call ∧
      ∀ turns e' returned pool, call.run turns e = some (e', returned) →
        DescribesPool size e pool →
        RemovesNothing e pool call ∧ RemovesNothingRun size e' calls

end Soot.Model
