import Mathlib.Logic.Relation
import Soot.Program.ProcessTree

/-!
# Forests of processes

The links of the processes describe a forest if every process has a list of children, which is the
list of brothers that starts at its first child and holds the processes whose parent it is; if
nothing else is linked; and if no process is above itself. An operation respects the forest if a
child that is added has no parent yet and is not above its new parent, if a process is removed only
from its own parent, and if only a process without a parent is deleted.
-/

set_option autoImplicit false

namespace Soot.Model

open Soot.Program

def ChildOf (t : ProcessTree) (c p : ℕ) : Prop := (t.links c).parent = some p

def Descends (t : ProcessTree) : ℕ → ℕ → Prop := Relation.ReflTransGen (ChildOf t)

def Brothers (t : ProcessTree) : Option ℕ → List ℕ → Prop
  | start, [] => start = none
  | start, c :: cs => start = some c ∧ Brothers t (t.links c).brother cs

structure Describes (t : ProcessTree) (children : ℕ → List ℕ) : Prop where
  nodup_all : t.all.Nodup
  brothers : ∀ p ∈ t.all, Brothers t (t.links p).child (children p)
  mem_children : ∀ p ∈ t.all, ∀ c, c ∈ children p ↔ c ∈ t.all ∧ ChildOf t c p
  nodup_children : ∀ p ∈ t.all, (children p).Nodup
  parent_mem : ∀ c ∈ t.all, ∀ p, ChildOf t c p → p ∈ t.all
  root : ∀ c ∈ t.all, (t.links c).parent = none → (t.links c).brother = none
  acyclic : ∀ c ∈ t.all, ¬Relation.TransGen (ChildOf t) c c

def IsForest (t : ProcessTree) : Prop := ∃ children, Describes t children

/-! ## Runs -/

/-- A change of the tree: `dies` is the deletion of a process that a tick finds dead. -/
inductive TreeOperation where
  | spawn (p : ℕ)
  | addChild (p child : ℕ)
  | removeChild (p child : ℕ)
  | kill (p : ℕ)
  | dies (p : ℕ)

def treeAfter (t : ProcessTree) : TreeOperation → Option ProcessTree
  | .spawn p => t.spawn p
  | .addChild p child => t.addChild p child
  | .removeChild p child => t.removeChild p child
  | .kill p => t.kill p
  | .dies p => t.removeDead p

/-- What a change may delete: if it is a kill, the process and what is below it. -/
def DeletesExactly (t t' : ProcessTree) : TreeOperation → Prop
  | .kill p => ∀ q, q ∈ t'.all ↔ q ∈ t.all ∧ ¬(p ∈ t.all ∧ Descends t q p)
  | _ => True

/-- Every change goes through, leaves a forest and deletes what it should. -/
def KeepsForest : ProcessTree → List TreeOperation → Prop
  | _, [] => True
  | t, op :: ops =>
    ∃ t', treeAfter t op = some t' ∧ IsForest t' ∧ DeletesExactly t t' op ∧ KeepsForest t' ops

/-! ## The condition -/

def RespectsForest (t : ProcessTree) : TreeOperation → Prop
  | .spawn p => p ∉ t.all
  | .addChild p child =>
    p ∈ t.all ∧ child ∈ t.all ∧ (t.links child).parent = none ∧ ¬Descends t p child
  | .removeChild p child =>
    p ∈ t.all ∧ child ∈ t.all ∧ ((t.links child).parent = none ∨ ChildOf t child p)
  | .kill p => p ∈ t.all → (t.links p).parent = none
  | .dies p => p ∈ t.all → (t.links p).parent = none ∧ (t.links p).child = none

def RespectfulRun : ProcessTree → List TreeOperation → Prop
  | _, [] => True
  | t, op :: ops => RespectsForest t op ∧ ∀ t', treeAfter t op = some t' → RespectfulRun t' ops

end Soot.Model
