import Soot.Program.Node

/-!
# The layout of emitted code

What can be said about the code of a tree before it is emitted: how many instructions it
takes, which labels it adds, in whose register its value ends up, and whether its last
instruction is a return. Layouts compose like the code they describe.
-/

set_option autoImplicit false

namespace Soot.Model

open Soot.Program

structure Layout where
  /-- the variable in whose register the value is left, where it is not in a temporary -/
  home : Option String
  size : ℕ
  /-- from the label counter: the labels it adds, newest first, and the counter after it -/
  labels : ℕ → List String × ℕ
  /-- whether the code up to its end ends in a return, given whether it does before it -/
  endsInReturn : Bool → Bool

namespace Layout

def nothing (home : Option String) : Layout := ⟨home, 0, fun k => ([], k), id⟩

/-- One instruction that is not a return, with its result in a temporary. -/
def instruction : Layout := ⟨none, 1, fun k => ([], k), fun _ => false⟩

def ret : Layout := ⟨none, 1, fun k => ([], k), fun _ => true⟩

/-- One piece of code after another, with the value of the second. -/
def seq (a b : Layout) : Layout where
  home := b.home
  size := a.size + b.size
  labels k := ((b.labels (a.labels k).2).1 ++ (a.labels k).1, (b.labels (a.labels k).2).2)
  endsInReturn := b.endsInReturn ∘ a.endsInReturn

/-- The move of a value to where another value lives, unless they live in the same place. -/
def move (src dst : Option String) : Layout :=
  if src = dst ∧ dst.isSome then nothing none else instruction

def withHome (a : Layout) (home : Option String) : Layout := { a with home := home }

/-- An assignment to a variable, with the value of the assigned expression. -/
def assign (value : Layout) (x : String) : Layout :=
  (value.seq (move value.home (some x))).withHome value.home

def uniqueLabel (pre : String) (k : ℕ) : String := pre ++ "_" ++ toString k

/-- The second part of an `if`, between the labels `else` and `endif`. -/
def elsePart (thenPart : Layout) : Option Layout → Layout
  | none => nothing none
  | some e => e.seq (move e.home thenPart.home)

/-- An `if`: both labels are generated after the condition, `else` is added after the first
branch and `endif` at the end. -/
def ifLayout (c t : Layout) (e : Option Layout) : Layout where
  home := t.home
  size := c.size + 1 + t.size + 1 + (elsePart t e).size
  labels k :=
    let k₀ := (c.labels k).2
    let lt := t.labels (k₀ + 2)
    let le := (elsePart t e).labels lt.2
    (uniqueLabel "endif" (k₀ + 1) :: le.1 ++ uniqueLabel "else" k₀ :: lt.1 ++ (c.labels k).1,
      le.2)
  endsInReturn _ := (elsePart t e).endsInReturn false

/-- The labels of a loop and the counter after they are generated. -/
def whileLabels (label : Option String) (k : ℕ) : (String × String) × ℕ :=
  match label with
  | some l =>
    if l = "" then ((uniqueLabel "while_start" k, uniqueLabel "while_end" (k + 1)), k + 2)
    else ((l, l ++ "_end"), k)
  | none => ((uniqueLabel "while_start" k, uniqueLabel "while_end" (k + 1)), k + 2)

def whileLayout (c b : Layout) (label : Option String) : Layout where
  home := c.home
  size := c.size + 1 + b.size + 1
  labels k :=
    let names := whileLabels label k
    let lc := c.labels names.2
    let lb := b.labels lc.2
    (names.1.2 :: lb.1 ++ lc.1 ++ [names.1.1], lb.2)
  endsInReturn _ := false

end Layout

mutual

def layout : Node → Layout
  | .constInt _ => .instruction
  | .variableNode x _ _ _ => .nothing (some x)
  | .binaryNode _ l r => ((layout l).seq (layout r)).seq .instruction
  | .compareNode _ l r => ((layout l).seq (layout r)).seq .instruction
  | .unaryNode _ e => (layout e).seq .instruction
  | .ifNode c t none => .ifLayout (layout c) (layout t) none
  | .ifNode c t (some e) => .ifLayout (layout c) (layout t) (some (layout e))
  | .whileNode c b label => .whileLayout (layout c) (layout b) label
  | .letNode bindings b => (bindingsLayout bindings).seq (layout b)
  | .setVariable x v => (layout v).assign x
  | .sequenceNode exprs => sequenceLayout (.nothing none) exprs
  | .returnNode none => .ret
  | .returnNode (some v) => (layout v).seq .ret
  | _ => .nothing none

def bindingsLayout : List (String × Node) → Layout
  | [] => .nothing none
  | (x, v) :: bs => ((layout v).assign x).seq (bindingsLayout bs)

/-- The layout of a sequence that continues the code of `before`. -/
def sequenceLayout (before : Layout) : List Node → Layout
  | [] => before
  | n :: ns => before.seq (sequenceLayout (layout n) ns)

end

/-- The number of instructions of a function with this body: the prologue, the body, and the
return that ends it where the body does not end in one. -/
def codeSize (paramCount : ℕ) (body : Node) : ℕ :=
  paramCount + (layout body).size + if (layout body).endsInReturn false then 0 else 1

def home (n : Node) : Option String := (layout n).home

end Soot.Model
