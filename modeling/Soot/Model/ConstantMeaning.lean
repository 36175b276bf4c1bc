import Soot.Program.ConstFold
import Soot.Program.Instruction

/-!
# The meaning of constant trees

Trees of arithmetic on integer and floating-point literals, and their values in exact
arithmetic: an integer operation is the operation on ℤ, brought back to 64 bits, and a
floating-point operation is the double-precision one. The virtual machine computes with less
than that, and the places where the difference shows are described here on the values of the
operands: the 32 bits an integer division takes of its divisor, and the single-precision
operations on narrowed operands.
-/

set_option autoImplicit false

namespace Soot.Model

open Soot.Program

/-- The trees of arithmetic nodes over integer and floating-point literals. -/
inductive Arithmetic : Node → Prop
  | constInt (value : I64) : Arithmetic (.constInt value)
  | constFloat (bits : BitVec 64) : Arithmetic (.constFloat bits)
  | binaryNode (op : BinaryOp) {left right : Node} (hl : Arithmetic left)
      (hr : Arithmetic right) : Arithmetic (.binaryNode op left right)

inductive Subtree (n : Node) : Node → Prop
  | self : Subtree n n
  | left (op : BinaryOp) {l : Node} (r : Node) (h : Subtree n l) : Subtree n (.binaryNode op l r)
  | right (op : BinaryOp) (l : Node) {r : Node} (h : Subtree n r) :
      Subtree n (.binaryNode op l r)

def nodeCount : Node → ℕ
  | .binaryNode _ left right => nodeCount left + nodeCount right + 1
  | _ => 1

def exactInt : BinaryOp → ℤ → ℤ → Option ℤ
  | .ADD, a, b => some (a + b)
  | .SUB, a, b => some (a - b)
  | .MUL, a, b => some (a * b)
  | .DIV, a, b => if b = 0 ∨ (a = -2 ^ 63 ∧ b = -1) then none else some (a.tdiv b)
  | .MOD, a, b => if b = 0 ∨ (a = -2 ^ 63 ∧ b = -1) then none else some (a.tmod b)

/-- A double-precision operation: nothing where the divisor is zero, and no remainder. -/
def exactFloat (dbl : DoubleUnit) : BinaryOp → BitVec 64 → BitVec 64 → Option (BitVec 64)
  | .ADD, a, b => some (dbl.add a b)
  | .SUB, a, b => some (dbl.sub a b)
  | .MUL, a, b => some (dbl.mul a b)
  | .DIV, a, b => if dbl.isZero b then none else some (dbl.div a b)
  | .MOD, _, _ => none

def exactOperation (dbl : DoubleUnit) (op : BinaryOp) : Variant → Variant → Option Variant
  | .int a, .int b => (exactInt op a.toInt b.toInt).map fun z => .int (BitVec.ofInt 64 z)
  | .float a, .float b => (exactFloat dbl op a b).map .float
  | _, _ => none

def exactValue (dbl : DoubleUnit) : Node → Option Variant
  | .constInt value => some (.int value)
  | .constFloat bits => some (.float bits)
  | .binaryNode op left right =>
    (exactValue dbl left).bind fun x =>
      (exactValue dbl right).bind fun y => exactOperation dbl op x y
  | _ => none

/-! ## Where less precision makes no difference -/

/-- The low 32 bits of a number, as a number. -/
def narrowed (n : ℤ) : ℤ := n.bmod (2 ^ 32)

/-- A division of a 64-bit number is defined. -/
def DividesWord (a b : ℤ) : Prop := b ≠ 0 ∧ ¬ (a = -2 ^ 63 ∧ b = -1)

/-- The quotient by the low 32 bits of the divisor is the quotient: these are the divisor, or both
quotients are zero. -/
def QuotientFits (a b : ℤ) : Prop :=
  DividesWord a (narrowed b) ∧ (narrowed b = b ∨ a.natAbs < (narrowed b).natAbs)

/-- The remainder by the low 32 bits of the divisor is the remainder: it remains of the division by
a common multiple. -/
def RemainderFits (a b : ℤ) : Prop :=
  DividesWord a (narrowed b) ∧
    a.natAbs % Nat.lcm (narrowed b).natAbs b.natAbs < (narrowed b).natAbs

/-- The single-precision operation on the narrowed operands, widened, is the double-precision
one; a divisor is not narrowed to zero. -/
def SinglePrecisionFits (fpu : FloatUnit) (dbl : DoubleUnit) (op : BinaryOp)
    (a b : BitVec 64) : Prop :=
  match op with
  | .ADD => fpu.widen (fpu.add (fpu.narrow a) (fpu.narrow b)) = dbl.add a b
  | .SUB => fpu.widen (fpu.sub (fpu.narrow a) (fpu.narrow b)) = dbl.sub a b
  | .MUL => fpu.widen (fpu.mul (fpu.narrow a) (fpu.narrow b)) = dbl.mul a b
  | .DIV => fpu.isZero (fpu.narrow b) = false ∧
      fpu.widen (fpu.div (fpu.narrow a) (fpu.narrow b)) = dbl.div a b
  | .MOD => True

/-- The precision of the virtual machine is enough for an operation on two values. -/
def PrecisionSuffices (fpu : FloatUnit) (dbl : DoubleUnit) (op : BinaryOp) :
    Variant → Variant → Prop
  | .int a, .int b =>
    match op with
    | .DIV => QuotientFits a.toInt b.toInt
    | .MOD => RemainderFits a.toInt b.toInt
    | _ => True
  | .float a, .float b => SinglePrecisionFits fpu dbl op a b
  | _, _ => True

/-- Every operation of the tree that has a value stands in a tree small enough for the
registers of a frame, and the precision of the virtual machine is enough for its operands. -/
def WithinMachine (fpu : FloatUnit) (dbl : DoubleUnit) : Node → Prop
  | .binaryNode op left right =>
    WithinMachine fpu dbl left ∧ WithinMachine fpu dbl right ∧
      ∀ x y, exactValue dbl left = some x → exactValue dbl right = some y →
        exactOperation dbl op x y ≠ none →
          nodeCount (.binaryNode op left right) ≤ MAX_REGISTERS ∧
            PrecisionSuffices fpu dbl op x y
  | _ => True

end Soot.Model
