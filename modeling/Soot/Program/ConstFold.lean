import Soot.Program.Node

/-!
# Constant folding

`try_fold_const`, by which the compiler evaluates the initialisers of static data. The
folder computes on `i64` and `f64`; the double-precision operations are a parameter, like the
floating-point unit of the virtual machine.
-/

set_option autoImplicit false

namespace Soot.Program

/-- The double-precision operations of the compiler, on bit patterns. -/
structure DoubleUnit where
  add : BitVec 64 → BitVec 64 → BitVec 64
  sub : BitVec 64 → BitVec 64 → BitVec 64
  mul : BitVec 64 → BitVec 64 → BitVec 64
  div : BitVec 64 → BitVec 64 → BitVec 64
  /-- `x == 0.0` -/
  isZero : BitVec 64 → Bool

/-- A literal. SRCLINE: ConstNode.hpp:14-60 -/
inductive ConstNode where
  | int (value : I64)
  | float (bits : BitVec 64)
  | string (text : String)
  deriving DecidableEq

/-- The integer case of the folder. A sum, difference or product wraps around; a division
by zero is not folded, and a quotient that overflows has no value.
SRCLINE: ConstFold.hpp:31-45 -/
def foldInt (op : BinaryOp) (a b : I64) : Option ConstNode :=
  match op with
  | .ADD => some (.int (a + b))
  | .SUB => some (.int (a - b))
  | .MUL => some (.int (a * b))
  | .DIV =>
    if b = 0 then none
    else if a = BitVec.intMin 64 ∧ b = -1 then none
    else some (.int (a.sdiv b))
  | .MOD =>
    if b = 0 then none
    else if a = BitVec.intMin 64 ∧ b = -1 then none
    else some (.int (a.srem b))

/-- The floating-point case of the folder. SRCLINE: ConstFold.hpp:46-58 -/
def foldFloat (dbl : DoubleUnit) (op : BinaryOp) (a b : BitVec 64) : Option ConstNode :=
  match op with
  | .ADD => some (.float (dbl.add a b))
  | .SUB => some (.float (dbl.sub a b))
  | .MUL => some (.float (dbl.mul a b))
  | .DIV => if dbl.isZero b then none else some (.float (dbl.div a b))
  | .MOD => none

/-- Two folded operands; operands of different kinds are not folded. -/
def foldOperands (dbl : DoubleUnit) (op : BinaryOp) :
    Option ConstNode → Option ConstNode → Option ConstNode
  | some (.int a), some (.int b) => foldInt op a b
  | some (.float a), some (.float b) => foldFloat dbl op a b
  | _, _ => none

/-- `try_fold_const`. SRCLINE: ConstFold.hpp:11-60 -/
def tryFoldConst (dbl : DoubleUnit) : Node → Option ConstNode
  | .constInt value => some (.int value)
  | .constFloat bits => some (.float bits)
  | .constString text => some (.string text)
  | .binaryNode op left right =>
    foldOperands dbl op (tryFoldConst dbl left) (tryFoldConst dbl right)
  | _ => none

end Soot.Program
