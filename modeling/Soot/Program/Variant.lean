import Mathlib.Algebra.Group.Int.Defs
import Mathlib.Algebra.GroupWithZero.Nat
import Mathlib.Tactic.Common

/-!
# Register values

A register holds a `Variant`: nothing, a 64-bit integer, a 64-bit float or a pointer.
Floating-point values are kept as bit patterns, and the arithmetic on them is a parameter,
the `FloatUnit` of the machine the program runs on: nothing in this development depends on
how it rounds.
-/

set_option autoImplicit false

namespace Soot.Program

abbrev I64 := BitVec 64

abbrev Word := BitVec 64

/-- The floating-point operations the virtual machine uses, on bit patterns: conversions
between `f64`, `f32` and the integers, `f32` arithmetic and `f32` comparisons. -/
structure FloatUnit where
  ofI64 : I64 → BitVec 32
  narrow : BitVec 64 → BitVec 32
  widen : BitVec 32 → BitVec 64
  toI32 : BitVec 64 → BitVec 32
  nonzero : BitVec 64 → Bool
  add : BitVec 32 → BitVec 32 → BitVec 32
  sub : BitVec 32 → BitVec 32 → BitVec 32
  mul : BitVec 32 → BitVec 32 → BitVec 32
  div : BitVec 32 → BitVec 32 → BitVec 32
  fmod : BitVec 32 → BitVec 32 → BitVec 32
  fabs : BitVec 32 → BitVec 32
  neg : BitVec 32 → BitVec 32
  isZero : BitVec 32 → Bool
  /-- `fabs(x - y) < 0.0001f` -/
  near : BitVec 32 → BitVec 32 → Bool
  lt : BitVec 32 → BitVec 32 → Bool
  le : BitVec 32 → BitVec 32 → Bool

/-- The kinds of run-time error the virtual machine records.
SRCLINE: VmError.hpp:26-34 -/
inductive VmErrorKind where
  | NullDeref | TypeMismatch | UndefinedFunction | DivisionByZero | NativeError
  | ScriptError | Internal
  deriving DecidableEq

/-- The universal value container of the virtual machine.
SRCLINE: Variant.hpp:151-186 -/
inductive Variant where
  | null
  | int (value : I64)
  | float (value : BitVec 64)
  | pointer (value : Word)
  deriving DecidableEq, Inhabited

namespace Variant

/-- `Variant(bool)`: booleans are the integers one and zero. -/
def ofBool (b : Bool) : Variant := .int (if b then 1 else 0)

/-- `Variant(f32)`: the value is widened to `f64`. -/
def ofF32 (fpu : FloatUnit) (x : BitVec 32) : Variant := .float (fpu.widen x)

/-- `to_int`: integers as they are, floats truncated to `i32`, pointers as addresses; a
`TypeError` on null. SRCLINE: Variant.hpp:443-448 -/
def toInt (fpu : FloatUnit) : Variant → Except VmErrorKind I64
  | .int v => .ok v
  | .float f => .ok ((fpu.toI32 f).signExtend 64)
  | .pointer p => .ok p
  | .null => .error .TypeMismatch

/-- `to_float`: integers and floats as `f32`; a `TypeError` on pointers and null.
SRCLINE: Variant.hpp:450-454 -/
def toFloat (fpu : FloatUnit) : Variant → Except VmErrorKind (BitVec 32)
  | .int v => .ok (fpu.ofI64 v)
  | .float f => .ok (fpu.narrow f)
  | .pointer _ => .error .TypeMismatch
  | .null => .error .TypeMismatch

/-- `to_bool`: null is false, everything else is compared with zero.
SRCLINE: Variant.hpp:456-461 -/
def toBool (fpu : FloatUnit) : Variant → Bool
  | .int v => v != 0
  | .float f => fpu.nonzero f
  | .pointer p => p != 0
  | .null => false

def getI64 : Variant → Except VmErrorKind I64
  | .int v => .ok v
  | _ => .error .TypeMismatch

def getPtr : Variant → Except VmErrorKind Word
  | .pointer p => .ok p
  | _ => .error .TypeMismatch

end Variant

end Soot.Program
