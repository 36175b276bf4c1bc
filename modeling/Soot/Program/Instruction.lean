import Mathlib.Tactic.Common

/-!
# Opcodes and instructions

The four-byte instruction of the virtual machine: an opcode and the byte operands `a`,
`b`, `c`. A sixteen-bit immediate shares the bytes of `b` (low) and `c` (high). Operands
are natural numbers; the constructors below truncate where the source casts to `u8`.
-/

set_option autoImplicit false

namespace Soot.Program

/-- The virtual machine's opcodes, in the order that fixes their numeric values.
SRCLINE: Opcodes.hpp:9-106 -/
inductive Opcode where
  | Return | IAdd | ISub | IMul | IDiv | FAdd | FSub | FMul | FDiv
  | LoadStaticInt | LoadStaticFloat | LoadStaticPointer | LoadU16Imm
  | LoadInt | LoadFloat | LoadPointer | StoreInt | StoreFloat | StorePointer
  | LookupInt | LookupFloat | LookupPointer
  | MoveInt | MoveFloat | MovePointer | CastInteger | CastFloat
  | Call | CallFf | CallMethod
  | IEqual | IGreaterThan | IGreaterThanEqual | ILessThan | ILessThanEqual
  | FEqual | FGreaterThan | FGreaterThanEqual | FLessThan | FLessThanEqual
  | IMod | FMod | IAbs | FAbs | GoTo | Label | Branch | BranchIf | BranchIfNot
  | OpLogNot | OpBitAnd | OpBitNot | OpBitOr | OpBitXor | OpBitNor | OpLogAnd | OpLogOr
  | INeg | FNeg | LoadParamCnt | IAddImm | ISubImm | IMulImm | IDivImm
  | LoadStaticI32Imm | LoadStaticFloatImm | LoadStaticPointerImm | IntAsh | Move
  | LoadStaticU32Imm | LoadStaticI8Imm | LoadStaticU8Imm | LoadStaticI16Imm
  | LoadStaticU16Imm | LoadStaticI64Imm | LoadStaticU64Imm
  | LoadI8 | LoadU8 | LoadI16 | LoadU16 | LoadI32 | LoadU32 | LoadI64 | LoadU64
  | StoreI8 | StoreU8 | StoreI16 | StoreU16 | StoreI32 | StoreU32 | StoreI64 | StoreU64
  | INotEqual | FNotEqual | StoreArray | AssertPointer | BreakFlag | Breakpoint
  deriving DecidableEq

def u8 (n : ℕ) : ℕ := n % 256

def u16 (n : ℕ) : ℕ := n % 65536

@[simp] theorem u8_of_lt {n : ℕ} (h : n < 256) : u8 n = n := Nat.mod_eq_of_lt h

@[simp] theorem u16_of_lt {n : ℕ} (h : n < 65536) : u16 n = n := Nat.mod_eq_of_lt h

theorem u16_lt (n : ℕ) : u16 n < 65536 := Nat.mod_lt n (by decide)

def MAX_REGISTERS : ℕ := 34

def ARG_REGISTERS_OFFSET : ℕ := 24

/-- One instruction: opcode and three byte operands.
SRCLINE: Instructions.hpp:122-130 -/
structure Instruction where
  opcode : Opcode
  a : ℕ
  b : ℕ
  c : ℕ
  deriving DecidableEq

namespace Instruction

/-- The sixteen-bit immediate: `b` is its low byte and `c` its high byte. -/
def imm16 (i : Instruction) : ℕ := i.b + 256 * i.c

/-- Overwrite the operands `b` and `c` by a sixteen-bit immediate. -/
def setImm16 (i : Instruction) (v : ℕ) : Instruction :=
  { i with b := v % 256, c := v / 256 }

@[simp] theorem setImm16_opcode (i : Instruction) (v : ℕ) :
    (i.setImm16 v).opcode = i.opcode := rfl

@[simp] theorem setImm16_a (i : Instruction) (v : ℕ) : (i.setImm16 v).a = i.a := rfl

@[simp] theorem imm16_setImm16 (i : Instruction) (v : ℕ) : (i.setImm16 v).imm16 = v :=
  Nat.mod_add_div v 256

end Instruction

end Soot.Program
