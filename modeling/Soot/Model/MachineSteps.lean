import Soot.Model.ConstantMeaning
import Soot.Program.Emit
import Soot.Program.VirtualMachine
import Soot.Computation.CallStacks

/-!
# The steps of the virtual machine

The integer instructions and the frames of the calls.
-/

set_option autoImplicit false

namespace Soot.Model

open Soot.Computation Soot.Program

/-!
## What integer instructions are named after

The operation that the name of an opcode states, on the numbers in its registers and its
immediate operand, and what it means that a step of the machine performs it: the destination
holds the result, nothing else has changed, and the frame is there.
-/

def wordOf : Variant → Option Word
  | .int v | .pointer v => some v
  | _ => none

/-- A shift to the left, by a negative number to the right, keeping the sign. -/
def arithmeticShift {w : ℕ} (x : BitVec w) (shift : ℤ) : BitVec w :=
  if 0 ≤ shift then x <<< shift.natAbs else x.sshiftRight shift.natAbs

def truth (b : Bool) : I64 := if b then 1 else 0

def divided (op : I64 → I64 → I64) (x y : I64) : Option I64 :=
  if y = 0 then none else some (op x y)

/-- The operations, by where their operands are: in the registers `b` and `c`, in `b`, in `b` and
the byte `c`, in the sixteen-bit immediate, and as floats in `b` and `c`. -/
inductive NamedOperation where
  | binary (op : I64 → I64 → Option I64)
  | unary (op : I64 → I64)
  | immediate (op : I64 → I64 → Option I64)
  | constant
  | floats (test : BitVec 32 → BitVec 32 → Bool)

namespace NamedOperation

def compare (test : ℤ → ℤ → Bool) : NamedOperation :=
  binary fun x y => some (truth (test x.toInt y.toInt))

end NamedOperation

def floatsEqual (fpu : FloatUnit) (x y : BitVec 32) : Bool := fpu.le x y && fpu.le y x

/-- The operation that the name of an opcode states: integer arithmetic, shifts, immediates and
comparisons. SRCLINE: Instructions.hpp:341-538 -/
def namedOperation (fpu : FloatUnit) : Opcode → Option NamedOperation
  | .IAdd => some (.binary fun x y => some (x + y))
  | .ISub => some (.binary fun x y => some (x - y))
  | .IMul => some (.binary fun x y => some (x * y))
  | .IDiv => some (.binary (divided BitVec.sdiv))
  | .IMod => some (.binary (divided BitVec.srem))
  | .IAbs => some (.unary BitVec.abs)
  | .INeg => some (.unary fun x => -x)
  | .IntAsh => some (.binary fun x y => some (arithmeticShift x y.toInt))
  | .CastInteger => some (.unary id)
  | .LoadU16Imm => some .constant
  | .IAddImm => some (.immediate fun x y => some (x + y))
  | .ISubImm => some (.immediate fun x y => some (x - y))
  | .IMulImm => some (.immediate fun x y => some (x * y))
  | .IDivImm => some (.immediate (divided BitVec.sdiv))
  | .IEqual => some (.compare fun x y => x = y)
  | .INotEqual => some (.compare fun x y => x ≠ y)
  | .IGreaterThan => some (.compare fun x y => y < x)
  | .IGreaterThanEqual => some (.compare fun x y => y ≤ x)
  | .ILessThan => some (.compare fun x y => x < y)
  | .ILessThanEqual => some (.compare fun x y => x ≤ y)
  | .FEqual => some (.floats (floatsEqual fpu))
  | .FNotEqual => some (.floats fun x y => !floatsEqual fpu x y)
  | .FGreaterThan => some (.floats fun x y => fpu.lt y x)
  | .FGreaterThanEqual => some (.floats fun x y => fpu.le y x)
  | .FLessThan => some (.floats fpu.lt)
  | .FLessThanEqual => some (.floats fpu.le)
  | _ => none

section Operands

variable (fpu : FloatUnit) (f : StackFrame) (i : Instruction)

/-- The number in the register `b`. -/
def operand : Except VmErrorKind I64 := do
  let _ ← f.getRegister i.a
  (← f.getRegister i.b).toInt fpu

/-- The numbers in the registers `b` and `c`. -/
def operands : Except VmErrorKind (I64 × I64) := do
  let _ ← f.getRegister i.a
  let src1 ← f.getRegister i.b
  let src2 ← f.getRegister i.c
  let x ← src1.toInt fpu
  let y ← src2.toInt fpu
  return (x, y)

/-- The floats in the registers `b` and `c`. -/
def floatOperands : Except VmErrorKind (BitVec 32 × BitVec 32) := do
  let _ ← f.getRegister i.a
  let src1 ← f.getRegister i.b
  let src2 ← f.getRegister i.c
  let x ← src1.toFloat fpu
  let y ← src2.toFloat fpu
  return (x, y)

/-- The result of an operation; an operand that is not a number is an error. -/
def namedResult : NamedOperation → Except VmErrorKind (Option I64)
  | .binary op => do
    let (x, y) ← operands fpu f i
    return op x y
  | .unary op => do return some (op (← operand fpu f i))
  | .immediate op => do return op (← operand fpu f i) (BitVec.ofNat 64 i.c)
  | .constant => do
    let _ ← f.getRegister i.a
    return some (BitVec.ofNat 64 i.imm16)
  | .floats test => do
    let (x, y) ← floatOperands fpu f i
    return some (truth (test x y))

end Operands

def Fetches (s : VmState) (i : Instruction) : Prop :=
  ∃ l : ScriptLambda, s.frame.lambda = some l ∧ s.frame.pc < StackFrame.codeSize ∧
    l.code[s.frame.pc]? = some i

/-- A step has written a word to a register and moved to the next instruction, and nothing else. -/
structure Writes (s s' : VmState) (dst : ℕ) (r : Word) : Prop where
  written : wordOf (s'.frame.registers dst) = some r
  others : ∀ k, k ≠ dst → s'.frame.registers k = s.frame.registers k
  next : s'.frame.pc = s.frame.pc + 1
  sameFrame : s'.frame.lambda = s.frame.lambda ∧ s'.frame.argc = s.frame.argc ∧
    s'.frame.retNum = s.frame.retNum
  outside : s'.parents = s.parents ∧ s'.memory = s.memory

def skipped (s : VmState) : VmState := { s with frame := s.frame.advance }

/-- A step performs an operation: it writes the result to the destination. Without one, it
goes on to the next instruction; if an operand is not a number, it can also report the error. -/
def Performs (rt : Runtime) (s : VmState) (i : Instruction) (op : NamedOperation) : Prop :=
  match namedResult rt.fpu s.frame i op with
  | .error _ => (∃ e, vmStep rt s = .inr (.failed e)) ∨ vmStep rt s = .inl (skipped s)
  | .ok none => vmStep rt s = .inl (skipped s)
  | .ok (some r) => ∃ s', vmStep rt s = .inl s' ∧ Writes s s' i.a r

def FitsI32 (n : ℤ) : Prop := -2 ^ 31 ≤ n ∧ n < 2 ^ 31

instance (n : ℤ) : Decidable (FitsI32 n) := inferInstanceAs (Decidable (_ ∧ _))

/-- What a shift over all the bits of a word leaves: the sign, to the right, and else nothing. -/
def shiftedOut (x shift : ℤ) : ℤ := if x < 0 ∧ shift < 0 then -1 else 0

/-- The shift of the low 32 bits, by the low 32 bits, is defined and is the shift. If the distance
has 32 bits, then no bits may be lost to the left of the 32; otherwise only the sign may be left. -/
def ShiftFits (x shift : ℤ) : Prop :=
  (narrowed shift).natAbs < 32 ∧
    if FitsI32 shift then
      FitsI32 (if 0 ≤ shift then (x * 2 ^ shift.natAbs).bmod (2 ^ 64) else x)
    else if 0 ≤ narrowed shift then
      narrowed (x * 2 ^ (narrowed shift).natAbs) = shiftedOut x shift
    else
      narrowed x / 2 ^ (narrowed shift).natAbs = shiftedOut x shift

/-- The operands of an instruction avoid what the machine does differently: a divisor is
narrowed to 32 bits, and so are both operands of a shift, an immediate is added where it should be
subtracted, floats are equal if they are near, and `FNotEqual` is missing. -/
def AsNamed (fpu : FloatUnit) (f : StackFrame) (i : Instruction) : Prop :=
  match i.opcode with
  | .IDiv => ∀ x y, operands fpu f i = .ok (x, y) → y ≠ 0 → QuotientFits x.toInt y.toInt ∨
      narrowed y.toInt = 0 ∧ wordOf (f.registers i.a) = some (x.sdiv y)
  | .IMod => ∀ x y, operands fpu f i = .ok (x, y) → y ≠ 0 → RemainderFits x.toInt y.toInt ∨
      narrowed y.toInt = 0 ∧ wordOf (f.registers i.a) = some (x.srem y)
  | .IntAsh => ∀ x y, operands fpu f i = .ok (x, y) → ShiftFits x.toInt y.toInt
  | .ISubImm => ∀ x, operand fpu f i = .ok x → (∃ p, f.registers i.b = .pointer p) ∨ i.c = 0
  | .FEqual => ∀ x y, floatOperands fpu f i = .ok (x, y) → fpu.near x y = floatsEqual fpu x y
  | .FNotEqual => False
  | _ => True

/-!
## Calls and their frames

A process runs its functions on one stack of frames, over any number of ticks: the machine takes a
step, or it goes on after a yield, or after an error. The frames are isolated if a callee starts
with the arguments and nothing else, and its caller goes on after the call with the registers that
the call left there, but for the destination, which has the value.
-/

/-- A step of a process. Between two ticks the memory may change, and an instruction that failed may
have changed the registers of its own frame. -/
inductive Proceeds (rt : Runtime) (s : VmState) : VmState → Prop
  | runs {t : VmState} (h : vmStep rt s = .inl t) : Proceeds rt s t
  | resumes {t : VmState} {v : Variant} (m : Memory) (h : vmStep rt s = .inr (.yielded v t)) :
      Proceeds rt s ⟨t.frame, t.parents, m⟩
  | recovers {e : VmErrorKind} (registers : ℕ → Variant) (m : Memory)
      (h : vmStep rt s = .inr (.failed e)) :
      Proceeds rt s ⟨{ s.frame.advance with registers := registers }, s.parents, m⟩

def callStack (s : VmState) : List StackFrame := s.frame :: s.parents

structure EntersCall (rt : Runtime) (s : VmState) (i : Instruction) (t : VmState) : Prop where
  fetched : Fetches s i
  script : i.opcode = .Call ∨ i.opcode = .CallMethod
  entered : vmStep rt s = .inl t

/-- A run in which the frame that a call from `s` has entered is not left; calls of any depth may
come and go on top of it. -/
def CalleeRuns (rt : Runtime) (s callee t : VmState) : Prop :=
  RunsAbove (Proceeds rt) (fun s => (callStack s).length) (callStack s).length callee t

structure SeesArguments (registers : ℕ → Variant) (i : Instruction) (callee : StackFrame) :
    Prop where
  pc : callee.pc = 0
  argc : callee.argc = i.c
  registers : ∀ k, callee.registers k =
    if ARG_REGISTERS_OFFSET ≤ k ∧ k < ARG_REGISTERS_OFFSET + i.c then registers k else .null

/-- The caller goes on after the call, with a value in the destination. -/
structure Resumes (registers : ℕ → Variant) (s : VmState) (i : Instruction) (v : Variant)
    (t : VmState) : Prop where
  pc : t.frame.pc = s.frame.pc + 1
  lambda : t.frame.lambda = s.frame.lambda
  argc : t.frame.argc = s.frame.argc
  retNum : t.frame.retNum = s.frame.retNum
  parents : t.parents = s.parents
  destination : t.frame.registers i.a = v
  others : ∀ k, k ≠ i.a → t.frame.registers k = registers k

/-- The native function that a register names: by its address, or by its id. -/
def NamesNative (rt : Runtime) (f : StackFrame) (i : Instruction) (p : Word) : Prop :=
  f.registers i.b = .pointer p ∨
    ∃ sid, f.registers i.b = .int sid ∧ rt.findNativeFunction sid = some p

/-- Every callee, script or native, sees the arguments, and when it returns its caller
goes on with the value. `left` is what a call leaves in the registers of its caller. -/
structure FramesIsolated (rt : Runtime) (left : StackFrame → Instruction → ℕ → Variant) :
    Prop where
  enters : ∀ s i callee, EntersCall rt s i callee → SeesArguments (left s.frame i) i callee.frame
  returns : ∀ s i callee t u, EntersCall rt s i callee → CalleeRuns rt s callee t →
    Proceeds rt t u → (callStack u).length ≤ (callStack s).length → ∃ j, Fetches t j ∧
      j.opcode = .Return ∧ Resumes (left s.frame i) s i (t.frame.registers j.a) u
  returning : ∀ s i callee t j, EntersCall rt s i callee → CalleeRuns rt s callee t →
    (callStack t).length = (callStack s).length + 1 → Fetches t j → j.opcode = .Return →
    j.a < MAX_REGISTERS → i.a < MAX_REGISTERS → ∃ u, vmStep rt t = .inl u ∧
      Resumes (left s.frame i) s i (t.frame.registers j.a) u
  native : ∀ s i t, Fetches s i → i.opcode = .CallFf →
    (vmStep rt s = .inl t ∨ ∃ v, vmStep rt s = .inr (.yielded v t)) → ∃ p v m yields,
      NamesNative rt s.frame i p ∧
      rt.callNative p (arguments s.frame i.c) s.memory = .ok (v, m, yields) ∧
      Resumes (left s.frame i) s i v t

/-- The registers of a caller after a call: `Call` replaces the id of its function by the address
that the globals give. SRCLINE: VirtualMachine.cpp:150-168 -/
def registersAfterCall (rt : Runtime) (f : StackFrame) (i : Instruction) : ℕ → Variant :=
  match i.opcode, f.registers i.b with
  | .Call, .int sid =>
    match rt.findSymbolPtr sid with
    | some p => Function.update f.registers i.b (.pointer p)
    | none => f.registers
  | _, _ => f.registers

end Soot.Model
