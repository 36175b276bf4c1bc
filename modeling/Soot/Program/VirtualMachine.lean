import Soot.Program.Instruction
import Soot.Program.Variant
import Soot.Computation.Machine

/-!
# The virtual machine

`VirtualMachine::execute` in `RunMode::Run`, as a deterministic machine over a current
stack frame, the chain of its callers and the memory that pointers refer to. An instruction
that throws records an error, and the loop stops before the next instruction
(`Halt.failed`); an instruction that clears the current frame makes the loop fall out with a
null result and no error (`Halt.dropped`); a failed assertion of the instruction fetch is
thrown outside the `try` block (`Halt.escaped`). Where the source's behaviour is undefined
(running past the code of a function, an index past its constants, a division that
overflows, a call of something that is not a function) the machine stops with
`Halt.undefined`.

Native functions and the two symbol tables the machine consults are fields of `Runtime`.
-/

set_option autoImplicit false

namespace Soot.Program

open Soot.Computation

/-! ## Memory -/

abbrev Memory := Word → BitVec 8

namespace Memory

/-- The little-endian number in the `n` bytes at `p`. -/
def read (m : Memory) (p : Word) : ℕ → ℕ
  | 0 => 0
  | n + 1 => (m p).toNat + 256 * read m (p + 1) n

/-- Store the low `n` bytes of `v` at `p`, little-endian. -/
def write (m : Memory) (p : Word) (n v : ℕ) : Memory := fun q =>
  if (q - p).toNat < n then BitVec.ofNat 8 (v / 256 ^ (q - p).toNat) else m q

/-- The 64-bit word at `p`. -/
def readWord (m : Memory) (p : Word) : Word := BitVec.ofNat 64 (m.read p 8)

end Memory

/-! ## Frames -/

/-- A loaded function: its instructions and the constants its symbol pointer refers to.
SRCLINE: DCScript.hpp:375-410 -/
structure ScriptLambda where
  code : List Instruction
  symbols : List (BitVec 64)
  deriving DecidableEq

/-- A stack frame. A frame without bytecode is a container (a state or a track).
SRCLINE: StackFrame.hpp:51-90 -/
structure StackFrame where
  lambda : Option ScriptLambda
  pc : ℕ
  argc : ℕ
  retNum : ℕ
  registers : ℕ → Variant

namespace StackFrame

/-- The code size the instruction fetch asserts, a constant of the source. -/
def codeSize : ℕ := 1024

def fresh (lambda : ScriptLambda) : StackFrame :=
  ⟨some lambda, 0, 0, 0, fun _ => .null⟩

/-- `get_register`: asserts that the register exists. SRCLINE: StackFrame.cpp:86 -/
def getRegister (f : StackFrame) (i : ℕ) : Except VmErrorKind Variant :=
  if i < MAX_REGISTERS then .ok (f.registers i) else .error .NativeError

def put (f : StackFrame) (i : ℕ) (v : Variant) : StackFrame :=
  { f with registers := Function.update f.registers i v }

def jump (f : StackFrame) (target : ℕ) : StackFrame := { f with pc := target }

def advance (f : StackFrame) : StackFrame := f.jump (f.pc + 1)

/-- The constant at an index of the symbol table, when there is one. -/
def symbol (f : StackFrame) (i : ℕ) : Option (BitVec 64) :=
  f.lambda.bind fun l => l.symbols[i]?

@[simp] theorem put_lambda (f : StackFrame) (i : ℕ) (v : Variant) :
    (f.put i v).lambda = f.lambda := rfl

@[simp] theorem put_pc (f : StackFrame) (i : ℕ) (v : Variant) : (f.put i v).pc = f.pc := rfl

@[simp] theorem put_registers (f : StackFrame) (i : ℕ) (v : Variant) :
    (f.put i v).registers = Function.update f.registers i v := rfl

@[simp] theorem jump_lambda (f : StackFrame) (t : ℕ) : (f.jump t).lambda = f.lambda := rfl

@[simp] theorem jump_pc (f : StackFrame) (t : ℕ) : (f.jump t).pc = t := rfl

@[simp] theorem jump_registers (f : StackFrame) (t : ℕ) :
    (f.jump t).registers = f.registers := rfl

@[simp] theorem advance_lambda (f : StackFrame) : f.advance.lambda = f.lambda := rfl

@[simp] theorem advance_pc (f : StackFrame) : f.advance.pc = f.pc + 1 := rfl

@[simp] theorem advance_registers (f : StackFrame) : f.advance.registers = f.registers := rfl

@[simp] theorem getRegister_of_lt (f : StackFrame) {i : ℕ} (h : i < MAX_REGISTERS) :
    f.getRegister i = .ok (f.registers i) := if_pos h

end StackFrame

/-! ## The machine's surroundings and states -/

/-- What the virtual machine consults outside its frames: the floating-point unit, the
native function registry, the global symbol table, the functions in loaded files, and the
behaviour of a native call (a result, the new memory and whether the process asked to
yield, or the kind of the exception it threw). -/
structure Runtime where
  fpu : FloatUnit
  findNativeFunction : Word → Option Word
  findSymbolPtr : Word → Option Word
  lambdaAt : Word → Option ScriptLambda
  callNative : Word → List Variant → Memory → Except VmErrorKind (Variant × Memory × Bool)

/-- The state of a run: the current frame, its callers (innermost first) and the memory. -/
structure VmState where
  frame : StackFrame
  parents : List StackFrame
  memory : Memory

/-- How `execute` ends. `returned` carries the frame whose `Return` ended the run. -/
inductive Halt where
  | returned (value : Variant) (frame : StackFrame)
  | yielded (value : Variant) (state : VmState)
  | failed (kind : VmErrorKind)
  | dropped
  | escaped
  | undefined

inductive Effect where
  | continue (frame : StackFrame) (memory : Memory)
  | leave (value : Variant)
  | enter (target : Word) (frame : StackFrame) (dst argc : ℕ)
  | yield (value : Variant) (frame : StackFrame) (memory : Memory)
  | drop
  | undefined

/-! ## Instructions -/

section Exec

variable (rt : Runtime) (m : Memory) (f : StackFrame) (i : Instruction)

def execBinaryInt (op : I64 → I64 → Variant) : Except VmErrorKind Effect := do
  let _ ← f.getRegister i.a
  let src1 ← f.getRegister i.b
  let src2 ← f.getRegister i.c
  let x ← src1.toInt rt.fpu
  let y ← src2.toInt rt.fpu
  return .continue (f.put i.a (op x y)) m

def execBinaryFloat (op : BitVec 32 → BitVec 32 → Variant) : Except VmErrorKind Effect := do
  let _ ← f.getRegister i.a
  let src1 ← f.getRegister i.b
  let src2 ← f.getRegister i.c
  let x ← src1.toFloat rt.fpu
  let y ← src2.toFloat rt.fpu
  return .continue (f.put i.a (op x y)) m

def execUnaryInt (op : I64 → Variant) : Except VmErrorKind Effect := do
  let _ ← f.getRegister i.a
  let src ← f.getRegister i.b
  let x ← src.toInt rt.fpu
  return .continue (f.put i.a (op x)) m

def execUnaryFloat (op : BitVec 32 → Variant) : Except VmErrorKind Effect := do
  let _ ← f.getRegister i.a
  let src ← f.getRegister i.b
  let x ← src.toFloat rt.fpu
  return .continue (f.put i.a (op x)) m

/-- `IAdd`: with one pointer and one integer operand the result is the shifted pointer.
SRCLINE: VirtualMachine.cpp:308-331 -/
def execIAdd : Except VmErrorKind Effect := do
  let _ ← f.getRegister i.a
  let src1 ← f.getRegister i.b
  let src2 ← f.getRegister i.c
  match src1, src2 with
  | .pointer p, .int n => return .continue (f.put i.a (.pointer (p + n))) m
  | .int n, .pointer p => return .continue (f.put i.a (.pointer (p + n))) m
  | _, _ =>
    let x ← src1.toInt rt.fpu
    let y ← src2.toInt rt.fpu
    return .continue (f.put i.a (.int (x + y))) m

/-- `IDiv` and `IMod`: the divisor is narrowed to `i32`; a zero divisor is logged and leaves
the destination as it was. SRCLINE: VirtualMachine.cpp:349-375 -/
def execDivision (op : I64 → I64 → I64) : Except VmErrorKind Effect := do
  let _ ← f.getRegister i.a
  let src1 ← f.getRegister i.b
  let src2 ← f.getRegister i.c
  let y ← src2.toInt rt.fpu
  let divisor : BitVec 32 := y.truncate 32
  if divisor = 0 then return .continue f m
  let x ← src1.toInt rt.fpu
  if x = BitVec.intMin 64 ∧ divisor = -1 then return .undefined
  return .continue (f.put i.a (.int (op x (divisor.signExtend 64)))) m

/-- `FDiv`: a zero divisor is logged and leaves the destination as it was. -/
def execFDiv : Except VmErrorKind Effect := do
  let _ ← f.getRegister i.a
  let src1 ← f.getRegister i.b
  let src2 ← f.getRegister i.c
  let divisor ← src2.toFloat rt.fpu
  if rt.fpu.isZero divisor then return .continue f m
  let x ← src1.toFloat rt.fpu
  return .continue (f.put i.a (.ofF32 rt.fpu (rt.fpu.div x divisor))) m

/-- `IntAsh`, on `i32` operands; a shift by 32 or more is undefined. -/
def execIntAsh : Except VmErrorKind Effect := do
  let _ ← f.getRegister i.a
  let src1 ← f.getRegister i.b
  let src2 ← f.getRegister i.c
  let x ← src1.toInt rt.fpu
  let y ← src2.toInt rt.fpu
  let value : BitVec 32 := x.truncate 32
  let shift : Int := (y.truncate 32 : BitVec 32).toInt
  if 32 ≤ shift.natAbs then return .undefined
  let shifted := if 0 ≤ shift then value <<< shift.natAbs else value.sshiftRight shift.natAbs
  return .continue (f.put i.a (.int (shifted.signExtend 64))) m

/-- The immediate forms that accept a pointer: `op` shifts the pointer, `intOp` is applied to
an integer. -/
def execOffsetImm (op intOp : BitVec 64 → BitVec 64 → BitVec 64) :
    Except VmErrorKind Effect := do
  let _ ← f.getRegister i.a
  let src ← f.getRegister i.b
  let imm : BitVec 64 := BitVec.ofNat 64 i.c
  match src with
  | .pointer p => return .continue (f.put i.a (.pointer (op p imm))) m
  | _ =>
    let x ← src.toInt rt.fpu
    return .continue (f.put i.a (.int (intOp x imm))) m

/-- `IDivImm`: a zero immediate is logged and leaves the destination as it was. -/
def execIDivImm : Except VmErrorKind Effect := do
  let _ ← f.getRegister i.a
  let src ← f.getRegister i.b
  if i.c = 0 then return .continue f m
  let x ← src.toInt rt.fpu
  return .continue (f.put i.a (.int (x.sdiv (BitVec.ofNat 64 i.c)))) m

def execLogical (op : Bool → Bool → Bool) : Except VmErrorKind Effect := do
  let _ ← f.getRegister i.a
  let src1 ← f.getRegister i.b
  let src2 ← f.getRegister i.c
  return .continue (f.put i.a (.ofBool (op (src1.toBool rt.fpu) (src2.toBool rt.fpu)))) m

/-- `checked_get_ptr`: a non-null pointer. SRCLINE: VirtualMachine.cpp:1076-1098 -/
def checkedGetPtr : Variant → Except VmErrorKind Word
  | .pointer p => if p = 0 then .error .NullDeref else .ok p
  | _ => .error .TypeMismatch

/-- The indirect loads: `size` bytes at the address in `b`, made a value by `decode`. -/
def execLoad (size : ℕ) (decode : ℕ → Variant) : Except VmErrorKind Effect := do
  let base ← f.getRegister i.b
  let ptr ← checkedGetPtr base
  let _ ← f.getRegister i.a
  return .continue (f.put i.a (decode (m.read ptr size))) m

/-- The indirect stores: the value in `b`, made bytes by `encode`, to the address in `a`. -/
def execStore (size : ℕ) (encode : Variant → Except VmErrorKind ℕ) :
    Except VmErrorKind Effect := do
  let base ← f.getRegister i.a
  let value ← f.getRegister i.b
  let ptr ← checkedGetPtr base
  let n ← encode value
  return .continue f (m.write ptr size n)

/-- The loads from the symbol table: the index is operand `b`, one byte.
SRCLINE: VirtualMachine.cpp:949-998 -/
def execStatic (decode : BitVec 64 → Variant) : Except VmErrorKind Effect := do
  let _ ← f.getRegister i.a
  match f.symbol i.b with
  | none => return .undefined
  | some raw => return .continue (f.put i.a (decode raw)) m

/-- `LookupPointer` on a string id: a native function, else a global symbol, else the id
itself as an integer. SRCLINE: VirtualMachine.cpp:733-762 -/
def lookupPointer (sid : Word) : Variant :=
  match rt.findNativeFunction sid with
  | some p => .pointer p
  | none =>
    match rt.findSymbolPtr sid with
    | some p => .pointer p
    | none => .int sid

/-- `Call`: a pointer is called as it is; a string id is resolved through the globals and the
pointer is cached in the register. SRCLINE: VirtualMachine.cpp:141-179 -/
def execCall : Except VmErrorKind Effect := do
  match ← f.getRegister i.b with
  | .pointer p => return .enter p f i.a i.c
  | .int sid =>
    match rt.findSymbolPtr sid with
    | none => throw .UndefinedFunction
    | some p => return .enter p (f.put i.b (.pointer p)) i.a i.c
  | _ => throw .TypeMismatch

def arguments (argc : ℕ) : List Variant :=
  (List.range argc).map fun k => f.registers (ARG_REGISTERS_OFFSET + k)

/-- Call the native function at `p` and store its result; stop when the process yields. -/
def execNative (p : Word) : Except VmErrorKind Effect := do
  let _ ← f.getRegister i.a
  let (v, m', yields) ← rt.callNative p (arguments f i.c) m
  if yields then return .yield v (f.put i.a v) m'
  return .continue (f.put i.a v) m'

/-- `CallFf`: an unresolved native function clears the current frame.
SRCLINE: VirtualMachine.cpp:180-233 -/
def execCallFf : Except VmErrorKind Effect := do
  match ← f.getRegister i.b with
  | .pointer p => execNative rt m f i p
  | .int sid =>
    match rt.findNativeFunction sid with
    | none => return .drop
    | some p => execNative rt m f i p
  | _ => return .drop

/-- Offsets of the records `CallMethod` reads: `SsType::m_numMethods`, `SsType::m_pMethods`,
the size of an `SsMethod` and the offset of its lambda pointer.
SRCLINE: DCScript.hpp:325-367 -/
def ssTypeNumMethods : ℕ := 0x1C
@[inherit_doc ssTypeNumMethods] def ssTypeMethods : ℕ := 0x28
@[inherit_doc ssTypeNumMethods] def ssMethodSize : ℕ := 0x18
@[inherit_doc ssTypeNumMethods] def ssMethodLambda : ℕ := 0x10

/-- `CallMethod`: the receiver's first word names its run-time type; the type's method table
is indexed by the method id in register `b`. SRCLINE: VirtualMachine.cpp:235-286 -/
def execCallMethod : Except VmErrorKind Effect := do
  if i.c = 0 then throw .TypeMismatch
  match f.registers ARG_REGISTERS_OFFSET, ← f.getRegister i.b with
  | .pointer obj, .int idx =>
    if obj = 0 then throw .TypeMismatch
    match rt.findSymbolPtr (m.readWord obj) with
    | none => throw .UndefinedFunction
    | some type =>
      let methods := m.readWord (type + BitVec.ofNat 64 ssTypeMethods)
      let count := m.read (type + BitVec.ofNat 64 ssTypeNumMethods) 4
      if methods = 0 ∨ idx.toInt < 0 ∨ (count : Int) ≤ idx.toInt then throw .UndefinedFunction
      let record := methods + idx * BitVec.ofNat 64 ssMethodSize
      let lambda := m.readWord (record + BitVec.ofNat 64 ssMethodLambda)
      if lambda = 0 then throw .UndefinedFunction
      return .enter lambda f i.a i.c
  | _, _ => throw .TypeMismatch

/-- `StoreArray`: copy 32 bytes from the address in `c` to the address in `b`. -/
def execStoreArray : Except VmErrorKind Effect := do
  let src ← (← f.getRegister i.c).getPtr
  let dst ← (← f.getRegister i.b).getPtr
  if src = 0 ∨ dst = 0 then return .undefined
  let _ ← f.getRegister i.a
  return .continue (f.put i.a (.pointer src)) (m.write dst 32 (m.read src 32))

/-- Sign extension of the low `8 * n` bits of a number read from memory. -/
def signed (bits n : ℕ) : Variant := .int ((BitVec.ofNat bits n).signExtend 64)

def unsigned (n : ℕ) : Variant := .int (BitVec.ofNat 64 n)

/-- The switch of `VirtualMachine::execute`: what one instruction does, with the program
counter already past it. SRCLINE: VirtualMachine.cpp:106-1046 -/
def exec : Except VmErrorKind Effect :=
  let fpu := rt.fpu
  match i.opcode with
  | .Return => do return .leave (← f.getRegister i.a)
  | .Move => do
    let _ ← f.getRegister i.a
    return .continue (f.put i.a (← f.getRegister i.b)) m
  | .Call => execCall rt f i
  | .CallFf => execCallFf rt m f i
  | .CallMethod => execCallMethod rt m f i
  | .Branch => return .continue (f.jump i.imm16) m
  | .BranchIf => do
    let condition ← f.getRegister i.a
    return .continue (if condition.toBool fpu then f.jump i.imm16 else f) m
  | .BranchIfNot => do
    let condition ← f.getRegister i.a
    return .continue (if condition.toBool fpu then f else f.jump i.imm16) m
  | .IAdd => execIAdd rt m f i
  | .ISub => execBinaryInt rt m f i fun x y => .int (x - y)
  | .IMul => execBinaryInt rt m f i fun x y => .int (x * y)
  | .IDiv => execDivision rt m f i BitVec.sdiv
  | .IMod => execDivision rt m f i BitVec.srem
  | .IAbs => execUnaryInt rt m f i fun x => .int (if x.slt 0 then -x else x)
  | .INeg => execUnaryInt rt m f i fun x => .int (-x)
  | .IntAsh => execIntAsh rt m f i
  | .CastInteger => execUnaryInt rt m f i fun x => .int x
  | .LoadU16Imm => do
    let _ ← f.getRegister i.a
    return .continue (f.put i.a (.int (BitVec.ofNat 64 i.imm16))) m
  | .IAddImm => execOffsetImm rt m f i (· + ·) (· + ·)
  | .ISubImm => execOffsetImm rt m f i (· - ·) (· + ·)
  | .IMulImm => execUnaryInt rt m f i fun x => .int (x * BitVec.ofNat 64 i.c)
  | .IDivImm => execIDivImm rt m f i
  | .FAdd => execBinaryFloat rt m f i fun x y => .ofF32 fpu (fpu.add x y)
  | .FSub => execBinaryFloat rt m f i fun x y => .ofF32 fpu (fpu.sub x y)
  | .FMul => execBinaryFloat rt m f i fun x y => .ofF32 fpu (fpu.mul x y)
  | .FDiv => execFDiv rt m f i
  | .FMod => execBinaryFloat rt m f i fun x y => .ofF32 fpu (fpu.fmod x y)
  | .FAbs => execUnaryFloat rt m f i fun x => .ofF32 fpu (fpu.fabs x)
  | .FNeg => execUnaryFloat rt m f i fun x => .ofF32 fpu (fpu.neg x)
  | .CastFloat => execUnaryFloat rt m f i fun x => .ofF32 fpu x
  | .IEqual => execBinaryInt rt m f i fun x y => .ofBool (x == y)
  | .INotEqual => execBinaryInt rt m f i fun x y => .ofBool (x != y)
  | .IGreaterThan => execBinaryInt rt m f i fun x y => .ofBool (y.slt x)
  | .IGreaterThanEqual => execBinaryInt rt m f i fun x y => .ofBool (y.sle x)
  | .ILessThan => execBinaryInt rt m f i fun x y => .ofBool (x.slt y)
  | .ILessThanEqual => execBinaryInt rt m f i fun x y => .ofBool (x.sle y)
  | .FEqual => execBinaryFloat rt m f i fun x y => .ofBool (fpu.near x y)
  | .FGreaterThan => execBinaryFloat rt m f i fun x y => .ofBool (fpu.lt y x)
  | .FGreaterThanEqual => execBinaryFloat rt m f i fun x y => .ofBool (fpu.le y x)
  | .FLessThan => execBinaryFloat rt m f i fun x y => .ofBool (fpu.lt x y)
  | .FLessThanEqual => execBinaryFloat rt m f i fun x y => .ofBool (fpu.le x y)
  | .OpLogAnd => execLogical rt m f i and
  | .OpLogOr => execLogical rt m f i or
  | .OpLogNot => do
    let _ ← f.getRegister i.a
    return .continue (f.put i.a (.ofBool (!(← f.getRegister i.b).toBool fpu))) m
  | .OpBitAnd => execBinaryInt rt m f i fun x y => .int (x &&& y)
  | .OpBitOr => execBinaryInt rt m f i fun x y => .int (x ||| y)
  | .OpBitXor => execBinaryInt rt m f i fun x y => .int (x ^^^ y)
  | .OpBitNor => execBinaryInt rt m f i fun x y => .int (~~~(x ||| y))
  | .OpBitNot => execUnaryInt rt m f i fun x => .int (~~~x)
  | .LoadParamCnt => do
    let _ ← f.getRegister i.a
    return .continue (f.put i.a (.int (BitVec.ofNat 64 f.argc))) m
  | .LookupInt => execStatic m f i .int
  | .LookupFloat => execStatic m f i .float
  | .LookupPointer => execStatic m f i (lookupPointer rt)
  | .LoadInt | .LoadI32 | .LoadU32 => execLoad m f i 4 (signed 32)
  | .LoadFloat => execLoad m f i 4 fun n => .ofF32 fpu (BitVec.ofNat 32 n)
  | .LoadPointer => execLoad m f i 8 fun n => .pointer (BitVec.ofNat 64 n)
  | .LoadI8 => execLoad m f i 1 (signed 8)
  | .LoadU8 => execLoad m f i 1 unsigned
  | .LoadI16 => execLoad m f i 2 (signed 16)
  | .LoadU16 => execLoad m f i 2 unsigned
  | .LoadI64 | .LoadU64 => execLoad m f i 8 unsigned
  | .StoreInt | .StoreI32 | .StoreU32 =>
    execStore m f i 4 fun v => do return (← v.toInt fpu).toNat
  | .StoreFloat => execStore m f i 4 fun v => do return (← v.toFloat fpu).toNat
  | .StorePointer => execStore m f i 8 fun v => do return (← v.getPtr).toNat
  | .StoreI8 | .StoreU8 => execStore m f i 1 fun v => do return (← v.getI64).toNat
  | .StoreI16 | .StoreU16 => execStore m f i 2 fun v => do return (← v.getI64).toNat
  | .StoreI64 | .StoreU64 => execStore m f i 8 fun v => do return (← v.getI64).toNat
  | .LoadStaticInt => execStatic m f i .int
  | .LoadStaticFloat => execStatic m f i .float
  | .LoadStaticPointer => execStatic m f i .pointer
  | .LoadStaticI8Imm | .LoadStaticU8Imm | .LoadStaticI16Imm | .LoadStaticU16Imm
  | .LoadStaticI32Imm | .LoadStaticU32Imm | .LoadStaticI64Imm | .LoadStaticU64Imm =>
    execStatic m f i .int
  | .LoadStaticFloatImm => execStatic m f i .float
  | .LoadStaticPointerImm => execStatic m f i .pointer
  | .StoreArray => execStoreArray m f i
  -- the `default:` branch: the opcodes the switch has no case for
  | .MoveInt | .MoveFloat | .MovePointer | .GoTo | .Label | .FNotEqual | .AssertPointer
  | .BreakFlag | .Breakpoint => return .drop

end Exec

/-! ## The loop -/

/-- `push_call_frame`: a frame for `target` that receives `argc` arguments.
SRCLINE: VirtualMachine.cpp:60-73 -/
def pushCallFrame (target : ScriptLambda) (caller : StackFrame) (dst argc : ℕ) :
    Except VmErrorKind StackFrame :=
  if ARG_REGISTERS_OFFSET + argc ≤ MAX_REGISTERS then
    .ok { lambda := some target, pc := 0, argc := argc, retNum := dst,
          registers := fun k =>
            if ARG_REGISTERS_OFFSET ≤ k ∧ k < ARG_REGISTERS_OFFSET + argc then
              caller.registers k else .null }
  else .error .NativeError

/-- Return a value to the innermost caller; a run ends where there is none, or where the
caller is a container without bytecode. SRCLINE: VirtualMachine.cpp:109-131 -/
def leave (s : VmState) (v : Variant) : VmState ⊕ Halt :=
  match s.parents with
  | [] => .inr (.returned v s.frame)
  | p :: rest =>
    if p.lambda.isNone then .inr (.returned v s.frame)
    else
      match p.getRegister s.frame.retNum with
      | .error e => .inr (.failed e)
      | .ok _ => .inl ⟨p.put s.frame.retNum v, rest, s.memory⟩

def settle (rt : Runtime) (s : VmState) : Except VmErrorKind Effect → VmState ⊕ Halt
  | .error e => .inr (.failed e)
  | .ok (.continue f m) => .inl ⟨f, s.parents, m⟩
  | .ok (.leave v) => leave s v
  | .ok (.enter target f dst argc) =>
    match rt.lambdaAt target with
    | none => .inr .undefined
    | some l =>
      match pushCallFrame l f dst argc with
      | .error e => .inr (.failed e)
      | .ok callee => .inl ⟨callee, f :: s.parents, s.memory⟩
  | .ok (.yield v f m) => .inr (.yielded v ⟨f, s.parents, m⟩)
  | .ok .drop => .inr .dropped
  | .ok .undefined => .inr .undefined

def vmStep (rt : Runtime) (s : VmState) : VmState ⊕ Halt :=
  match s.frame.lambda with
  | none => .inr .escaped
  | some l =>
    if s.frame.pc < StackFrame.codeSize then
      match l.code[s.frame.pc]? with
      | none => .inr .undefined
      | some i =>
        settle rt { s with frame := s.frame.advance } (exec rt s.memory s.frame.advance i)
    else .inr .escaped

/-- `VirtualMachine::execute` as a machine. SRCLINE: VirtualMachine.cpp:76-1046 -/
def virtualMachine (rt : Runtime) : Machine VmState Halt := ⟨vmStep rt⟩

/-- The frame `execute_function` starts from: the arguments in the argument registers.
SRCLINE: VirtualMachine.cpp:34-53 -/
def entryFrame (l : ScriptLambda) (args : List Variant) : StackFrame :=
  { lambda := some l, pc := 0, argc := args.length, retNum := 0,
    registers := fun k =>
      if ARG_REGISTERS_OFFSET ≤ k then args.getD (k - ARG_REGISTERS_OFFSET) .null
      else .null }

/-- A machine without native functions and symbols, whose floating-point unit only moves bits:
enough for programs that use none of these. -/
def bareRuntime : Runtime where
  fpu :=
    { ofI64 := fun v => v.truncate 32
      narrow := fun v => v.truncate 32
      widen := fun v => v.zeroExtend 64
      toI32 := fun v => v.truncate 32
      nonzero := fun v => v != 0
      add := fun v _ => v
      sub := fun v _ => v
      mul := fun v _ => v
      div := fun v _ => v
      fmod := fun v _ => v
      fabs := id
      neg := id
      isZero := fun v => v == 0
      near := fun v w => v == w
      lt := fun v w => v.ult w
      le := fun v w => v.ule w }
  findNativeFunction := fun _ => none
  findSymbolPtr := fun _ => none
  lambdaAt := fun _ => none
  callNative := fun _ _ _ => .error .NativeError

end Soot.Program
