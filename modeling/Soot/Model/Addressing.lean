import Soot.Program.Emit
import Soot.Program.VirtualMachine

/-!
# The memory that compiled code reads and writes

The addresses of the forms that access memory, and the typed values that go through them.
-/

set_option autoImplicit false

namespace Soot.Model

open Soot.Computation Soot.Program

/-!
## Field and element accesses

An access is a use of a field or an element: it has an address, which the emitted code computes from
the base and the index, and in most cases an instruction that loads or stores there. It is faithful
if the address is the base and the displacement (`ComputesAddress`), and if the instruction
touches no byte outside the field or element (`StaysInside`).
-/

/-- A type whose size is an `int`. -/
structure SizedType extends TypeDesc where
  size_lt : sizeInMemory < 2 ^ 31

/-- The accesses that are emitted: a field that is read, set or initialised by `new`, and the same
of an element. An index is a literal, or computed at run time; `new` initialises only scalars. -/
inductive Access where
  | field (offset : BitVec 32) (type : SizedType) (isInline : Bool)
  | setField (offset : BitVec 32) (type : SizedType) (isInline : Bool)
  | initField (offset : BitVec 32) (type : SizedType) (scalar : type.isReference = false)
  | element (constIndex : Option I64) (type : SizedType)
  | setElement (constIndex : Option I64) (type : SizedType)
  | initElement (offset : Word) (type : SizedType) (scalar : type.isReference = false)

namespace Access

def address (base index : ℕ) : Access → EmitM ℕ
  | field offset _ _ | setField offset _ _ | initField offset _ _ =>
    emitDerefLvalue (pure (some base)) offset.toNat
  | element constIndex type | setElement constIndex type =>
    emitAtLvalue (pure (some base)) (pure (some index)) constIndex type.toTypeDesc
  | initElement offset _ _ => addOffset base offset.toNat

/-- The instruction at the address, with the register that is loaded or stored; none where the
address is the value. -/
def instruction (address other : ℕ) : Access → EmitM (Option Instruction)
  | field _ type isInline =>
    match type.typeClass with
    | .null => throw .neitherValueNorReference
    | .value => do return some ⟨← loadOpcode type.toTypeDesc, other, address, 0⟩
    | .reference => return if isInline then none else some ⟨.LoadPointer, other, address, 0⟩
  | element _ type =>
    if type.isReference then return none
    else do return some ⟨← loadOpcode type.toTypeDesc, other, address, 0⟩
  | setField _ type _ | setElement _ type =>
    do return some ⟨← setStoreOpcode type.toTypeDesc, address, other, 0⟩
  | initField _ type _ | initElement _ type _ =>
    do return some ⟨← storeOpFor type.toTypeDesc, address, other, 0⟩

/-- How far the field or element is from the base, for the value of the index. -/
def displacement (index : I64) : Access → Word
  | field offset _ _ | setField offset _ _ | initField offset _ _ => offset.zeroExtend 64
  | element constIndex type | setElement constIndex type =>
    constIndex.getD index * BitVec.ofNat 64 type.sizeInMemory
  | initElement offset _ _ => offset

/-- How many bytes the field or element has: a field of a reference type that is not inline is a
pointer. -/
def extent : Access → ℕ
  | field _ type isInline | setField _ type isInline =>
    if type.isReference && !isInline then 8 else type.sizeInMemory
  | element _ type | setElement _ type | initField _ type _ | initElement _ type _ =>
    type.sizeInMemory

end Access

/-- A state about to execute some instructions of a function with some constants. -/
def Executes (s : VmState) (code : List Instruction) (constants : List Word) : Prop :=
  ∃ l : ScriptLambda, s.frame.lambda = some l ∧ code <+: l.code.drop s.frame.pc ∧
    constants <+: l.symbols

/-- Wherever the code for the address runs through, with the base a pointer and the index an
integer,
the register of the address holds the pointer at the displacement. -/
def ComputesAddress (a : Access) (fn : FunctionNode) (base index : ℕ) : Prop :=
  ∀ address fn', a.address base index fn = .ok (address, fn') →
    ∀ (rt : Runtime) (s t : VmState) (p : Word) (n : I64),
      Executes s (fn'.instructions.drop fn.instructions.length) fn'.constants →
      s.frame.registers base = .pointer p → s.frame.registers index = .int n →
      (virtualMachine rt).Reaches (fn'.instructions.length - fn.instructions.length) s t →
      t.frame.registers address = .pointer (p + a.displacement n)

def InExtent (a : Access) (p q : Word) : Prop := (q - p).toNat < a.extent

/-- The instruction of an access changes only bytes of the field or element, and what it leaves in
the registers depends only on them. -/
def StaysInside (a : Access) : Prop :=
  ∀ (address other : ℕ) (fn fn' : FunctionNode) (i : Instruction),
    a.instruction address other fn = .ok (some i, fn') →
    ∀ (rt : Runtime) (s t : VmState) (p : Word), Executes s [i] [] →
      s.frame.registers address = .pointer p → (virtualMachine rt).step s = .inl t →
      (∀ q, t.memory q ≠ s.memory q → InExtent a p q) ∧
      ∀ m u, (∀ q, InExtent a p q → m q = s.memory q) →
        (virtualMachine rt).step { s with memory := m } = .inl u →
        u.frame.registers = t.frame.registers

/-- An access computes its address and stays inside its field or element. -/
def Faithful (a : Access) (fn : FunctionNode) (base index : ℕ) : Prop :=
  ComputesAddress a fn base index ∧ StaysInside a

/-! ### When an access is faithful -/

def temporary (fn : FunctionNode) (k : ℕ) : ℕ :=
  u8 (u8 fn.variableInfos.length + (fn.nextTempReg + k))

/-- The base and some temporaries are registers of a frame, and the index is in another register
than
the base. -/
def Available (fn : FunctionNode) (base index k : ℕ) : Prop :=
  base < MAX_REGISTERS ∧ base ≠ index ∧ ∀ j < k, temporary fn j < MAX_REGISTERS

/-- A constant among the first 256 of the pool, or that would be added among them. -/
def LowConstant (fn : FunctionNode) (value : Word) : Prop := fn.constants.idxOf value < 256

/-- A displacement that is known at compile time: it fits a byte, or is a low constant that is not
loaded over the base. -/
def FitsOffset (fn : FunctionNode) (base index : ℕ) (offset : Word) : Prop :=
  255 < offset.toNat → Available fn base index 2 → temporary fn 1 ≠ base ∧ LowConstant fn offset

/-- An index that is computed at run time: its product goes into another register than the base, and
a stride that does not fit a byte is a low constant that is loaded over neither operand. -/
def FitsStride (fn : FunctionNode) (base index stride : ℕ) : Prop :=
  index < MAX_REGISTERS →
    if stride ≤ 255 then Available fn base index 2 → temporary fn 0 ≠ base
    else Available fn base index 3 → temporary fn 0 ≠ base ∧ temporary fn 1 ≠ base ∧
      temporary fn 1 ≠ index ∧ LowConstant fn (BitVec.ofNat 64 stride)

namespace Access

/-- The address of the access fits into the operands of its instructions, where there are registers
for it. -/
def Fits (fn : FunctionNode) (base index : ℕ) : Access → Prop
  | field offset _ _ | setField offset _ _ | initField offset _ _ =>
    Available fn base index 1 → offset.toNat < 256
  | element (some c) type | setElement (some c) type =>
    0 < type.sizeInMemory → 0 ≤ c.toInt →
      FitsOffset fn base index (c * BitVec.ofNat 64 type.sizeInMemory)
  | element none type | setElement none type =>
    0 < type.sizeInMemory → FitsStride fn base index type.sizeInMemory
  | initElement offset _ _ => FitsOffset fn base index offset

def scalarBytes (type : SizedType) : ℕ :=
  if type.floatRegister then 4
  else if type.loadSize ∈ [1, 2, 4, 8] then type.loadSize
  else 0

/-- How many bytes the instruction of the access accesses; none where there is none. -/
def bytes : Access → ℕ
  | field _ type isInline =>
    match type.typeClass with
    | .null => 0
    | .value => scalarBytes type
    | .reference => if isInline then 0 else 8
  | element _ type => if type.isReference then 0 else scalarBytes type
  | initField _ type _ | initElement _ type _ => scalarBytes type
  | setField _ type _ | setElement _ type => if type.isReference then 8 else scalarBytes type

end Access

/-!
## Scalars in memory

The scalar types with the values they hold, the accesses that store and load them, and what it
means that a value comes back as it was stored. The machine is about to execute the store and, right
after it, the load.
-/

/-- A scalar type: a reference, which is stored as a pointer, a float of four bytes, or an integer
that is as large as it is loaded. -/
structure ScalarType extends SizedType where
  notNull : typeClass ≠ .null
  whole : typeClass = .value →
    if floatRegister then sizeInMemory = 4 else loadSize ∈ [1, 2, 4, 8] ∧ sizeInMemory = loadSize

namespace ScalarType

/-- Values of the type are pointers: the references, and the type `pointer`. -/
def holdsPointers (type : ScalarType) : Prop := type.isReference = true ∨ type.name = "pointer"

instance (type : ScalarType) : Decidable type.holdsPointers :=
  inferInstanceAs (Decidable (_ ∨ _))

def InRange (fpu : FloatUnit) (type : ScalarType) (v : Variant) : Prop :=
  if type.holdsPointers then ∃ p, v = .pointer p
  else if type.floatRegister then ∃ x, v = .ofF32 fpu x
  else ∃ w : I64, v = .int w ∧
    if type.loadSigned then
      -(2 ^ (8 * type.loadSize - 1) : ℤ) ≤ w.toInt ∧ w.toInt < 2 ^ (8 * type.loadSize - 1)
    else w.toNat < 2 ^ (8 * type.loadSize)

end ScalarType

inductive StoresScalar (type : ScalarType) : Access → Prop
  | setField (offset : BitVec 32) (isInline : Bool) :
      StoresScalar type (.setField offset type.toSizedType isInline)
  | initField (offset : BitVec 32) (scalar : type.isReference = false) :
      StoresScalar type (.initField offset type.toSizedType scalar)
  | setElement (index : Option I64) : StoresScalar type (.setElement index type.toSizedType)
  | initElement (offset : Word) (scalar : type.isReference = false) :
      StoresScalar type (.initElement offset type.toSizedType scalar)

/-- The accesses that load a scalar; a reference is loaded from a field that is not inline. -/
inductive LoadsScalar (type : ScalarType) : Access → Prop
  | field (offset : BitVec 32) (isInline : Bool)
      (loaded : type.isReference = true → isInline = false) :
      LoadsScalar type (.field offset type.toSizedType isInline)
  | element (index : Option I64) (scalar : type.isReference = false) :
      LoadsScalar type (.element index type.toSizedType)

def ScalarType.bytes (type : ScalarType) : ℕ := if type.isReference then 8 else type.sizeInMemory

structure AccessRegisters where
  address : ℕ
  value : ℕ
  address' : ℕ
  dst : ℕ
  address_lt : address < MAX_REGISTERS
  value_lt : value < MAX_REGISTERS
  address'_lt : address' < MAX_REGISTERS
  dst_lt : dst < MAX_REGISTERS

/-- A state about to store a value at an address, and to load it from there. -/
structure Stored (s : VmState) (store load : Instruction) (r : AccessRegisters) (p : Word)
    (v : Variant) : Prop where
  code : Executes s [store, load] []
  inside : s.frame.pc + 1 < StackFrame.codeSize
  address : s.frame.registers r.address = .pointer p
  address' : s.frame.registers r.address' = .pointer p
  notNull : p ≠ 0
  value : s.frame.registers r.value = v

/-- What an access stores, another loads: both choose an instruction, and after the two
the value is in the destination and no byte outside the scalar has changed. -/
def RoundTrips (rt : Runtime) (type : ScalarType) (store load : Access) (v : Variant) : Prop :=
  ∀ r : AccessRegisters, ∃ i j,
    (∀ fn, store.instruction r.address r.value fn = .ok (some i, fn)) ∧
    (∀ fn, load.instruction r.address' r.dst fn = .ok (some j, fn)) ∧
    ∀ s p, Stored s i j r p v → ∃ t, (virtualMachine rt).Reaches 2 s t ∧
      t.frame.registers r.dst = v ∧
      ∀ q, t.memory q ≠ s.memory q → (q - p).toNat < type.bytes

/-- The type is not the value type `pointer`, and an unsigned value of four bytes has its
high bit clear. -/
def SurvivesMemory (type : ScalarType) (v : Variant) : Prop :=
  (type.name = "pointer" → type.isReference = true) ∧
  ∀ w : I64, v = .int w → type.loadSigned = false → type.loadSize = 4 → w.toNat < 2 ^ 31

end Soot.Model
