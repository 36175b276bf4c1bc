import Soot.Analysis.Addressing

/-!
# What is stored comes back

Reading what was written, the opcodes that a scalar type chooses with the number of bytes they
access, and from both what the store and the load make of a value: it is encoded, cut to the bytes
of the type, and decoded. Decoding undoes encoding for all types but two.
-/

set_option autoImplicit false

namespace Soot.Analysis

open Soot.Program Soot.Computation Soot.Model

variable {rt : Runtime} {s t : VmState} {type : ScalarType} {v : Variant}

/-! ## Memory -/

theorem memory_read_bytes {m : Memory} {p : Word} {n v : ℕ} (hn : n ≤ 8)
    (h : ∀ k, k < n → m (p + BitVec.ofNat 64 k) = BitVec.ofNat 8 (v / 256 ^ k)) :
    m.read p n = v % 256 ^ n := by
  induction n generalizing p v with
  | zero => simp [Memory.read, Nat.mod_one]
  | succ n ih =>
    have hhead : m p = BitVec.ofNat 8 v := by simpa using h 0 (Nat.succ_pos n)
    have htail : m.read (p + 1) n = v / 256 % 256 ^ n := by
      apply ih (by omega)
      intro k hk
      have hbyte := h (k + 1) (by omega)
      have hnext : p + BitVec.ofNat 64 (k + 1) = p + 1 + BitVec.ofNat 64 k := by
        rw [Nat.add_comm, BitVec.ofNat_add, BitVec.add_assoc]
        rfl
      rw [← hnext, hbyte, Nat.pow_succ', Nat.div_div_eq_div_mul]
    have hpow : 256 ^ (n + 1) = 256 * 256 ^ n := Nat.pow_succ'
    rw [Memory.read, hhead, htail, BitVec.toNat_ofNat, hpow]
    exact Nat.mod_mul.symm

theorem memory_read_write (m : Memory) (p : Word) {n : ℕ} (hn : n ≤ 8) (v : ℕ) :
    (m.write p n v).read p n = v % 256 ^ n := by
  apply memory_read_bytes hn
  intro k hk
  have hoffset : (p + BitVec.ofNat 64 k - p).toNat = k := by
    rw [BitVec.add_comm, BitVec.add_sub_cancel, BitVec.toNat_ofNat, Nat.mod_eq_of_lt (by omega)]
  rw [memory_write_inside (by rwa [hoffset]), hoffset]

/-! ## Opcodes -/

/-- The store of a scalar. -/
def storeOp (type : TypeDesc) : Opcode :=
  if type.isReference then .StorePointer
  else if type.floatRegister then .StoreFloat
  else if type.loadSize = 1 then .StoreI8
  else if type.loadSize = 2 then .StoreI16
  else if type.loadSize = 4 then .StoreI32
  else .StoreI64

/-- The load of a scalar. -/
def loadOp (type : TypeDesc) : Opcode :=
  if type.isReference then .LoadPointer
  else if type.floatRegister then .LoadFloat
  else if type.loadSize = 1 then (if type.loadSigned then .LoadI8 else .LoadU8)
  else if type.loadSize = 2 then (if type.loadSigned then .LoadI16 else .LoadU16)
  else if type.loadSize = 4 then (if type.loadSigned then .LoadI32 else .LoadU32)
  else (if type.loadSigned then .LoadI64 else .LoadU64)

theorem value_of_not_reference (h : ¬ type.isReference = true) : type.typeClass = .value := by
  have hnull := type.notNull
  cases hclass : type.typeClass with
  | null => exact absurd hclass hnull
  | value => rfl
  | reference => exact absurd (by rw [TypeDesc.isReference, hclass]; rfl) h

theorem loadSize_cases (h : ¬ type.isReference = true) (hfloat : ¬ type.floatRegister = true) :
    (type.loadSize = 1 ∨ type.loadSize = 2 ∨ type.loadSize = 4 ∨ type.loadSize = 8) ∧
      type.sizeInMemory = type.loadSize := by
  have hwhole := type.whole (value_of_not_reference h)
  rw [if_neg hfloat] at hwhole
  simpa using hwhole

theorem storeOpFor_eq (h : ¬ type.isReference = true) (fn : FunctionNode) :
    storeOpFor type.toTypeDesc fn = .ok (storeOp type.toTypeDesc, fn) := by
  unfold storeOpFor storeOp
  rw [if_neg h]
  by_cases hfloat : type.floatRegister = true
  · rw [if_pos hfloat, if_pos hfloat]
    rfl
  · rw [if_neg hfloat, if_neg hfloat]
    rcases (loadSize_cases h hfloat).1 with hsize | hsize | hsize | hsize <;>
      simp only [hsize] <;> rfl

theorem setStoreOpcode_eq (fn : FunctionNode) :
    setStoreOpcode type.toTypeDesc fn = .ok (storeOp type.toTypeDesc, fn) := by
  unfold setStoreOpcode
  by_cases h : type.isReference = true
  · rw [if_pos h, storeOp, if_pos h]
    rfl
  · rw [if_neg h, storeOpFor_eq h]

theorem loadOpcode_eq (h : ¬ type.isReference = true) (fn : FunctionNode) :
    loadOpcode type.toTypeDesc fn = .ok (loadOp type.toTypeDesc, fn) := by
  unfold loadOpcode loadOp
  rw [if_neg h]
  by_cases hfloat : type.floatRegister = true
  · rw [if_pos hfloat, if_pos hfloat]
    rfl
  · rw [if_neg hfloat, if_neg hfloat]
    rcases (loadSize_cases h hfloat).1 with hsize | hsize | hsize | hsize <;>
      simp only [hsize] <;> rfl

theorem instruction_store {a : Access} (h : StoresScalar type a) (address other : ℕ)
    (fn : FunctionNode) : a.instruction address other fn =
      .ok (some ⟨storeOp type.toTypeDesc, address, other, 0⟩, fn) := by
  have hset := (instruction_ok address other
    (.inl ⟨storeOp type.toTypeDesc, fun _ => setStoreOpcode_eq _⟩) (setStoreOpcode_eq fn)).2
  cases h with
  | setField offset isInline => exact hset
  | setElement index => exact hset
  | initField offset scalar =>
    have hvalue : ¬ type.isReference = true := by simp [scalar]
    exact (instruction_ok address other (.inl ⟨_, storeOpFor_eq hvalue⟩)
      (storeOpFor_eq hvalue fn)).2
  | initElement offset scalar =>
    have hvalue : ¬ type.isReference = true := by simp [scalar]
    exact (instruction_ok address other (.inl ⟨_, storeOpFor_eq hvalue⟩)
      (storeOpFor_eq hvalue fn)).2

theorem instruction_load {a : Access} (h : LoadsScalar type a) (address other : ℕ)
    (fn : FunctionNode) : a.instruction address other fn =
      .ok (some ⟨loadOp type.toTypeDesc, other, address, 0⟩, fn) := by
  cases h with
  | field offset isInline loaded =>
    by_cases href : type.isReference = true
    · have hclass : type.typeClass = .reference := by simpa [TypeDesc.isReference] using href
      rw [Access.instruction, hclass, loaded href, loadOp, if_pos href]
      rfl
    · rw [Access.instruction, value_of_not_reference href]
      exact (instruction_ok other address (.inl ⟨_, loadOpcode_eq href⟩) (loadOpcode_eq href fn)).2
  | element index scalar =>
    have href : ¬ type.isReference = true := by simp [scalar]
    rw [Access.instruction, if_neg href]
    exact (instruction_ok other address (.inl ⟨_, loadOpcode_eq href⟩) (loadOpcode_eq href fn)).2

/-! ## Encoding and decoding -/

/-- The number that a store makes of a value. -/
def encoded (fpu : FloatUnit) (type : TypeDesc) (v : Variant) : Except VmErrorKind ℕ :=
  if type.isReference then do return (← v.getPtr).toNat
  else if type.floatRegister then do return (← v.toFloat fpu).toNat
  else if type.loadSize = 4 then do return (← v.toInt fpu).toNat
  else do return (← v.getI64).toNat

/-- The value that a load makes of a number. -/
def decoded (fpu : FloatUnit) (type : TypeDesc) (n : ℕ) : Variant :=
  if type.isReference then .pointer (BitVec.ofNat 64 n)
  else if type.floatRegister then .ofF32 fpu (BitVec.ofNat 32 n)
  else if type.loadSize = 4 then signed 32 n
  else if type.loadSigned then signed (8 * type.loadSize) n
  else unsigned n

theorem signed_full : signed 64 = unsigned := by
  funext n
  rw [signed, unsigned, BitVec.signExtend_eq]

theorem bytes_cases (type : ScalarType) : type.bytes ≤ 8 ∧
    (type.isReference = true → type.bytes = 8) ∧
    (¬ type.isReference = true → type.floatRegister = true → type.bytes = 4) ∧
    (¬ type.isReference = true → ¬ type.floatRegister = true → type.bytes = type.loadSize) := by
  unfold ScalarType.bytes
  by_cases href : type.isReference = true
  · simp [href]
  · rw [if_neg href]
    have hwhole := type.whole (value_of_not_reference href)
    by_cases hfloat : type.floatRegister = true
    · rw [if_pos hfloat] at hwhole
      simp [href, hfloat, hwhole]
    · obtain ⟨hsize, hmemory⟩ := loadSize_cases href hfloat
      simp only [href, hfloat, hmemory, false_implies, not_false_eq_true, true_implies,
        Bool.false_eq_true, and_true]
      omega

theorem exec_storeOp (m : Memory) (f : StackFrame) (a b : ℕ) :
    exec rt m f ⟨storeOp type.toTypeDesc, a, b, 0⟩ =
      execStore m f ⟨storeOp type.toTypeDesc, a, b, 0⟩ type.bytes
        (encoded rt.fpu type.toTypeDesc) := by
  obtain ⟨-, hbytes, hbytes', hbytes''⟩ := bytes_cases type
  by_cases href : type.isReference = true
  · have henc : encoded rt.fpu type.toTypeDesc = fun v => do return (← v.getPtr).toNat :=
      funext fun v => by rw [encoded, if_pos href]
    rw [hbytes href, henc, storeOp, if_pos href]
    rfl
  · by_cases hfloat : type.floatRegister = true
    · have henc : encoded rt.fpu type.toTypeDesc = fun v => do return (← v.toFloat rt.fpu).toNat :=
        funext fun v => by rw [encoded, if_neg href, if_pos hfloat]
      rw [hbytes' href hfloat, henc, storeOp, if_neg href, if_pos hfloat]
      rfl
    · rw [hbytes'' href hfloat]
      have henc : encoded rt.fpu type.toTypeDesc = fun v =>
          if type.loadSize = 4 then do return (← v.toInt rt.fpu).toNat
          else do return (← v.getI64).toNat :=
        funext fun v => by rw [encoded, if_neg href, if_neg hfloat]
      rw [henc, storeOp, if_neg href, if_neg hfloat]
      rcases (loadSize_cases href hfloat).1 with hsize | hsize | hsize | hsize <;>
        simp only [hsize] <;> rfl

theorem exec_loadOp (m : Memory) (f : StackFrame) (a b : ℕ) :
    exec rt m f ⟨loadOp type.toTypeDesc, a, b, 0⟩ =
      execLoad m f ⟨loadOp type.toTypeDesc, a, b, 0⟩ type.bytes
        (decoded rt.fpu type.toTypeDesc) := by
  obtain ⟨-, hbytes, hbytes', hbytes''⟩ := bytes_cases type
  by_cases href : type.isReference = true
  · have hdec : decoded rt.fpu type.toTypeDesc = fun n => .pointer (BitVec.ofNat 64 n) :=
      funext fun n => by rw [decoded, if_pos href]
    rw [hbytes href, hdec, loadOp, if_pos href]
    rfl
  · by_cases hfloat : type.floatRegister = true
    · have hdec : decoded rt.fpu type.toTypeDesc = fun n => .ofF32 rt.fpu (BitVec.ofNat 32 n) :=
        funext fun n => by rw [decoded, if_neg href, if_pos hfloat]
      rw [hbytes' href hfloat, hdec, loadOp, if_neg href, if_pos hfloat]
      rfl
    · rw [hbytes'' href hfloat]
      have hdec : decoded rt.fpu type.toTypeDesc =
          if type.loadSize = 4 then signed 32
          else if type.loadSigned then signed (8 * type.loadSize) else unsigned :=
        funext fun n => by
          rw [decoded, if_neg href, if_neg hfloat]
          split
          · rfl
          · split <;> rfl
      rw [hdec, loadOp, if_neg href, if_neg hfloat]
      rcases (loadSize_cases href hfloat).1 with hsize | hsize | hsize | hsize <;>
        simp only [hsize, Nat.reduceMul, signed_full] <;> cases type.loadSigned <;> rfl

/-! ## The two steps -/

section Steps

variable {r : AccessRegisters} {p : Word} {i j : Instruction}

theorem step_stored (h : Stored s i j r p v) : (virtualMachine rt).step s =
    settle rt { s with frame := s.frame.advance } (exec rt s.memory s.frame.advance i) := by
  rw [executes_step h.code,
    if_pos (Nat.lt_of_succ_lt h.inside : s.frame.pc < 1024)]

theorem step_store_scalar (h : Stored s ⟨storeOp type.toTypeDesc, r.address, r.value, 0⟩ j r p v) :
    (virtualMachine rt).step s = match encoded rt.fpu type.toTypeDesc v with
      | .ok n => .inl ⟨s.frame.advance, s.parents, s.memory.write p type.bytes n⟩
      | .error e => .inr (.failed e) := by
  rw [step_stored h, exec_storeOp, execStore]
  simp only [StackFrame.getRegister_of_lt _ r.address_lt, StackFrame.getRegister_of_lt _ r.value_lt,
    StackFrame.advance_registers, h.address, h.value, checkedGetPtr_pointer h.notNull, bind,
    Except.bind]
  cases encoded rt.fpu type.toTypeDesc v <;> rfl

theorem step_load_scalar
    (h : Stored s i ⟨loadOp type.toTypeDesc, r.dst, r.address', 0⟩ r p v) (m : Memory) :
    (virtualMachine rt).step ⟨s.frame.advance, s.parents, m⟩ =
      .inl (after ⟨s.frame.advance, s.parents, m⟩ r.dst
        (decoded rt.fpu type.toTypeDesc (m.read p type.bytes))) := by
  have hnext : Executes ⟨s.frame.advance, s.parents, m⟩
      [⟨loadOp type.toTypeDesc, r.dst, r.address', 0⟩] [] :=
    executes_after (i := i) h.code 0 .null
  have hpc : (⟨s.frame.advance, s.parents, m⟩ : VmState).frame.pc < 1024 := h.inside
  rw [executes_step hnext, if_pos hpc, exec_loadOp, execLoad]
  simp only [StackFrame.getRegister_of_lt _ r.address'_lt, StackFrame.getRegister_of_lt _ r.dst_lt,
    StackFrame.advance_registers, h.address', checkedGetPtr_pointer h.notNull, bind, Except.bind]
  rfl

end Steps

/-- A state about to store a value at address 1, and to load it from there. -/
def storing (i j : Instruction) (v : Variant) : VmState :=
  ⟨⟨some ⟨[i, j], []⟩, 0, 0, 0, fun k => if k = 1 then v else .pointer 1⟩, [], fun _ => 0⟩

/-- Its registers. -/
def storingRegisters : AccessRegisters where
  address := 0
  value := 1
  address' := 2
  dst := 3
  address_lt := by decide
  value_lt := by decide
  address'_lt := by decide
  dst_lt := by decide

theorem storing_stored (i j : Instruction) (v : Variant) :
    Stored (storing i j v) i j storingRegisters 1 v where
  code := ⟨⟨[i, j], []⟩, rfl, List.prefix_rfl, List.prefix_rfl⟩
  inside := by simp [storing, StackFrame.codeSize]
  address := rfl
  address' := rfl
  notNull := by simp
  value := rfl

theorem roundTrips_iff_decoded {store load : Access} (hstore : StoresScalar type store)
    (hload : LoadsScalar type load) : RoundTrips rt type store load v ↔
      ∃ n, encoded rt.fpu type.toTypeDesc v = .ok n ∧
        decoded rt.fpu type.toTypeDesc (n % 256 ^ type.bytes) = v := by
  have hbytes := (bytes_cases type).1
  constructor
  · intro h
    obtain ⟨i, j, hi, hj, hrun⟩ := h storingRegisters
    have hi' := (instruction_store hstore _ _ (.new none)).symm.trans (hi _)
    have hj' := (instruction_load hload _ _ (.new none)).symm.trans (hj _)
    simp only [Except.ok.injEq, Prod.mk.injEq, Option.some.injEq, and_true] at hi' hj'
    subst hi' hj'
    have hs := storing_stored
      ⟨storeOp type.toTypeDesc, storingRegisters.address, storingRegisters.value, 0⟩
      ⟨loadOp type.toTypeDesc, storingRegisters.dst, storingRegisters.address', 0⟩ v
    obtain ⟨t, hreaches, hdst, -⟩ := hrun _ _ hs
    obtain ⟨u, hfirst, hsecond⟩ := Machine.reaches_succ_iff.mp hreaches
    rw [step_store_scalar hs] at hfirst
    cases henc : encoded rt.fpu type.toTypeDesc v with
    | error e => simp [henc] at hfirst
    | ok n =>
      rw [henc, Sum.inl.injEq] at hfirst
      subst hfirst
      have hload := (step_load_scalar hs _).symm.trans (reaches_one.mp hsecond)
      rw [Sum.inl.injEq] at hload
      subst hload
      refine ⟨n, rfl, ?_⟩
      rwa [registers_after, Function.update_self, memory_read_write _ _ hbytes] at hdst
  · rintro ⟨n, henc, hdec⟩ r
    refine ⟨_, _, instruction_store hstore _ _, instruction_load hload _ _, ?_⟩
    intro s p hs
    have hfirst : (virtualMachine rt).step s = _ := step_store_scalar hs
    rw [henc] at hfirst
    refine ⟨_, .head hfirst (reaches_one.mpr (step_load_scalar hs _)), ?_, ?_⟩
    · rw [registers_after, Function.update_self, memory_read_write _ _ hbytes, hdec]
    · intro q hq
      by_contra hout
      exact hq (memory_write_other hout)

/-! ## What decodes to what was encoded -/

theorem signed_of_range {size : ℕ} (hsize : size = 1 ∨ size = 2 ∨ size = 4 ∨ size = 8) {w : I64}
    (hlow : -(2 ^ (8 * size - 1) : ℤ) ≤ w.toInt) (hhigh : w.toInt < 2 ^ (8 * size - 1)) :
    signed (8 * size) (w.toNat % 256 ^ size) = .int w := by
  have hle : 8 * size ≤ 64 := by omega
  unfold signed
  congr 1
  apply BitVec.eq_of_toInt_eq
  rw [BitVec.toInt_signExtend_of_le hle, BitVec.toInt_ofNat']
  rw [BitVec.toInt_eq_toNat_bmod] at hlow hhigh ⊢
  have hw := w.isLt
  rcases hsize with rfl | rfl | rfl | rfl <;> simp only [Int.bmod_def] at * <;> omega

theorem unsigned_of_fits {size : ℕ} {w : I64} (h : w.toNat < 2 ^ (8 * size)) :
    unsigned (w.toNat % 256 ^ size) = .int w := by
  have hpow : 2 ^ (8 * size) = 256 ^ size := by rw [Nat.pow_mul]
  rw [unsigned, Nat.mod_eq_of_lt (hpow ▸ h), BitVec.ofNat_toNat, BitVec.setWidth_eq]

theorem signed_four_iff {w : I64} (h : w.toNat < 2 ^ 32) :
    signed 32 (w.toNat % 256 ^ 4) = .int w ↔ w.toNat < 2 ^ 31 := by
  have hle : 32 ≤ 64 := by omega
  unfold signed
  rw [Variant.int.injEq, ← BitVec.toInt_inj, BitVec.toInt_signExtend_of_le hle,
    BitVec.toInt_ofNat', BitVec.toInt_eq_toNat_bmod]
  simp only [Int.bmod_def]
  omega

section Decoding

variable {fpu : FloatUnit}

/-- What a value becomes in memory is the value. -/
def Decodes (fpu : FloatUnit) (type : ScalarType) (v : Variant) : Prop :=
  ∃ n, encoded fpu type.toTypeDesc v = .ok n ∧
    decoded fpu type.toTypeDesc (n % 256 ^ type.bytes) = v

theorem decodes_reference (href : type.isReference = true) (p : Word) :
    Decodes fpu type (.pointer p) := by
  have hp := p.isLt
  refine ⟨p.toNat, by rw [encoded, if_pos href]; rfl, ?_⟩
  rw [decoded, if_pos href, (bytes_cases type).2.1 href, Nat.mod_eq_of_lt (by omega),
    BitVec.ofNat_toNat, BitVec.setWidth_eq]

theorem decodes_float (hfpu : ∀ x, fpu.widen (fpu.narrow (fpu.widen x)) = fpu.widen x)
    (href : ¬ type.isReference = true) (hfloat : type.floatRegister = true) (x : BitVec 32) :
    Decodes fpu type (.ofF32 fpu x) := by
  have hx := (fpu.narrow (fpu.widen x)).isLt
  refine ⟨(fpu.narrow (fpu.widen x)).toNat, by rw [encoded, if_neg href, if_pos hfloat]; rfl, ?_⟩
  rw [decoded, if_neg href, if_pos hfloat, (bytes_cases type).2.2.1 href hfloat,
    Nat.mod_eq_of_lt (by omega), BitVec.ofNat_toNat, BitVec.setWidth_eq, Variant.ofF32, hfpu]
  rfl

theorem not_decodes_pointer (href : ¬ type.isReference = true) (p : Word) :
    ¬ Decodes fpu type (.pointer p) := by
  rintro ⟨n, henc, hdec⟩
  rw [encoded, if_neg href] at henc
  rw [decoded, if_neg href] at hdec
  by_cases hfloat : type.floatRegister = true
  · rw [if_pos hfloat] at henc
    cases henc
  · rw [if_neg hfloat] at henc hdec
    by_cases hfour : type.loadSize = 4
    · rw [if_pos hfour] at hdec
      cases hdec
    · rw [if_neg hfour] at henc
      cases henc

theorem decodes_int_iff (href : ¬ type.isReference = true) (hfloat : ¬ type.floatRegister = true)
    (w : I64) : Decodes fpu type (.int w) ↔
      (if type.loadSize = 4 then signed 32
        else if type.loadSigned then signed (8 * type.loadSize) else unsigned)
          (w.toNat % 256 ^ type.loadSize) = .int w := by
  have henc : encoded fpu type.toTypeDesc (.int w) = .ok w.toNat := by
    rw [encoded, if_neg href, if_neg hfloat]
    split <;> rfl
  have hdec : decoded fpu type.toTypeDesc = if type.loadSize = 4 then signed 32
      else if type.loadSigned then signed (8 * type.loadSize) else unsigned := by
    funext n
    rw [decoded, if_neg href, if_neg hfloat]
    split
    · rfl
    · split <;> rfl
  unfold Decodes
  rw [henc, hdec, (bytes_cases type).2.2.2 href hfloat]
  simp only [Except.ok.injEq, exists_eq_left']

theorem decodes_int (href : ¬ type.isReference = true) (hfloat : ¬ type.floatRegister = true)
    {w : I64} (hw : if type.loadSigned then
      -(2 ^ (8 * type.loadSize - 1) : ℤ) ≤ w.toInt ∧ w.toInt < 2 ^ (8 * type.loadSize - 1)
      else w.toNat < 2 ^ (8 * type.loadSize)) : Decodes fpu type (.int w) ↔
      (type.loadSigned = false → type.loadSize = 4 → w.toNat < 2 ^ 31) := by
  rw [decodes_int_iff href hfloat]
  have hsize := (loadSize_cases href hfloat).1
  cases hsigned : type.loadSigned with
  | true =>
    rw [hsigned, if_pos rfl] at hw
    have hdec := signed_of_range hsize hw.1 hw.2
    by_cases hfour : type.loadSize = 4
    · rw [hfour] at hdec ⊢
      simpa using hdec
    · simpa [hfour] using hdec
  | false =>
    simp only [hsigned, Bool.false_eq_true, if_false] at hw
    by_cases hfour : type.loadSize = 4
    · rw [hfour] at hw ⊢
      simpa using signed_four_iff hw
    · simpa [hfour] using unsigned_of_fits hw

end Decoding

/-- INTERNAL: A value of a scalar type that is stored comes back, and nothing else changes, exactly
if the type is not the value type `pointer` and the value, if it is unsigned and has four bytes, has
its high bit clear. -/
theorem roundTrips_scalar_iff (rt : Runtime)
    (hfpu : ∀ x, rt.fpu.widen (rt.fpu.narrow (rt.fpu.widen x)) = rt.fpu.widen x)
    (type : ScalarType) (store load : Access) (hstore : StoresScalar type store)
    (hload : LoadsScalar type load) (v : Variant) (hv : type.InRange rt.fpu v) :
    RoundTrips rt type store load v ↔ SurvivesMemory type v := by
  refine (roundTrips_iff_decoded hstore hload).trans (?_ : Decodes rt.fpu type v ↔ _)
  unfold SurvivesMemory
  unfold ScalarType.InRange at hv
  by_cases hpointers : type.holdsPointers
  · rw [if_pos hpointers] at hv
    obtain ⟨p, rfl⟩ := hv
    by_cases href : type.isReference = true
    · simp [href, decodes_reference]
    · have hname := hpointers.resolve_left href
      simp [href, hname, not_decodes_pointer href]
  · rw [if_neg hpointers] at hv
    obtain ⟨href, hname⟩ := not_or.mp hpointers
    by_cases hfloat : type.floatRegister = true
    · rw [if_pos hfloat] at hv
      obtain ⟨x, rfl⟩ := hv
      have hdec := decodes_float hfpu href hfloat x
      simpa [hname, Variant.ofF32] using hdec
    · rw [if_neg hfloat] at hv
      obtain ⟨w, rfl, hw⟩ := hv
      simp [hname, decodes_int href hfloat hw]

/-- An integer type that is loaded as it is stored. -/
def integerType (name : String) (size : ℕ) (isSigned : Bool) (h : size ∈ [1, 2, 4, 8]) :
    ScalarType where
  name := name
  typeClass := .value
  floatRegister := false
  loadSize := size
  loadSigned := isSigned
  sizeInMemory := size
  alignment := size
  size_lt := by
    simp only [List.mem_cons, List.not_mem_nil, or_false] at h
    omega
  notNull := by simp
  whole := fun _ => by simpa using h

/-- The built-in `int16`. -/
def int16 : ScalarType := integerType "int16" 2 true (by decide)

/-- The built-in `uint32`. -/
def uint32 : ScalarType := integerType "uint32" 4 false (by decide)

/-- A negative integer of two bytes comes back from a field. -/
theorem roundTrips_int16 : RoundTrips bareRuntime int16 (.setField 8 int16.toSizedType false)
    (.field 8 int16.toSizedType false) (.int (-2)) := by
  have hrange : int16.InRange bareRuntime.fpu (.int (-2)) := ⟨-2, rfl, by decide⟩
  apply (roundTrips_scalar_iff bareRuntime (fun x => by simp [bareRuntime]) int16 _ _
    (.setField 8 false) (.field 8 false (by decide)) (.int (-2)) hrange).mpr
  exact ⟨by decide, fun w _ hsigned => absurd hsigned (by decide)⟩

/-- An unsigned integer of four bytes with the high bit set does not. -/
theorem not_roundTrips_scalar : ¬ ∀ (rt : Runtime),
    (∀ x, rt.fpu.widen (rt.fpu.narrow (rt.fpu.widen x)) = rt.fpu.widen x) →
    ∀ (type : ScalarType) (store load : Access), StoresScalar type store → LoadsScalar type load →
      ∀ v, type.InRange rt.fpu v → RoundTrips rt type store load v := by
  intro h
  have hrange : uint32.InRange bareRuntime.fpu (.int 0x80000000) := ⟨0x80000000, rfl, by decide⟩
  have hstore : StoresScalar uint32 (.setField 8 uint32.toSizedType false) := .setField 8 false
  have hload : LoadsScalar uint32 (.field 8 uint32.toSizedType false) :=
    .field 8 false (by decide)
  have hlost := (roundTrips_iff_decoded hstore hload).mp
    (h bareRuntime (fun x => by simp [bareRuntime]) uint32 _ _ hstore hload _ hrange)
  have hclear := (decodes_int (by decide) (by decide) (by decide)).mp hlost rfl rfl
  exact absurd hclear (by decide)

end Soot.Analysis
