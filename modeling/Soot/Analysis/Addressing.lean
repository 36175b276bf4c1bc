import Soot.Model.Addressing
import Soot.Analysis.EmitInversion

/-!
# When a field or element access is faithful

The code for an address is one to three instructions; what each does is an equation between the
step and the registers, so that a run of the code is known exactly. An offset in an immediate
is cut to a byte by `->` and by the field initialisers of `new`, and a constant is loaded by the low
byte of its index. What the last instruction touches is as many bytes as its opcode says.
-/

set_option autoImplicit false

namespace Soot.Analysis

open Soot.Program Soot.Computation Soot.Model

variable {i : Instruction} {n : I64} {p : Word}

variable {rt : Runtime} {s t : VmState} {code : List Instruction} {constants : List Word}

/-! ## Single steps -/

/-- The state after an instruction that writes a register. -/
def after (s : VmState) (a : ℕ) (v : Variant) : VmState :=
  ⟨s.frame.advance.put a v, s.parents, s.memory⟩

theorem registers_after (s : VmState) (a : ℕ) (v : Variant) :
    (after s a v).frame.registers = Function.update s.frame.registers a v := rfl

theorem executes_after (h : Executes s (i :: code) constants) (a : ℕ)
    (v : Variant) : Executes (after s a v) code constants := by
  obtain ⟨l, hl, hcode, hconstants⟩ := h
  refine ⟨l, hl, ?_, hconstants⟩
  obtain ⟨rest, hrest⟩ := hcode
  refine ⟨rest, ?_⟩
  change code ++ rest = l.code.drop (s.frame.pc + 1)
  rw [← List.drop_drop, ← hrest]
  rfl

theorem executes_step (h : Executes s (i :: code) constants) :
    (virtualMachine rt).step s = if s.frame.pc < 1024 then
      settle rt { s with frame := s.frame.advance } (exec rt s.memory s.frame.advance i)
    else .inr .escaped := by
  obtain ⟨l, hl, ⟨rest, hrest⟩, -⟩ := h
  have hfetch : l.code[s.frame.pc]? = some i := by
    rw [← List.head?_drop, ← hrest]
    rfl
  change vmStep rt s = _
  unfold vmStep
  rw [hl]
  simp only [StackFrame.codeSize, hfetch]

theorem executes_writes {a : ℕ} {v : Variant} {P : Prop}
    (h : Executes s (i :: code) constants)
    (hexec : P → exec rt s.memory s.frame.advance i =
      .ok (.continue (s.frame.advance.put a v) s.memory))
    (hfail : ¬P → ∃ e, exec rt s.memory s.frame.advance i = .error e) :
    (virtualMachine rt).step s = .inl t ↔ (s.frame.pc < 1024 ∧ P) ∧ t = after s a v := by
  rw [executes_step h]
  by_cases hpc : s.frame.pc < 1024
  · by_cases hP : P
    · rw [if_pos hpc, hexec hP]
      simp only [hpc, hP, true_and]
      constructor
      · intro ht
        cases ht
        rfl
      · rintro rfl
        rfl
    · obtain ⟨e, he⟩ := hfail hP
      rw [if_pos hpc, he]
      simp [hP, settle]
  · simp [hpc]

theorem getRegister_of_not_lt (f : StackFrame) {i : ℕ} (h : ¬i < MAX_REGISTERS) :
    f.getRegister i = .error .NativeError := if_neg h

section Instructions

variable {a b c : ℕ}

theorem step_iAddImm (h : Executes s (⟨.IAddImm, a, b, c⟩ :: code) constants)
    (hb : s.frame.registers b = .pointer p) :
    (virtualMachine rt).step s = .inl t ↔
      (s.frame.pc < 1024 ∧ a < MAX_REGISTERS ∧ b < MAX_REGISTERS) ∧
        t = after s a (.pointer (p + BitVec.ofNat 64 c)) := by
  apply executes_writes h
  · rintro ⟨ha, hlt⟩
    simp [exec, execOffsetImm, StackFrame.getRegister_of_lt _ ha,
      StackFrame.getRegister_of_lt _ hlt, hb, bind, Except.bind, pure, Except.pure]
  · intro hnot
    by_cases ha : a < MAX_REGISTERS
    · have hlt : ¬b < MAX_REGISTERS := fun hlt => hnot ⟨ha, hlt⟩
      simp [exec, execOffsetImm, StackFrame.getRegister_of_lt _ ha, getRegister_of_not_lt _ hlt,
        bind, Except.bind]
    · simp [exec, execOffsetImm, getRegister_of_not_lt _ ha, bind, Except.bind]

theorem step_iAdd (h : Executes s (⟨.IAdd, a, b, c⟩ :: code) constants)
    (hb : s.frame.registers b = .pointer p) (hc : s.frame.registers c = .int n) :
    (virtualMachine rt).step s = .inl t ↔
      (s.frame.pc < 1024 ∧ a < MAX_REGISTERS ∧ b < MAX_REGISTERS ∧ c < MAX_REGISTERS) ∧
        t = after s a (.pointer (p + n)) := by
  apply executes_writes h
  · rintro ⟨ha, hb', hc'⟩
    simp [exec, execIAdd, StackFrame.getRegister_of_lt _ ha, StackFrame.getRegister_of_lt _ hb',
      StackFrame.getRegister_of_lt _ hc', hb, hc, bind, Except.bind, pure, Except.pure]
  · intro hnot
    by_cases ha : a < MAX_REGISTERS
    · by_cases hb' : b < MAX_REGISTERS
      · have hc' : ¬c < MAX_REGISTERS := fun hc' => hnot ⟨ha, hb', hc'⟩
        simp [exec, execIAdd, StackFrame.getRegister_of_lt _ ha,
          StackFrame.getRegister_of_lt _ hb', getRegister_of_not_lt _ hc', bind, Except.bind]
      · simp [exec, execIAdd, StackFrame.getRegister_of_lt _ ha, getRegister_of_not_lt _ hb', bind,
          Except.bind]
    · simp [exec, execIAdd, getRegister_of_not_lt _ ha, bind, Except.bind]

theorem iAdd_registers (h : Executes s (⟨.IAdd, a, b, c⟩ :: code) constants)
    (hstep : (virtualMachine rt).step s = .inl t) :
    a < MAX_REGISTERS ∧ b < MAX_REGISTERS ∧ c < MAX_REGISTERS := by
  rw [executes_step h] at hstep
  split at hstep
  · by_contra hnot
    have herror : exec rt s.memory s.frame.advance ⟨.IAdd, a, b, c⟩ = .error .NativeError := by
      by_cases ha : a < MAX_REGISTERS
      · by_cases hb : b < MAX_REGISTERS
        · have hc : ¬c < MAX_REGISTERS := fun hc => hnot ⟨ha, hb, hc⟩
          simp [exec, execIAdd, StackFrame.getRegister_of_lt _ ha,
            StackFrame.getRegister_of_lt _ hb, getRegister_of_not_lt _ hc, bind, Except.bind]
        · simp [exec, execIAdd, StackFrame.getRegister_of_lt _ ha, getRegister_of_not_lt _ hb, bind,
            Except.bind]
      · simp [exec, execIAdd, getRegister_of_not_lt _ ha, bind, Except.bind]
    rw [herror] at hstep
    cases hstep
  · cases hstep

theorem step_iAdd_ints {m n : I64} (h : Executes s (⟨.IAdd, a, b, c⟩ :: code) constants)
    (hb : s.frame.registers b = .int m) (hc : s.frame.registers c = .int n)
    (hpc : s.frame.pc < 1024) (ha : a < MAX_REGISTERS) (hb' : b < MAX_REGISTERS)
    (hc' : c < MAX_REGISTERS) :
    (virtualMachine rt).step s = .inl (after s a (.int (m + n))) := by
  rw [executes_step h, if_pos hpc]
  simp [exec, execIAdd, StackFrame.getRegister_of_lt _ ha, StackFrame.getRegister_of_lt _ hb',
    StackFrame.getRegister_of_lt _ hc', hb, hc, bind, Except.bind, pure, Except.pure, settle, after,
    Variant.toInt]

theorem step_iMulImm (h : Executes s (⟨.IMulImm, a, b, c⟩ :: code) constants)
    (hb : s.frame.registers b = .int n) :
    (virtualMachine rt).step s = .inl t ↔
      (s.frame.pc < 1024 ∧ a < MAX_REGISTERS ∧ b < MAX_REGISTERS) ∧
        t = after s a (.int (n * BitVec.ofNat 64 c)) := by
  apply executes_writes h
  · rintro ⟨ha, hb'⟩
    simp [exec, execUnaryInt, StackFrame.getRegister_of_lt _ ha, StackFrame.getRegister_of_lt _ hb',
      hb, bind, Except.bind, pure, Except.pure, Variant.toInt]
  · intro hnot
    by_cases ha : a < MAX_REGISTERS
    · have hb' : ¬b < MAX_REGISTERS := fun hb' => hnot ⟨ha, hb'⟩
      simp [exec, execUnaryInt, StackFrame.getRegister_of_lt _ ha, getRegister_of_not_lt _ hb',
        bind, Except.bind]
    · simp [exec, execUnaryInt, getRegister_of_not_lt _ ha, bind, Except.bind]

theorem step_iMul {m n : I64} (h : Executes s (⟨.IMul, a, b, c⟩ :: code) constants)
    (hb : s.frame.registers b = .int m) (hc : s.frame.registers c = .int n) :
    (virtualMachine rt).step s = .inl t ↔
      (s.frame.pc < 1024 ∧ a < MAX_REGISTERS ∧ b < MAX_REGISTERS ∧ c < MAX_REGISTERS) ∧
        t = after s a (.int (m * n)) := by
  apply executes_writes h
  · rintro ⟨ha, hb', hc'⟩
    simp [exec, execBinaryInt, StackFrame.getRegister_of_lt _ ha,
      StackFrame.getRegister_of_lt _ hb', StackFrame.getRegister_of_lt _ hc', hb, hc, bind,
      Except.bind, pure, Except.pure, Variant.toInt]
  · intro hnot
    by_cases ha : a < MAX_REGISTERS
    · by_cases hb' : b < MAX_REGISTERS
      · have hc' : ¬c < MAX_REGISTERS := fun hc' => hnot ⟨ha, hb', hc'⟩
        simp [exec, execBinaryInt, StackFrame.getRegister_of_lt _ ha,
          StackFrame.getRegister_of_lt _ hb', getRegister_of_not_lt _ hc', bind, Except.bind]
      · simp [exec, execBinaryInt, StackFrame.getRegister_of_lt _ ha,
          getRegister_of_not_lt _ hb', bind, Except.bind]
    · simp [exec, execBinaryInt, getRegister_of_not_lt _ ha, bind, Except.bind]

theorem step_loadStatic {v : Word} (h : Executes s (⟨.LoadStaticI64Imm, a, b, c⟩ :: code) constants)
    (hv : constants[b]? = some v) :
    (virtualMachine rt).step s = .inl t ↔
      (s.frame.pc < 1024 ∧ a < MAX_REGISTERS) ∧ t = after s a (.int v) := by
  have hsymbol : s.frame.advance.symbol b = some v := by
    obtain ⟨l, hl, -, rest, hrest⟩ := h
    simp only [StackFrame.symbol, StackFrame.advance_lambda, hl, Option.bind_some, ← hrest]
    rw [List.getElem?_append_left (List.getElem?_eq_some_iff.mp hv).1]
    exact hv
  apply executes_writes h
  · intro ha
    simp [exec, execStatic, StackFrame.getRegister_of_lt _ ha, hsymbol, bind, Except.bind, pure,
      Except.pure]
  · intro ha
    simp [exec, execStatic, getRegister_of_not_lt _ ha, bind, Except.bind]

end Instructions

/-! ## Constants -/

section Constants

variable {fn : FunctionNode} {v : Word} {kind : ConstKind}

theorem getElem?_addConstant :
    (fn.addConstant v kind).2.constants[fn.constants.idxOf v]? = some v := by
  unfold FunctionNode.addConstant
  split
  · next h =>
    have hmem : v ∈ fn.constants := List.contains_iff_mem.mp h
    exact List.getElem?_idxOf hmem
  · next h =>
    have hmem : v ∉ fn.constants := fun hmem => h (List.contains_iff_mem.mpr hmem)
    rw [List.idxOf_eq_length hmem]
    exact List.getElem?_concat_length

theorem addConstant_index : (fn.addConstant v kind).1 = u16 (fn.constants.idxOf v) := by
  unfold FunctionNode.addConstant
  split
  · rfl
  · next h =>
    have hmem : v ∉ fn.constants := fun hmem => h (List.contains_iff_mem.mpr hmem)
    rw [List.idxOf_eq_length hmem]

theorem getElem?_lowByte (fn : FunctionNode) (v : Word) (kind : ConstKind) :
    ∃ v', (fn.addConstant v kind).2.constants[(fn.addConstant v kind).1 % 256]? = some v' ∧
      (v' = v ↔ LowConstant fn v) := by
  have hindex : (fn.addConstant v kind).1 % 256 = fn.constants.idxOf v % 256 := by
    rw [addConstant_index, u16]
    omega
  rw [hindex]
  by_cases hlow : LowConstant fn v
  · refine ⟨v, ?_, iff_of_true rfl hlow⟩
    rw [Nat.mod_eq_of_lt hlow]
    exact getElem?_addConstant
  · have hlt : fn.constants.idxOf v % 256 < fn.constants.idxOf v := by
      unfold LowConstant at hlow
      omega
    have hold : fn.constants.idxOf v % 256 < fn.constants.length :=
      Nat.lt_of_lt_of_le hlt List.idxOf_le_length
    refine ⟨fn.constants[fn.constants.idxOf v % 256], ?_, iff_of_false ?_ hlow⟩
    · unfold FunctionNode.addConstant
      split
      · exact List.getElem?_eq_getElem hold
      · rw [List.getElem?_append_left hold]
        exact List.getElem?_eq_getElem hold
    · intro heq
      have hbefore := List.not_of_lt_findIdx hlt
      rw [heq] at hbefore
      simp at hbefore

end Constants

/-! ## Code for an address -/

/-- Wherever some code runs through, with the base a pointer and the index an integer, a register
holds the pointer at the displacement. -/
def Reckons (code : List Instruction) (constants : List Word) (base index address : ℕ)
    (displacement : I64 → Word) : Prop :=
  ∀ (rt : Runtime) (s t : VmState) (p : Word) (n : I64), Executes s code constants →
    s.frame.registers base = .pointer p → s.frame.registers index = .int n →
    (virtualMachine rt).Reaches code.length s t →
    t.frame.registers address = .pointer (p + displacement n)

/-- A state in which some code starts, with the null pointer in the base. -/
def launch (code : List Instruction) (constants : List Word) (base index : ℕ) (n : I64) : VmState :=
  ⟨⟨some ⟨code, constants⟩, 0, 0, 0,
    Function.update (Function.update (fun _ => .null) base (.pointer 0)) index (.int n)⟩, [],
    fun _ => 0⟩

section Launch

variable {base index : ℕ} {n : I64}

theorem launch_executes : Executes (launch code constants base index n) code constants :=
  ⟨⟨code, constants⟩, rfl, List.prefix_rfl, List.prefix_rfl⟩

theorem launch_pc : (launch code constants base index n).frame.pc < 1024 := Nat.zero_lt_succ _

theorem launch_base (h : base ≠ index) :
    (launch code constants base index n).frame.registers base = .pointer 0 := by
  simp [launch, h]

theorem launch_index : (launch code constants base index n).frame.registers index = .int n := by
  simp [launch]

end Launch

theorem reaches_one {M : Machine VmState Halt} : M.Reaches 1 s t ↔ M.step s = .inl t := by
  rw [Machine.reaches_succ_iff]
  constructor
  · rintro ⟨u, hu, hut⟩
    cases hut
    exact hu
  · exact fun h => ⟨t, h, rfl⟩

section Kinds

variable {base index address offsetReg sizeReg c : ℕ}

theorem reckons_imm_iff {d : Word} :
    Reckons [⟨.IAddImm, address, base, c⟩] constants base index address (fun _ => d) ↔
      (base ≠ index → base < MAX_REGISTERS → address < MAX_REGISTERS → BitVec.ofNat 64 c = d) := by
  constructor
  · intro h hne hbase haddress
    have hstart : (launch [⟨.IAddImm, address, base, c⟩] constants base index
        0).frame.registers base = .pointer 0 := launch_base hne
    have hstep : (virtualMachine bareRuntime).step _ = .inl _ :=
      (step_iAddImm launch_executes hstart).mpr
      ⟨⟨launch_pc, haddress, hbase⟩, rfl⟩
    have hsum := h bareRuntime _ _ 0 0 launch_executes hstart launch_index (reaches_one.mpr hstep)
    simpa [registers_after] using hsum
  · intro h rt s t p n hexec hbase hindex hreaches
    have hne : base ≠ index := by
      rintro rfl
      rw [hbase] at hindex
      cases hindex
    obtain ⟨⟨-, haddress, hlt⟩, rfl⟩ := (step_iAddImm hexec hbase).mp (reaches_one.mp hreaches)
    rw [registers_after, Function.update_self, h hne hlt haddress]

theorem ne_of_operands (hbase : s.frame.registers base = .pointer p)
    (hindex : s.frame.registers index = .int n) : base ≠ index := by
  rintro rfl
  rw [hbase] at hindex
  cases hindex

theorem reckons_constant_iff {b : ℕ} {v d : Word} (hv : constants[b]? = some v) :
    Reckons [⟨.LoadStaticI64Imm, offsetReg, b, c⟩, ⟨.IAdd, address, base, offsetReg⟩] constants
        base index address (fun _ => d) ↔
      (base ≠ index → base < MAX_REGISTERS → offsetReg < MAX_REGISTERS →
        address < MAX_REGISTERS → offsetReg ≠ base ∧ v = d) := by
  constructor
  · intro h hne hbase hoffset haddress
    let start := launch [⟨.LoadStaticI64Imm, offsetReg, b, c⟩, ⟨.IAdd, address, base, offsetReg⟩]
      constants base index 0
    have hstart : start.frame.registers base = .pointer 0 := launch_base hne
    have hload : (virtualMachine bareRuntime).step start = .inl _ :=
      (step_loadStatic launch_executes hv).mpr
      ⟨⟨launch_pc, hoffset⟩, rfl⟩
    have hnext := executes_after (s := start) launch_executes offsetReg (.int v)
    have hoff : (after start offsetReg (.int v)).frame.registers offsetReg = .int v := by
      simp [registers_after]
    by_cases halias : offsetReg = base
    · have hlost : (after start offsetReg (.int v)).frame.registers base = .int v := by
        simp [registers_after, halias]
      have hadd : (virtualMachine bareRuntime).step _ = .inl _ := step_iAdd_ints hnext hlost hoff
        (show 1 < 1024 by omega) haddress hbase hoffset
      have hsum := h bareRuntime _ _ 0 0 launch_executes hstart launch_index
        (.head hload (reaches_one.mpr hadd))
      simp [registers_after] at hsum
    · have hkept : (after start offsetReg (.int v)).frame.registers base = .pointer 0 := by
        rw [registers_after, Function.update_of_ne (Ne.symm halias)]
        exact hstart
      have hadd : (virtualMachine bareRuntime).step _ = .inl _ := (step_iAdd hnext hkept hoff).mpr
        ⟨⟨show 1 < 1024 by omega, haddress, hbase, hoffset⟩, rfl⟩
      have hsum := h bareRuntime _ _ 0 0 launch_executes hstart launch_index
        (.head hload (reaches_one.mpr hadd))
      refine ⟨halias, ?_⟩
      simpa [registers_after] using hsum
  · intro h rt s t p n hexec hbase hindex hreaches
    obtain ⟨u, hload, hreaches⟩ := Machine.reaches_succ_iff.mp hreaches
    obtain ⟨⟨-, hoffset⟩, rfl⟩ := (step_loadStatic hexec hv).mp hload
    have hnext := executes_after hexec offsetReg (.int v)
    obtain ⟨haddress, hlt, -⟩ := iAdd_registers hnext (reaches_one.mp hreaches)
    obtain ⟨halias, rfl⟩ := h (ne_of_operands hbase hindex) hlt hoffset haddress
    have hkept : (after s offsetReg (.int v)).frame.registers base = .pointer p := by
      rw [registers_after, Function.update_of_ne (Ne.symm halias)]
      exact hbase
    have hoff : (after s offsetReg (.int v)).frame.registers offsetReg = .int v := by
      simp [registers_after]
    obtain ⟨-, rfl⟩ := (step_iAdd hnext hkept hoff).mp (reaches_one.mp hreaches)
    rw [registers_after, Function.update_self]

theorem sum_of_base {u : VmState} {k : I64}
    (hexec : Executes u (⟨.IAdd, address, base, offsetReg⟩ :: code) constants)
    (hbase : u.frame.registers base = .pointer p) (hoff : u.frame.registers offsetReg = .int k)
    (hreaches : (virtualMachine rt).Reaches 1 u t) :
    t.frame.registers address = .pointer (p + k) := by
  obtain ⟨-, rfl⟩ := (step_iAdd hexec hbase hoff).mp (reaches_one.mp hreaches)
  rw [registers_after, Function.update_self]

theorem sum_of_lost {u : VmState} {m k : I64}
    (hexec : Executes u (⟨.IAdd, address, base, offsetReg⟩ :: code) constants)
    (hpc : u.frame.pc < 1024) (hbase : u.frame.registers base = .int m)
    (hoff : u.frame.registers offsetReg = .int k) (ha : address < MAX_REGISTERS)
    (hb : base < MAX_REGISTERS) (hc : offsetReg < MAX_REGISTERS) :
    ∃ t, (virtualMachine rt).Reaches 1 u t ∧ ∀ q, t.frame.registers address ≠ .pointer q := by
  refine ⟨_, reaches_one.mpr (step_iAdd_ints hexec hbase hoff hpc ha hb hc), fun q => ?_⟩
  rw [registers_after, Function.update_self]
  exact nofun

theorem reckons_product_iff :
    Reckons [⟨.IMulImm, offsetReg, index, c⟩, ⟨.IAdd, address, base, offsetReg⟩] constants base
        index address (fun n => n * BitVec.ofNat 64 c) ↔
      (base ≠ index → base < MAX_REGISTERS → index < MAX_REGISTERS → offsetReg < MAX_REGISTERS →
        address < MAX_REGISTERS → offsetReg ≠ base) := by
  constructor
  · intro h hne hbase hindex hoffset haddress
    rintro rfl
    let start := launch [⟨.IMulImm, offsetReg, index, c⟩, ⟨.IAdd, address, offsetReg, offsetReg⟩]
      constants offsetReg index 0
    have hstart : start.frame.registers offsetReg = .pointer 0 := launch_base hne
    have hmul : (virtualMachine bareRuntime).step start = .inl _ :=
      (step_iMulImm launch_executes launch_index).mpr
      ⟨⟨launch_pc, hoffset, hindex⟩, rfl⟩
    have hlost : (after start offsetReg (.int (0 * BitVec.ofNat 64 c))).frame.registers offsetReg =
        .int (0 * BitVec.ofNat 64 c) := by
      simp [registers_after]
    obtain ⟨t, hsum, hno⟩ : ∃ t, (virtualMachine bareRuntime).Reaches 1 _ t ∧ _ := sum_of_lost
      (executes_after (s := start) launch_executes _ _) (show 1 < 1024 by omega) hlost hlost
      haddress hbase hoffset
    exact hno _ (h bareRuntime _ _ 0 0 launch_executes hstart launch_index (.head hmul hsum))
  · intro h rt s t p n hexec hbase hindex hreaches
    obtain ⟨u, hmul, hreaches⟩ := Machine.reaches_succ_iff.mp hreaches
    obtain ⟨⟨-, hoffset, hindexlt⟩, rfl⟩ := (step_iMulImm hexec hindex).mp hmul
    have hnext := executes_after hexec offsetReg (.int (n * BitVec.ofNat 64 c))
    obtain ⟨haddress, hlt, -⟩ := iAdd_registers hnext (reaches_one.mp hreaches)
    have halias := h (ne_of_operands hbase hindex) hlt hindexlt hoffset haddress
    apply sum_of_base hnext _ _ hreaches
    · rw [registers_after, Function.update_of_ne (Ne.symm halias)]
      exact hbase
    · simp [registers_after]

theorem index_after_load {v : Word} (hindex : s.frame.registers index = .int n) :
    (after s sizeReg (.int v)).frame.registers index = .int (if sizeReg = index then v else n) := by
  rw [registers_after]
  by_cases h : sizeReg = index
  · simp [h]
  · rw [Function.update_of_ne (Ne.symm h), if_neg h]
    exact hindex

/-- The state after the load of a stride and the product with it. -/
def scaled (s : VmState) (offsetReg index sizeReg : ℕ) (v : Word) (n : I64) : VmState :=
  after (after s sizeReg (.int v)) offsetReg (.int ((if sizeReg = index then v else n) * v))

theorem scaled_iff {b : ℕ} {v : Word}
    (hexec : Executes s [⟨.LoadStaticI64Imm, sizeReg, b, c⟩, ⟨.IMul, offsetReg, index, sizeReg⟩, i]
      constants) (hv : constants[b]? = some v) (hindex : s.frame.registers index = .int n) :
    (virtualMachine rt).Reaches 3 s t ↔
      ((s.frame.pc < 1024 ∧ sizeReg < MAX_REGISTERS) ∧ s.frame.pc + 1 < 1024 ∧
        offsetReg < MAX_REGISTERS ∧ index < MAX_REGISTERS ∧ sizeReg < MAX_REGISTERS) ∧
      (virtualMachine rt).step (scaled s offsetReg index sizeReg v n) = .inl t := by
  have hnext := executes_after hexec sizeReg (.int v)
  have hsize : (after s sizeReg (.int v)).frame.registers sizeReg = .int v := by
    simp [registers_after]
  rw [Machine.reaches_succ_iff]
  simp only [step_loadStatic hexec hv, Machine.reaches_succ_iff (n := 1)]
  constructor
  · rintro ⟨_, ⟨hload, rfl⟩, u, hmul, hreaches⟩
    obtain ⟨hregisters, rfl⟩ := (step_iMul hnext (index_after_load hindex) hsize).mp hmul
    exact ⟨⟨hload, hregisters⟩, reaches_one.mp hreaches⟩
  · rintro ⟨⟨hload, hregisters⟩, hstep⟩
    refine ⟨_, ⟨hload, rfl⟩, scaled s offsetReg index sizeReg v n, ?_, reaches_one.mpr hstep⟩
    exact (step_iMul hnext (index_after_load hindex) hsize).mpr ⟨hregisters, rfl⟩

theorem scaled_executes {b : ℕ} {v : Word}
    (hexec : Executes s [⟨.LoadStaticI64Imm, sizeReg, b, c⟩, ⟨.IMul, offsetReg, index, sizeReg⟩, i]
      constants) : Executes (scaled s offsetReg index sizeReg v n) [i] constants :=
  executes_after (executes_after hexec _ _) _ _

theorem scaled_offset {v : Word} :
    (scaled s offsetReg index sizeReg v n).frame.registers offsetReg =
      .int ((if sizeReg = index then v else n) * v) := by
  simp [scaled, registers_after]

theorem scaled_base {v : Word} (hoffset : offsetReg ≠ base)
    (hsize : sizeReg ≠ base) (hbase : s.frame.registers base = .pointer p) :
    (scaled s offsetReg index sizeReg v n).frame.registers base = .pointer p := by
  rw [scaled, registers_after, Function.update_of_ne (Ne.symm hoffset), registers_after,
    Function.update_of_ne (Ne.symm hsize)]
  exact hbase

theorem scaled_lost {v : Word} (h : offsetReg = base ∨ sizeReg = base) :
    ∃ m, (scaled s offsetReg index sizeReg v n).frame.registers base = .int m := by
  rw [scaled, registers_after, registers_after]
  by_cases hoffset : offsetReg = base
  · exact ⟨_, by rw [hoffset, Function.update_self]⟩
  · have hsize : sizeReg = base := h.resolve_left hoffset
    exact ⟨v, by rw [Function.update_of_ne (Ne.symm hoffset), hsize, Function.update_self]⟩

theorem reckons_stride_iff {b : ℕ} {v d : Word} (hv : constants[b]? = some v) (hd : d ≠ 0) :
    Reckons [⟨.LoadStaticI64Imm, sizeReg, b, c⟩, ⟨.IMul, offsetReg, index, sizeReg⟩,
        ⟨.IAdd, address, base, offsetReg⟩] constants base index address (fun n => n * d) ↔
      (base ≠ index → base < MAX_REGISTERS → index < MAX_REGISTERS → offsetReg < MAX_REGISTERS →
        sizeReg < MAX_REGISTERS → address < MAX_REGISTERS →
        offsetReg ≠ base ∧ sizeReg ≠ base ∧ sizeReg ≠ index ∧ v = d) := by
  constructor
  · intro h hne hbase hindex hoffset hsize haddress
    let start (n : I64) := launch [⟨.LoadStaticI64Imm, sizeReg, b, c⟩,
      ⟨.IMul, offsetReg, index, sizeReg⟩, ⟨.IAdd, address, base, offsetReg⟩] constants base index n
    have hstart (n : I64) : (start n).frame.registers base = .pointer 0 := launch_base hne
    have hregisters (n : I64) : ((start n).frame.pc < 1024 ∧ sizeReg < MAX_REGISTERS) ∧
        (start n).frame.pc + 1 < 1024 ∧ offsetReg < MAX_REGISTERS ∧ index < MAX_REGISTERS ∧
          sizeReg < MAX_REGISTERS :=
      ⟨⟨launch_pc, hsize⟩, show 1 < 1024 by omega, hoffset, hindex, hsize⟩
    have hlast (n : I64) : Executes (scaled (start n) offsetReg index sizeReg v n)
        [⟨.IAdd, address, base, offsetReg⟩] constants := scaled_executes launch_executes
    by_cases hlost : offsetReg = base ∨ sizeReg = base
    · obtain ⟨m, hm⟩ : ∃ m, (scaled (start 0) offsetReg index sizeReg v 0).frame.registers base =
          .int m := scaled_lost hlost
      have hstep : (virtualMachine bareRuntime).step _ = .inl _ :=
        step_iAdd_ints (hlast 0) hm scaled_offset
        (show 2 < 1024 by omega) haddress hbase hoffset
      have hsum := h bareRuntime _ _ 0 0 launch_executes (hstart 0) launch_index
        ((scaled_iff launch_executes hv launch_index).mpr ⟨hregisters 0, hstep⟩)
      simp [registers_after] at hsum
    · rw [not_or] at hlost
      -- The sum for every index, from which the stride is read off.
      have hsums (n : I64) : (if sizeReg = index then v else n) * v = n * d := by
        have hkept : (scaled (start n) offsetReg index sizeReg v n).frame.registers base =
            .pointer 0 := scaled_base hlost.1 hlost.2 (hstart n)
        have hstep : (virtualMachine bareRuntime).step _ = .inl _ :=
          (step_iAdd (hlast n) hkept scaled_offset).mpr
          ⟨⟨show 2 < 1024 by omega, haddress, hbase, hoffset⟩, rfl⟩
        have hsum := h bareRuntime _ _ 0 n launch_executes (hstart n) launch_index
          ((scaled_iff launch_executes hv launch_index).mpr ⟨hregisters n, hstep⟩)
        simpa [registers_after] using hsum
      have hzero := hsums 0
      have hone := hsums 1
      by_cases halias : sizeReg = index
      · rw [if_pos halias] at hzero hone
        rw [hzero] at hone
        exact absurd (by simpa using hone.symm) hd
      · rw [if_neg halias] at hone
        exact ⟨hlost.1, hlost.2, halias, by simpa using hone⟩
  · intro h rt s t p n hexec hbase hindex hreaches
    obtain ⟨⟨⟨-, hsize⟩, -, hoffset, hindexlt, -⟩, hstep⟩ :=
      (scaled_iff hexec hv hindex).mp hreaches
    have hlast := scaled_executes (v := v) (n := n) hexec
    obtain ⟨haddress, hlt, -⟩ := iAdd_registers hlast hstep
    obtain ⟨hoffbase, hsizebase, halias, rfl⟩ := h
      (ne_of_operands hbase hindex) hlt hindexlt hoffset
      hsize haddress
    have hsum := sum_of_base hlast (scaled_base hoffbase hsizebase hbase) scaled_offset
      (reaches_one.mpr hstep)
    rw [hsum, if_neg halias]

end Kinds

/-! ## The address of an access -/

section Address

variable {a : Access} {fn fn' : FunctionNode} {base index address : ℕ}

theorem computesAddress_iff_reckons (h : a.address base index fn = .ok (address, fn'))
    (hcode : fn'.instructions = fn.instructions ++ code) :
    ComputesAddress a fn base index ↔
      Reckons code fn'.constants base index address a.displacement := by
  have hdrop : fn'.instructions.drop fn.instructions.length = code := by
    rw [hcode, List.drop_left]
  have hlength : fn'.instructions.length - fn.instructions.length = code.length := by
    rw [hcode, List.length_append, Nat.add_sub_cancel_left]
  constructor
  · intro hcomputes rt s t p n hexec hbase hindex hreaches
    apply hcomputes address fn' h rt s t p n
    · rw [hdrop]
      exact hexec
    · exact hbase
    · exact hindex
    · rw [hlength]
      exact hreaches
  · intro hreckons address' fn'' h' rt s t p n hexec hbase hindex hreaches
    rw [h] at h'
    cases h'
    rw [hdrop] at hexec
    rw [hlength] at hreaches
    exact hreckons rt s t p n hexec hbase hindex hreaches

theorem computesAddress_of_error {e : EmitError} (h : a.address base index fn = .error e) :
    ComputesAddress a fn base index := by
  intro address fn' h'
  rw [h] at h'
  cases h'

theorem available_two (hbase : base < MAX_REGISTERS) (hne : base ≠ index)
    (h₀ : temporary fn 0 < MAX_REGISTERS) (h₁ : temporary fn 1 < MAX_REGISTERS) :
    Available fn base index 2 := by
  refine ⟨hbase, hne, fun j hj => ?_⟩
  obtain rfl | rfl : j = 0 ∨ j = 1 := by omega
  · exact h₀
  · exact h₁

theorem available_three (hbase : base < MAX_REGISTERS) (hne : base ≠ index)
    (h₀ : temporary fn 0 < MAX_REGISTERS) (h₁ : temporary fn 1 < MAX_REGISTERS)
    (h₂ : temporary fn 2 < MAX_REGISTERS) : Available fn base index 3 := by
  refine ⟨hbase, hne, fun j hj => ?_⟩
  obtain rfl | rfl | rfl : j = 0 ∨ j = 1 ∨ j = 2 := by omega
  · exact h₀
  · exact h₁
  · exact h₂

theorem derefLvalue_iff {offset : BitVec 32}
    (haddress : a.address base index = emitDerefLvalue (pure (some base)) offset.toNat)
    (hdisplacement : a.displacement = fun _ => offset.zeroExtend 64) :
    ComputesAddress a fn base index ↔
      (Available fn base index 1 → offset.toNat < 256) := by
  have hemit : a.address base index fn = .ok (temporary fn 0, fn.allocTempReg.2.pushInstruction
      ⟨.IAddImm, temporary fn 0, base, u8 offset.toNat⟩) := by
    rw [haddress]
    rfl
  rw [computesAddress_iff_reckons hemit rfl, hdisplacement, reckons_imm_iff]
  have hvalue : BitVec.ofNat 64 (u8 offset.toNat) = offset.zeroExtend 64 ↔ offset.toNat < 256 := by
    have hlt := offset.isLt
    rw [← BitVec.toNat_inj, BitVec.toNat_ofNat, BitVec.toNat_setWidth, u8]
    omega
  rw [hvalue]
  constructor
  · rintro h ⟨hbase, hne, htemps⟩
    exact h hne hbase (htemps 0 Nat.one_pos)
  · intro h hne hbase htemp
    exact h ⟨hbase, hne, fun j hj => by rwa [Nat.lt_one_iff.mp hj]⟩

theorem loadConstant_spec (fn : FunctionNode) (value : Word) (kind : ConstKind) :
    ∃ fn' v, loadConstant .LoadStaticI64Imm value kind fn = .ok (temporary fn 0, fn') ∧
      (∃ b c, fn'.instructions = fn.instructions ++ [⟨.LoadStaticI64Imm, temporary fn 0, b, c⟩] ∧
        fn'.constants[b]? = some v) ∧
      (∀ k, temporary fn' k = temporary fn (k + 1)) ∧ (v = value ↔ LowConstant fn value) := by
  obtain ⟨v, hv, hlow⟩ := getElem?_lowByte fn value kind
  have hkeeps : (fn.addConstant value kind).2.variableInfos = fn.variableInfos ∧
      (fn.addConstant value kind).2.nextTempReg = fn.nextTempReg ∧
      (fn.addConstant value kind).2.instructions = fn.instructions := by
    unfold FunctionNode.addConstant
    split <;> exact ⟨rfl, rfl, rfl⟩
  have htemp : (fn.addConstant value kind).2.allocTempReg.1 = temporary fn 0 := by
    simp only [FunctionNode.allocTempReg, hkeeps, temporary, Nat.add_zero]
  refine ⟨(fn.addConstant value kind).2.allocTempReg.2.pushInstruction (Instruction.setImm16
    ⟨.LoadStaticI64Imm, temporary fn 0, 0, 0⟩ (fn.addConstant value kind).1), v, ?_,
    ⟨(fn.addConstant value kind).1 % 256, (fn.addConstant value kind).1 / 256, ?_, hv⟩, ?_, hlow⟩
  · rw [← htemp]
    rfl
  · change (fn.addConstant value kind).2.instructions ++ _ = _
    rw [hkeeps.2.2]
    rfl
  · intro k
    change u8 (u8 (fn.addConstant value kind).2.variableInfos.length +
      ((fn.addConstant value kind).2.nextTempReg + 1 + k)) = _
    rw [hkeeps.1, hkeeps.2.1, temporary]
    congr 2
    omega

theorem addOffset_iff {offset : Word}
    (haddress : a.address base index fn = addOffset base offset.toNat fn)
    (hdisplacement : a.displacement = fun _ => offset) :
    ComputesAddress a fn base index ↔ FitsOffset fn base index offset := by
  unfold FitsOffset
  by_cases hsmall : offset.toNat ≤ 255
  · have hemit : a.address base index fn = .ok (temporary fn 0, fn.allocTempReg.2.pushInstruction
        ⟨.IAddImm, temporary fn 0, base, offset.toNat⟩) := by
      rw [haddress]
      simp only [addOffset, offsetInto, hsmall, if_true]
      rfl
    rw [computesAddress_iff_reckons hemit rfl, hdisplacement, reckons_imm_iff]
    refine iff_of_true (fun _ _ _ => ?_) fun hlarge => absurd hlarge (by omega)
    rw [BitVec.ofNat_toNat, BitVec.setWidth_eq]
  · have hlarge : 255 < offset.toNat := by omega
    obtain ⟨fn₁, v, hload, ⟨b, c, hcode, hv⟩, -, hlow⟩ :=
      loadConstant_spec fn.allocTempReg.2 (BitVec.ofNat 64 offset.toNat) .INT
    have htemp : temporary fn.allocTempReg.2 0 = temporary fn 1 := rfl
    rw [htemp] at hload hcode
    have hemit : a.address base index fn = .ok (temporary fn 0,
        fn₁.pushInstruction ⟨.IAdd, temporary fn 0, base, temporary fn 1⟩) := by
      rw [haddress]
      simp only [addOffset, offsetInto, hsmall, if_false]
      change (do
        let offReg ← loadConstant .LoadStaticI64Imm (BitVec.ofNat 64 offset.toNat) .INT
        addInstruction .IAdd (temporary fn 0) base offReg
        return temporary fn 0 : EmitM ℕ) fn.allocTempReg.2 = _
      rw [bind_of_ok hload]
      rfl
    have hcode' : (fn₁.pushInstruction ⟨.IAdd, temporary fn 0, base, temporary fn 1⟩).instructions =
        fn.instructions ++ [⟨.LoadStaticI64Imm, temporary fn 1, b, c⟩,
          ⟨.IAdd, temporary fn 0, base, temporary fn 1⟩] := by
      change fn₁.instructions ++ _ = _
      rw [hcode, List.append_assoc]
      rfl
    have hv' : (fn₁.pushInstruction
        ⟨.IAdd, temporary fn 0, base, temporary fn 1⟩).constants[b]? = some v := hv
    rw [BitVec.ofNat_toNat, BitVec.setWidth_eq] at hlow
    change v = offset ↔ LowConstant fn offset at hlow
    rw [computesAddress_iff_reckons hemit hcode', hdisplacement, reckons_constant_iff hv', hlow]
    constructor
    · rintro h - ⟨hbase, hne, htemps⟩
      exact h hne hbase (htemps 1 (by omega)) (htemps 0 (by omega))
    · intro h hne hbase hoffset haddress'
      exact h hlarge (available_two hbase hne haddress' hoffset)

theorem stride_iff {type : SizedType} (hsize : 0 < type.sizeInMemory)
    (haddress : a.address base index = emitAtLvalue (pure (some base)) (pure (some index)) none
      type.toTypeDesc)
    (hdisplacement : a.displacement = fun n => n * BitVec.ofNat 64 type.sizeInMemory) :
    ComputesAddress a fn base index ↔ FitsStride fn base index type.sizeInMemory := by
  have hprogram : a.address base index fn = (do
      scaleIndex (temporary fn 0) index type.sizeInMemory
      let addrReg ← allocTempReg
      addInstruction .IAdd addrReg base (temporary fn 0)
      return addrReg : EmitM ℕ) fn.allocTempReg.2 := by
    rw [haddress]
    unfold emitAtLvalue
    simp only [require, hsize, if_true]
    rfl
  unfold FitsStride
  by_cases hsmall : type.sizeInMemory ≤ 255
  · have hemit : a.address base index fn = .ok (temporary fn 1,
        ((fn.allocTempReg.2.pushInstruction
          ⟨.IMulImm, temporary fn 0, index, type.sizeInMemory⟩).allocTempReg.2.pushInstruction
          ⟨.IAdd, temporary fn 1, base, temporary fn 0⟩)) := by
      rw [hprogram]
      simp only [scaleIndex, hsmall, if_true]
      rfl
    have hcode : ((fn.allocTempReg.2.pushInstruction
          ⟨.IMulImm, temporary fn 0, index, type.sizeInMemory⟩).allocTempReg.2.pushInstruction
          ⟨.IAdd, temporary fn 1, base, temporary fn 0⟩).instructions = fn.instructions ++
        [⟨.IMulImm, temporary fn 0, index, type.sizeInMemory⟩,
          ⟨.IAdd, temporary fn 1, base, temporary fn 0⟩] :=
      List.append_assoc fn.instructions [_] [_]
    rw [computesAddress_iff_reckons hemit hcode, hdisplacement, reckons_product_iff]
    simp only [hsmall, if_true]
    constructor
    · rintro h hindex ⟨hbase, hne, htemps⟩
      exact h hne hbase hindex (htemps 0 (by omega)) (htemps 1 (by omega))
    · intro h hne hbase hindex hoffset haddress'
      exact h hindex (available_two hbase hne hoffset haddress')
  · obtain ⟨fn₁, v, hload, ⟨b, c, hcode, hv⟩, htemps₁, hlow⟩ :=
      loadConstant_spec fn.allocTempReg.2 (BitVec.ofNat 64 type.sizeInMemory) .INT
    have htemp : temporary fn.allocTempReg.2 0 = temporary fn 1 := rfl
    rw [htemp] at hload hcode
    have htemp₂ : (fn₁.pushInstruction
        ⟨.IMul, temporary fn 0, index, temporary fn 1⟩).allocTempReg.1 = temporary fn 2 := htemps₁ 0
    have hemit : a.address base index fn = .ok (temporary fn 2,
        ((fn₁.pushInstruction ⟨.IMul, temporary fn 0, index, temporary fn 1⟩).allocTempReg.2
          |>.pushInstruction ⟨.IAdd, temporary fn 2, base, temporary fn 0⟩)) := by
      rw [hprogram, scaleIndex, if_neg hsmall, bind_assoc, bind_of_ok hload, ← htemp₂]
      rfl
    have hcode' : ((fn₁.pushInstruction
          ⟨.IMul, temporary fn 0, index, temporary fn 1⟩).allocTempReg.2 |>.pushInstruction
          ⟨.IAdd, temporary fn 2, base, temporary fn 0⟩).instructions = fn.instructions ++
        [⟨.LoadStaticI64Imm, temporary fn 1, b, c⟩, ⟨.IMul, temporary fn 0, index, temporary fn 1⟩,
          ⟨.IAdd, temporary fn 2, base, temporary fn 0⟩] := by
      change (fn₁.instructions ++ [_]) ++ [_] = _
      rw [hcode, List.append_assoc, List.append_assoc]
      rfl
    have hv' : ((fn₁.pushInstruction
          ⟨.IMul, temporary fn 0, index, temporary fn 1⟩).allocTempReg.2 |>.pushInstruction
          ⟨.IAdd, temporary fn 2, base, temporary fn 0⟩).constants[b]? = some v := hv
    have hnonzero : BitVec.ofNat 64 type.sizeInMemory ≠ 0 := by
      have hlt := type.size_lt
      intro hzero
      have hmod := congrArg BitVec.toNat hzero
      rw [BitVec.toNat_ofNat, Nat.mod_eq_of_lt (by omega)] at hmod
      change type.sizeInMemory = 0 at hmod
      omega
    change v = BitVec.ofNat 64 type.sizeInMemory ↔ LowConstant fn _ at hlow
    rw [computesAddress_iff_reckons hemit hcode', hdisplacement, reckons_stride_iff hv' hnonzero,
      hlow]
    simp only [hsmall, if_false]
    constructor
    · rintro h hindex ⟨hbase, hne, htemps⟩
      exact h hne hbase hindex (htemps 0 (by omega)) (htemps 1 (by omega)) (htemps 2 (by omega))
    · intro h hne hbase hindex hoffset hstride haddress'
      exact h hindex (available_three hbase hne hoffset hstride haddress')

theorem literal_iff {c : I64} {type : SizedType}
    (haddress : a.address base index = emitAtLvalue (pure (some base)) (pure (some index)) (some c)
      type.toTypeDesc)
    (hdisplacement : a.displacement = fun _ => c * BitVec.ofNat 64 type.sizeInMemory) :
    ComputesAddress a fn base index ↔ (0 < type.sizeInMemory → 0 ≤ c.toInt →
      FitsOffset fn base index (c * BitVec.ofNat 64 type.sizeInMemory)) := by
  by_cases hsize : 0 < type.sizeInMemory
  · by_cases hnegative : 0 ≤ c.toInt
    · simp only [hsize, hnegative, forall_const]
      apply addOffset_iff _ hdisplacement
      have hslt : c.slt 0 = false := by simpa [BitVec.slt] using hnegative
      rw [haddress]
      unfold emitAtLvalue
      simp only [require, hsize, hslt, if_true]
      rfl
    · simp only [hnegative, false_imp_iff, implies_true, iff_true]
      have hslt : ¬c.slt 0 = false := by simpa [BitVec.slt] using hnegative
      apply computesAddress_of_error (e := .negativeIndex)
      rw [haddress]
      unfold emitAtLvalue
      simp only [require, hsize, hslt, if_true]
      rfl
  · simp only [hsize, false_imp_iff, iff_true]
    apply computesAddress_of_error (e := .invalidElementSize)
    rw [haddress]
    unfold emitAtLvalue
    simp only [require, hsize, if_false]
    rfl

theorem runTime_iff {type : SizedType}
    (haddress : a.address base index = emitAtLvalue (pure (some base)) (pure (some index)) none
      type.toTypeDesc)
    (hdisplacement : a.displacement = fun n => n * BitVec.ofNat 64 type.sizeInMemory) :
    ComputesAddress a fn base index ↔
      (0 < type.sizeInMemory → FitsStride fn base index type.sizeInMemory) := by
  by_cases hsize : 0 < type.sizeInMemory
  · simp only [hsize, forall_const]
    exact stride_iff hsize haddress hdisplacement
  · simp only [hsize, false_imp_iff, iff_true]
    apply computesAddress_of_error (e := .invalidElementSize)
    rw [haddress]
    unfold emitAtLvalue
    simp only [require, hsize, if_false]
    rfl

theorem computesAddress_iff_fits : ComputesAddress a fn base index ↔ a.Fits fn base index := by
  cases a with
  | field offset type isInline => exact derefLvalue_iff rfl rfl
  | setField offset type isInline => exact derefLvalue_iff rfl rfl
  | initField offset type => exact derefLvalue_iff rfl rfl
  | initElement offset type => exact addOffset_iff rfl rfl
  | element constIndex type =>
    cases constIndex with
    | some c => exact literal_iff rfl rfl
    | none => exact runTime_iff rfl rfl
  | setElement constIndex type =>
    cases constIndex with
    | some c => exact literal_iff rfl rfl
    | none => exact runTime_iff rfl rfl

end Address

/-! ## Bytes -/

section Memory

variable {m m' : Memory} {p : Word} {n k : ℕ}

theorem memory_read_congr (h : ∀ q, (q - p).toNat < n → m q = m' q) (hn : n ≤ 2 ^ 64) :
    m.read p n = m'.read p n := by
  induction n generalizing p with
  | zero => rfl
  | succ n ih =>
    have hhead : m p = m' p := h p (by simp)
    have htail : m.read (p + 1) n = m'.read (p + 1) n := by
      apply ih _ (by omega)
      intro q hq
      apply h
      bv_omega
    rw [Memory.read, Memory.read, hhead, htail]

theorem memory_write_other {v : ℕ} {q : Word} (h : ¬(q - p).toNat < n) :
    m.write p n v q = m q := if_neg h

theorem memory_read_lt (m : Memory) (p : Word) (n : ℕ) : m.read p n < 256 ^ n := by
  induction n generalizing p with
  | zero => exact Nat.one_pos
  | succ n ih =>
    have hhead := (m p).isLt
    have htail := ih (p + 1)
    rw [Memory.read, Nat.pow_succ]
    omega

theorem memory_write_inside {v : ℕ} {q : Word} (h : (q - p).toNat < n) :
    m.write p n v q = BitVec.ofNat 8 (v / 256 ^ (q - p).toNat) := if_pos h

theorem memory_eq_of_read (h : m.read p n = m'.read p n) (hk : k < n) :
    m (p + BitVec.ofNat 64 k) = m' (p + BitVec.ofNat 64 k) := by
  induction n generalizing p k with
  | zero => omega
  | succ n ih =>
    rw [Memory.read, Memory.read] at h
    have hlt := (m p).isLt
    have hlt' := (m' p).isLt
    cases k with
    | zero =>
      have hhead : (m p).toNat = (m' p).toNat := by omega
      simpa using BitVec.eq_of_toNat_eq hhead
    | succ k =>
      have htail := ih (by omega : m.read (p + 1) n = m'.read (p + 1) n) (by omega : k < n)
      have hnext : p + BitVec.ofNat 64 (k + 1) = p + 1 + BitVec.ofNat 64 k := by
        rw [Nat.add_comm, BitVec.ofNat_add, BitVec.add_assoc]
        rfl
      rw [hnext]
      exact htail

end Memory

/-! ## Loads and stores -/

/-- An opcode loads some bytes, and no two numbers in them as the same value. -/
def LoadsBytes (op : Opcode) (n : ℕ) : Prop :=
  n ≤ 8 ∧ ∃ decode : Runtime → ℕ → Variant,
    (∀ rt m f i, i.opcode = op → exec rt m f i = execLoad m f i n (decode rt)) ∧
    ∀ x y, x < 256 ^ n → y < 256 ^ n → decode bareRuntime x = decode bareRuntime y → x = y

/-- An opcode stores some bytes, which may be zero. -/
def StoresBytes (op : Opcode) (n : ℕ) : Prop :=
  n ≤ 8 ∧ ∃ encode : Runtime → Variant → Except VmErrorKind ℕ,
    (∀ rt m f i, i.opcode = op → exec rt m f i = execStore m f i n (encode rt)) ∧
    ∃ v, encode bareRuntime v = .ok 0

theorem signed_injective {bits x y : ℕ} (hbits : bits ≤ 64) (hx : x < 2 ^ bits) (hy : y < 2 ^ bits)
    (h : signed bits x = signed bits y) : x = y := by
  have hextend := congrArg BitVec.toInt (Variant.int.inj h)
  rw [BitVec.toInt_signExtend_of_le hbits, BitVec.toInt_signExtend_of_le hbits] at hextend
  have hvalue := congrArg BitVec.toNat (BitVec.eq_of_toInt_eq hextend)
  rwa [BitVec.toNat_ofNat, BitVec.toNat_ofNat, Nat.mod_eq_of_lt hx, Nat.mod_eq_of_lt hy] at hvalue

theorem ofNat_injective {x y : ℕ} (hx : x < 2 ^ 64) (hy : y < 2 ^ 64)
    (h : BitVec.ofNat 64 x = BitVec.ofNat 64 y) : x = y := by
  have hvalue := congrArg BitVec.toNat h
  rwa [BitVec.toNat_ofNat, BitVec.toNat_ofNat, Nat.mod_eq_of_lt hx, Nat.mod_eq_of_lt hy] at hvalue

theorem unsigned_injective {x y : ℕ} (hx : x < 2 ^ 64) (hy : y < 2 ^ 64)
    (h : unsigned x = unsigned y) : x = y := ofNat_injective hx hy (Variant.int.inj h)

theorem loadsBytes_signed {op : Opcode} {n : ℕ} (hn : n ≤ 8)
    (h : ∀ rt m f i, i.opcode = op → exec rt m f i = execLoad m f i n (signed (8 * n))) :
    LoadsBytes op n := by
  refine ⟨hn, fun _ => signed (8 * n), h, fun x y hx hy heq => ?_⟩
  have hpow : 256 ^ n = 2 ^ (8 * n) := (Nat.pow_mul 2 8 n).symm
  rw [hpow] at hx hy
  exact signed_injective (by omega) hx hy heq

theorem loadsBytes_unsigned {op : Opcode} {n : ℕ} (hn : n ≤ 8)
    (h : ∀ rt m f i, i.opcode = op → exec rt m f i = execLoad m f i n unsigned) :
    LoadsBytes op n := by
  refine ⟨hn, fun _ => unsigned, h, fun x y hx hy heq => ?_⟩
  have hpow : 256 ^ n ≤ 2 ^ 64 := Nat.pow_le_pow_right (by omega : 0 < 256) hn
  exact unsigned_injective (by omega) (by omega) heq

theorem loadsBytes_pointer : LoadsBytes .LoadPointer 8 := by
  refine ⟨Nat.le_refl 8, fun _ n => .pointer (BitVec.ofNat 64 n), ?_, fun x y hx hy heq => ?_⟩
  · rintro rt m f ⟨_, _, _, _⟩ rfl
    rfl
  · exact ofNat_injective hx hy (Variant.pointer.inj heq)

theorem loadsBytes_float : LoadsBytes .LoadFloat 4 := by
  refine ⟨by omega, fun rt n => .ofF32 rt.fpu (BitVec.ofNat 32 n), ?_, fun x y hx hy heq => ?_⟩
  · rintro rt m f ⟨_, _, _, _⟩ rfl
    rfl
  · have hvalue := congrArg BitVec.toNat (Variant.float.inj heq)
    change ((BitVec.ofNat 32 x).setWidth 64).toNat =
      ((BitVec.ofNat 32 y).setWidth 64).toNat at hvalue
    rw [BitVec.toNat_setWidth, BitVec.toNat_setWidth, BitVec.toNat_ofNat,
      BitVec.toNat_ofNat] at hvalue
    omega

theorem loadsBytes_sized :
    (LoadsBytes .LoadI8 1 ∧ LoadsBytes .LoadU8 1) ∧
        (LoadsBytes .LoadI16 2 ∧ LoadsBytes .LoadU16 2) ∧
      (LoadsBytes .LoadI32 4 ∧ LoadsBytes .LoadU32 4) ∧
      LoadsBytes .LoadI64 8 ∧ LoadsBytes .LoadU64 8 := by
  refine ⟨⟨loadsBytes_signed (by omega) ?_, loadsBytes_unsigned (by omega) ?_⟩,
    ⟨loadsBytes_signed (by omega) ?_, loadsBytes_unsigned (by omega) ?_⟩,
    ⟨loadsBytes_signed (by omega) ?_, loadsBytes_signed (by omega) ?_⟩,
    loadsBytes_unsigned (by omega) ?_, loadsBytes_unsigned (by omega) ?_⟩
  all_goals
    rintro rt m f ⟨_, _, _, _⟩ rfl
    rfl

theorem loadOpcode_cases (type : SizedType) :
    (∃ op, (∀ fn, loadOpcode type.toTypeDesc fn = .ok (op, fn)) ∧
      LoadsBytes op (Access.scalarBytes type)) ∨
    (Access.scalarBytes type = 0 ∧
      ∀ fn, ∃ e, loadOpcode type.toTypeDesc fn = .error e) := by
  obtain ⟨⟨hi8, hu8⟩, ⟨hi16, hu16⟩, ⟨hi32, hu32⟩, hi64, hu64⟩ := loadsBytes_sized
  unfold loadOpcode Access.scalarBytes
  by_cases hfloat : type.floatRegister = true
  · simp only [hfloat, if_true]
    exact .inl ⟨.LoadFloat, fun _ => rfl, loadsBytes_float⟩
  · simp only [hfloat, Bool.false_eq_true, if_false]
    by_cases hsize : type.loadSize ∈ [1, 2, 4, 8]
    · left
      rw [if_pos hsize]
      simp only [List.mem_cons, List.not_mem_nil, or_false] at hsize
      obtain h | h | h | h := hsize <;> simp only [h] <;> cases type.loadSigned
      all_goals exact ⟨_, fun _ => rfl, by assumption⟩
    · right
      rw [if_neg hsize]
      refine ⟨rfl, fun fn => ⟨.unsupportedSize type.loadSize, ?_⟩⟩
      refine congrFun (?_ : _ = (throw (.unsupportedSize type.loadSize) : EmitM Opcode)) fn
      split <;> first | rfl | skip
      all_goals
        next h =>
          rw [h] at hsize
          exact absurd (by decide) hsize

theorem storesBytes_sized :
    StoresBytes .StoreI8 1 ∧ StoresBytes .StoreI16 2 ∧ StoresBytes .StoreI32 4 ∧
      StoresBytes .StoreI64 8 := by
  refine ⟨⟨by omega, fun _ v => do return (← v.getI64).toNat, ?_, .int 0, rfl⟩,
    ⟨by omega, fun _ v => do return (← v.getI64).toNat, ?_, .int 0, rfl⟩,
    ⟨by omega, fun rt v => do return (← v.toInt rt.fpu).toNat, ?_, .int 0, rfl⟩,
    ⟨by omega, fun _ v => do return (← v.getI64).toNat, ?_, .int 0, rfl⟩⟩
  all_goals
    rintro rt m f ⟨_, _, _, _⟩ rfl
    rfl

theorem storesBytes_pointer : StoresBytes .StorePointer 8 := by
  refine ⟨by omega, fun _ v => do return (← v.getPtr).toNat, ?_, .pointer 0, rfl⟩
  rintro rt m f ⟨_, _, _, _⟩ rfl
  rfl

theorem storesBytes_float : StoresBytes .StoreFloat 4 := by
  refine ⟨by omega, fun rt v => do return (← v.toFloat rt.fpu).toNat, ?_, .float 0, rfl⟩
  rintro rt m f ⟨_, _, _, _⟩ rfl
  rfl

theorem storeOpFor_cases (type : SizedType) :
    (∃ op, (∀ fn, storeOpFor type.toTypeDesc fn = .ok (op, fn)) ∧
      StoresBytes op (Access.scalarBytes type)) ∨
    (Access.scalarBytes type = 0 ∧
      ∀ fn, ∃ e, storeOpFor type.toTypeDesc fn = .error e) := by
  obtain ⟨h8, h16, h32, h64⟩ := storesBytes_sized
  unfold storeOpFor Access.scalarBytes
  by_cases hfloat : type.floatRegister = true
  · simp only [hfloat, if_true]
    exact .inl ⟨.StoreFloat, fun _ => rfl, storesBytes_float⟩
  · simp only [hfloat, Bool.false_eq_true, if_false]
    by_cases hsize : type.loadSize ∈ [1, 2, 4, 8]
    · left
      rw [if_pos hsize]
      simp only [List.mem_cons, List.not_mem_nil, or_false] at hsize
      obtain h | h | h | h := hsize <;> simp only [h]
      all_goals exact ⟨_, fun _ => rfl, by assumption⟩
    · right
      rw [if_neg hsize]
      refine ⟨rfl, fun fn => ⟨.unsupportedSize type.loadSize, ?_⟩⟩
      refine congrFun (?_ : _ = (throw (.unsupportedSize type.loadSize) : EmitM Opcode)) fn
      split <;> first | rfl | skip
      all_goals
        next h =>
          rw [h] at hsize
          exact absurd (by decide) hsize

/-! ## Staying inside -/

/-- What the instruction at an address touches is in some bytes from there on. -/
def Confined (i : Instruction) (address extent : ℕ) : Prop :=
  ∀ (rt : Runtime) (s t : VmState) (p : Word), Executes s [i] [] →
    s.frame.registers address = .pointer p → (virtualMachine rt).step s = .inl t →
    (∀ q, t.memory q ≠ s.memory q → (q - p).toNat < extent) ∧
    ∀ m u, (∀ q : Word, (q - p).toNat < extent → m q = s.memory q) →
      (virtualMachine rt).step { s with memory := m } = .inl u →
      u.frame.registers = t.frame.registers

section Confined

variable {op : Opcode} {address other n extent : ℕ}

theorem checkedGetPtr_pointer (hp : p ≠ 0) : checkedGetPtr (.pointer p) = .ok p :=
  if_neg hp

theorem executes_memory (h : Executes s [i] []) (m : Memory) :
    Executes { s with memory := m } [i] [] := h

theorem load_step {decode : Runtime → ℕ → Variant}
    (hop : ∀ rt m f i, i.opcode = op → exec rt m f i = execLoad m f i n (decode rt))
    (h : Executes s [⟨op, other, address, 0⟩] [])
    (haddress : s.frame.registers address = .pointer p) :
    (virtualMachine rt).step s = .inl t ↔
      (s.frame.pc < 1024 ∧ other < MAX_REGISTERS ∧ address < MAX_REGISTERS ∧ p ≠ 0) ∧
        t = after s other (decode rt (s.memory.read p n)) := by
  apply executes_writes h
  · rintro ⟨hother, hlt, hp⟩
    rw [hop _ _ _ _ rfl]
    simp [execLoad, StackFrame.getRegister_of_lt _ hother, StackFrame.getRegister_of_lt _ hlt,
      haddress, checkedGetPtr_pointer hp, bind, Except.bind, pure, Except.pure]
  · intro hnot
    rw [hop _ _ _ _ rfl]
    by_cases hlt : address < MAX_REGISTERS
    · by_cases hp : p = 0
      · simp [execLoad, StackFrame.getRegister_of_lt _ hlt, haddress, checkedGetPtr, hp, bind,
          Except.bind]
      · have hother : ¬other < MAX_REGISTERS := fun hother => hnot ⟨hother, hlt, hp⟩
        simp [execLoad, getRegister_of_not_lt _ hother, StackFrame.getRegister_of_lt _ hlt,
          haddress, checkedGetPtr_pointer hp, bind, Except.bind]
    · simp [execLoad, getRegister_of_not_lt _ hlt, bind, Except.bind]

theorem store_step {encode : Runtime → Variant → Except VmErrorKind ℕ}
    (hop : ∀ rt m f i, i.opcode = op → exec rt m f i = execStore m f i n (encode rt))
    (h : Executes s [⟨op, address, other, 0⟩] [])
    (haddress : s.frame.registers address = .pointer p)
    (hstep : (virtualMachine rt).step s = .inl t) :
    ∃ v, t = ⟨s.frame.advance, s.parents, s.memory.write p n v⟩ := by
  rw [executes_step h] at hstep
  split at hstep
  · rw [hop _ _ _ _ rfl] at hstep
    by_cases hlt : address < MAX_REGISTERS
    · by_cases hother : other < MAX_REGISTERS
      · by_cases hp : p = 0
        · simp [execStore, StackFrame.getRegister_of_lt _ hother,
            StackFrame.getRegister_of_lt _ hlt,
            haddress, checkedGetPtr, hp, bind, Except.bind, settle] at hstep
        · cases hencode : encode rt (s.frame.registers other) with
          | error e =>
            simp [execStore, StackFrame.getRegister_of_lt _ hother,
              StackFrame.getRegister_of_lt _ hlt, haddress, checkedGetPtr_pointer hp, hencode,
              bind, Except.bind, settle] at hstep
          | ok v =>
            simp [execStore, StackFrame.getRegister_of_lt _ hother,
              StackFrame.getRegister_of_lt _ hlt, haddress, checkedGetPtr_pointer hp, hencode,
              bind, Except.bind, settle, pure, Except.pure] at hstep
            exact ⟨v, hstep.symm⟩
      · simp [execStore, getRegister_of_not_lt _ hother, StackFrame.getRegister_of_lt _ hlt, bind,
          Except.bind, settle] at hstep
    · simp [execStore, getRegister_of_not_lt _ hlt, bind, Except.bind, settle] at hstep
  · cases hstep

theorem confined_load (h : LoadsBytes op n) (hextent : n ≤ extent) :
    Confined ⟨op, other, address, 0⟩ address extent := by
  obtain ⟨hn, decode, hop, -⟩ := h
  intro rt s t p hexec haddress hstep
  obtain ⟨-, rfl⟩ := (load_step hop hexec haddress).mp hstep
  refine ⟨fun q hq => absurd rfl hq, fun m u hagree hstep' => ?_⟩
  obtain ⟨-, rfl⟩ := (load_step hop (executes_memory hexec m) haddress).mp hstep'
  have hread : m.read p n = s.memory.read p n :=
    memory_read_congr (fun q hq => hagree q (by omega)) (by omega)
  change Function.update s.frame.registers other (decode rt (m.read p n)) = _
  rw [hread, registers_after]

theorem confined_store (h : StoresBytes op n) (hextent : n ≤ extent) :
    Confined ⟨op, address, other, 0⟩ address extent := by
  obtain ⟨hn, encode, hop, -⟩ := h
  intro rt s t p hexec haddress hstep
  obtain ⟨v, rfl⟩ := store_step hop hexec haddress hstep
  constructor
  · intro q hq
    by_contra hout
    exact hq (memory_write_other (by omega))
  · intro m u _ hstep'
    obtain ⟨v', rfl⟩ := store_step hop (executes_memory hexec m) haddress hstep'
    rfl

/-- A state with a pointer in the first register, and a value in the second. -/
def probe (i : Instruction) (m : Memory) (v : Variant) : VmState :=
  ⟨⟨some ⟨[i], []⟩, 0, 0, 0, Function.update (fun _ => v) 0 (.pointer 1)⟩, [], m⟩

theorem probe_executes (i : Instruction) (m : Memory) (v : Variant) :
    Executes (probe i m v) [i] [] := ⟨⟨[i], []⟩, rfl, List.prefix_rfl, List.prefix_rfl⟩

theorem toNat_sub_probe {k : ℕ} (hk : k < 2 ^ 64) :
    ((1 : Word) + BitVec.ofNat 64 k - 1).toNat = k := by
  rw [BitVec.add_comm, BitVec.add_sub_cancel, BitVec.toNat_ofNat, Nat.mod_eq_of_lt hk]

theorem le_of_confined_load (h : LoadsBytes op n)
    (hconfined : Confined ⟨op, 1, 0, 0⟩ 0 extent) : n ≤ extent := by
  by_contra hgt
  obtain ⟨hn, decode, hop, hinjective⟩ := h
  let i : Instruction := ⟨op, 1, 0, 0⟩
  let m : Memory := Function.update (fun _ => 0) (1 + BitVec.ofNat 64 extent) 1
  have hstart : ∀ m', (probe i m' .null).frame.registers 0 = .pointer 1 := fun _ => rfl
  have hstep (m' : Memory) : (virtualMachine bareRuntime).step (probe i m' .null) = .inl _ :=
    (load_step hop (probe_executes i m' .null) (hstart m')).mpr
      ⟨⟨Nat.zero_lt_succ _, by decide, by decide, by decide⟩, rfl⟩
  have hsame := (hconfined bareRuntime _ _ 1 (probe_executes i (fun _ => 0) .null) (hstart _)
    (hstep fun _ => 0)).2 m _ (fun q hq => ?_) (hstep m)
  · have hvalue := congrFun hsame 1
    rw [registers_after, registers_after, Function.update_self, Function.update_self] at hvalue
    have hread := hinjective _ _ (memory_read_lt _ _ _) (memory_read_lt _ _ _) hvalue
    have hbyte := memory_eq_of_read hread (by omega : extent < n)
    have hone : m (1 + BitVec.ofNat 64 extent) = 1 := Function.update_self _ _ _
    exact absurd (hone.symm.trans hbyte) (by decide : (1 : BitVec 8) ≠ 0)
  · apply Function.update_of_ne
    rintro rfl
    rw [toNat_sub_probe (by omega)] at hq
    exact absurd hq (Nat.lt_irrefl _)

theorem le_of_confined_store (h : StoresBytes op n)
    (hconfined : Confined ⟨op, 0, 1, 0⟩ 0 extent) : n ≤ extent := by
  by_contra hgt
  obtain ⟨hn, encode, hop, v, hv⟩ := h
  let s : VmState := probe ⟨op, 0, 1, 0⟩ (fun _ => 1) v
  have hexec : Executes s [⟨op, 0, 1, 0⟩] [] := probe_executes _ _ _
  have hstep : (virtualMachine bareRuntime).step s =
      .inl ⟨s.frame.advance, s.parents, s.memory.write 1 n 0⟩ := by
    rw [executes_step hexec, if_pos (show s.frame.pc < 1024 from Nat.zero_lt_succ _),
      hop _ _ _ _ rfl]
    change settle _ _ (encode bareRuntime v >>= _) = _
    rw [hv]
    rfl
  have hinside := (hconfined bareRuntime _ _ 1 hexec rfl hstep).1 (1 + BitVec.ofNat 64 extent)
  rw [toNat_sub_probe (by omega)] at hinside
  apply Nat.lt_irrefl extent
  apply hinside
  change s.memory.write 1 n 0 _ ≠ (1 : BitVec 8)
  rw [memory_write_inside (by rw [toNat_sub_probe (by omega)]; omega), Nat.zero_div]
  decide

end Confined

section Inside

variable {a : Access} {op : Opcode}

theorem staysInside_load (h : ∀ address other fn, a.instruction address other fn =
      .ok (some ⟨op, other, address, 0⟩, fn)) (hop : LoadsBytes op a.bytes) :
    StaysInside a ↔ a.bytes ≤ a.extent := by
  constructor
  · intro hinside
    apply le_of_confined_load hop
    exact hinside 0 1 (.new none) (.new none) _ (h 0 1 _)
  · intro hle address other fn fn' i hi
    rw [h] at hi
    cases hi
    exact confined_load hop hle

theorem staysInside_store (h : ∀ address other fn, a.instruction address other fn =
      .ok (some ⟨op, address, other, 0⟩, fn)) (hop : StoresBytes op a.bytes) :
    StaysInside a ↔ a.bytes ≤ a.extent := by
  constructor
  · intro hinside
    apply le_of_confined_store hop
    exact hinside 0 1 (.new none) (.new none) _ (h 0 1 _)
  · intro hle address other fn fn' i hi
    rw [h] at hi
    cases hi
    exact confined_store hop hle

theorem staysInside_nothing (h : ∀ address other fn fn' i, a.instruction address other fn ≠
      .ok (some i, fn')) (hbytes : a.bytes = 0) : StaysInside a ↔ a.bytes ≤ a.extent := by
  refine iff_of_true (fun address other fn fn' i hi => absurd hi (h _ _ _ _ _)) ?_
  rw [hbytes]
  exact Nat.zero_le _

theorem staysInside_scalar_load {type : SizedType}
    (h : ∀ address other, a.instruction address other = (do
      return some ⟨← loadOpcode type.toTypeDesc, other, address, 0⟩))
    (hbytes : a.bytes = Access.scalarBytes type) : StaysInside a ↔ a.bytes ≤ a.extent := by
  obtain ⟨op, hok, hop⟩ | ⟨hzero, herror⟩ := loadOpcode_cases type
  · refine staysInside_load (fun address other fn => ?_) (hbytes ▸ hop)
    rw [h, bind_of_ok (hok fn)]
    rfl
  · refine staysInside_nothing (fun address other fn fn' i => ?_) (hbytes.trans hzero)
    obtain ⟨e, he⟩ := herror fn
    rw [h, bind_of_error he]
    exact nofun

theorem staysInside_scalar_store {type : SizedType}
    (h : ∀ address other, a.instruction address other = (do
      return some ⟨← storeOpFor type.toTypeDesc, address, other, 0⟩))
    (hbytes : a.bytes = Access.scalarBytes type) : StaysInside a ↔ a.bytes ≤ a.extent := by
  obtain ⟨op, hok, hop⟩ | ⟨hzero, herror⟩ := storeOpFor_cases type
  · refine staysInside_store (fun address other fn => ?_) (hbytes ▸ hop)
    rw [h, bind_of_ok (hok fn)]
    rfl
  · refine staysInside_nothing (fun address other fn fn' i => ?_) (hbytes.trans hzero)
    obtain ⟨e, he⟩ := herror fn
    rw [h, bind_of_error he]
    exact nofun

theorem staysInside_set {type : SizedType}
    (h : ∀ address other, a.instruction address other = (do
      return some ⟨← setStoreOpcode type.toTypeDesc, address, other, 0⟩))
    (hbytes : a.bytes = if type.isReference then 8 else Access.scalarBytes type) :
    StaysInside a ↔ a.bytes ≤ a.extent := by
  unfold setStoreOpcode at h
  by_cases href : type.isReference = true
  · simp only [href, if_true] at h hbytes
    refine staysInside_store (fun address other fn => ?_) (?_ : StoresBytes .StorePointer _)
    · rw [h]
      rfl
    · rw [hbytes]
      exact storesBytes_pointer
  · simp only [href, Bool.false_eq_true, if_false] at h hbytes
    exact staysInside_scalar_store h hbytes

theorem staysInside_iff (a : Access) : StaysInside a ↔ a.bytes ≤ a.extent := by
  cases a with
  | field offset type isInline =>
    cases hclass : type.typeClass with
    | null =>
      apply staysInside_nothing
      · intro address other fn fn' i
        simp only [Access.instruction, hclass]
        exact nofun
      · simp only [Access.bytes, hclass]
    | value =>
      apply @staysInside_scalar_load _ type
      · intro address other
        simp only [Access.instruction, hclass]
      · simp only [Access.bytes, hclass]
    | reference =>
      cases isInline with
      | true =>
        apply staysInside_nothing
        · intro address other fn fn' i
          simp only [Access.instruction, hclass, if_true]
          exact nofun
        · simp only [Access.bytes, hclass, if_true]
      | false =>
        apply @staysInside_load _ .LoadPointer
        · intro address other fn
          simp only [Access.instruction, hclass, Bool.false_eq_true, if_false]
          rfl
        · simp only [Access.bytes, hclass, Bool.false_eq_true, if_false]
          exact loadsBytes_pointer
  | setField offset type isInline => exact staysInside_set (fun _ _ => rfl) rfl
  | setElement constIndex type => exact staysInside_set (fun _ _ => rfl) rfl
  | initField offset type scalar => exact staysInside_scalar_store (fun _ _ => rfl) rfl
  | initElement offset type scalar => exact staysInside_scalar_store (fun _ _ => rfl) rfl
  | element constIndex type =>
    by_cases href : type.isReference = true
    · apply staysInside_nothing
      · intro address other fn fn' i
        simp only [Access.instruction, href, if_true]
        exact nofun
      · simp only [Access.bytes, href, if_true]
    · apply @staysInside_scalar_load _ type
      · intro address other
        simp only [Access.instruction, href, Bool.false_eq_true, if_false]
      · simp only [Access.bytes, href, Bool.false_eq_true, if_false]

end Inside

/-- What is emitted for an access after its operands: the address, perhaps other code, and the
instruction there. -/
def Appends (a : Access) (base index : ℕ) (fn fn' : FunctionNode) : Prop :=
  ∃ address other fn₁ fn₂ between i, a.address base index fn = .ok (address, fn₁) ∧
    a.instruction address other fn₂ = .ok (i, fn₂) ∧
    fn'.instructions = fn₁.instructions ++ between ++ i.toList

section Emitters

variable {expr value : Emitter} {fn fn' : FunctionNode} {r : Option ℕ} {type : SizedType}

theorem pure_ok {α : Type} (x : α) (fn : FunctionNode) :
    (pure x : EmitM α) fn = .ok (x, fn) := rfl

theorem instruction_ok {x : EmitM Opcode} {op : Opcode} {fn₁ fn₂ : FunctionNode} (a b : ℕ)
    (hx : (∃ o, ∀ f, x f = .ok (o, f)) ∨ ∀ f, ∃ e, x f = .error e) (h : x fn₁ = .ok (op, fn₂)) :
    fn₂ = fn₁ ∧ (do return some ⟨← x, a, b, 0⟩ : EmitM (Option Instruction)) fn₁ =
      .ok (some ⟨op, a, b, 0⟩, fn₁) := by
  obtain ⟨o, ho⟩ | herror := hx
  · rw [ho] at h
    cases h
    refine ⟨rfl, ?_⟩
    rw [bind_of_ok (ho fn₁)]
    rfl
  · obtain ⟨e, he⟩ := herror fn₁
    rw [he] at h
    cases h

theorem loadOpcode_chosen (type : SizedType) :
    (∃ o, ∀ f, loadOpcode type.toTypeDesc f = .ok (o, f)) ∨
      ∀ f, ∃ e, loadOpcode type.toTypeDesc f = .error e :=
  (loadOpcode_cases type).imp (fun ⟨o, ho, _⟩ => ⟨o, ho⟩) And.right

theorem storeOpFor_chosen (type : SizedType) :
    (∃ o, ∀ f, storeOpFor type.toTypeDesc f = .ok (o, f)) ∨
      ∀ f, ∃ e, storeOpFor type.toTypeDesc f = .error e :=
  (storeOpFor_cases type).imp (fun ⟨o, ho, _⟩ => ⟨o, ho⟩) And.right

theorem setStoreOpcode_chosen (type : SizedType) :
    (∃ o, ∀ f, setStoreOpcode type.toTypeDesc f = .ok (o, f)) ∨
      ∀ f, ∃ e, setStoreOpcode type.toTypeDesc f = .error e := by
  unfold setStoreOpcode
  split
  · exact .inl ⟨.StorePointer, fun f => rfl⟩
  · exact storeOpFor_chosen type

theorem emitDerefLvalue_ok {address offset : ℕ}
    (h : emitDerefLvalue expr offset fn = .ok (address, fn')) :
    ∃ base fn₀, expr fn = .ok (some base, fn₀) ∧
      emitDerefLvalue (pure (some base)) offset fn₀ = .ok (address, fn') := by
  unfold emitDerefLvalue at h ⊢
  obtain ⟨_, fn₁, hexpr, h⟩ := bind_eq_ok.mp h
  obtain ⟨base, fn₂, hbase, h⟩ := bind_eq_ok.mp h
  obtain ⟨rfl, rfl⟩ := getTempReg_eq_ok.mp hbase
  refine ⟨base, fn₁, hexpr, ?_⟩
  rw [bind_of_ok (pure_ok (some base) fn₁), bind_of_ok (getTempReg_eq_ok.mpr ⟨rfl, rfl⟩)]
  exact h

theorem require_ok {P : Prop} [Decidable P] {e : EmitError} {u : Unit}
    (h : require P e fn = .ok (u, fn')) : P ∧ fn = fn' := by
  unfold require at h
  split at h
  · exact ⟨by assumption, (pure_eq_ok.mp h).2⟩
  · exact absurd h throw_ne_ok

theorem emitDeref_appends {offset : BitVec 32} {isInline : Bool}
    (h : emitDeref expr offset.toNat (some type.toTypeDesc) isInline fn = .ok (r, fn')) :
    ∃ base fn₀, expr fn = .ok (some base, fn₀) ∧
      Appends (.field offset type isInline) base 0 fn₀ fn' := by
  unfold emitDeref at h
  obtain ⟨address, fn₁, haddress, h⟩ := bind_eq_ok.mp h
  obtain ⟨base, fn₀, hexpr, haddress⟩ := emitDerefLvalue_ok haddress
  refine ⟨base, fn₀, hexpr, address, ?_⟩
  cases hclass : type.typeClass with
  | null =>
    simp only [hclass] at h
    exact absurd h throw_ne_ok
  | value =>
    simp only [hclass, bind_eq_ok, allocTempReg_eq_ok, addInstruction_eq_ok, pure_eq_ok] at h
    obtain ⟨dest, _, ⟨rfl, rfl⟩, op, fn₂, hop, _, _, rfl, -, rfl⟩ := h
    obtain ⟨rfl, hinstruction⟩ := instruction_ok fn₁.allocTempReg.1 address
      (loadOpcode_chosen type) hop
    refine ⟨fn₁.allocTempReg.1, fn₁, fn₁.allocTempReg.2, [], some ⟨op, fn₁.allocTempReg.1, address,
      0⟩, haddress, ?_, ?_⟩
    · simp only [Access.instruction, hclass]
      exact hinstruction
    · rw [List.append_nil]
      rfl
  | reference =>
    cases isInline with
    | true =>
      simp only [hclass, if_true, pure_eq_ok] at h
      obtain ⟨-, rfl⟩ := h
      refine ⟨0, fn₁, fn₁, [], none, haddress, ?_, by simp⟩
      simp only [Access.instruction, hclass, if_true]
      rfl
    | false =>
      simp only [hclass, Bool.false_eq_true, if_false, bind_eq_ok, allocTempReg_eq_ok,
        addInstruction_eq_ok, pure_eq_ok] at h
      obtain ⟨dest, _, ⟨rfl, rfl⟩, _, _, rfl, -, rfl⟩ := h
      refine ⟨fn₁.allocTempReg.1, fn₁, fn₁, [], some ⟨.LoadPointer, fn₁.allocTempReg.1, address, 0⟩,
        haddress, ?_, ?_⟩
      · simp only [Access.instruction, hclass, Bool.false_eq_true, if_false]
        rfl
      · rw [List.append_nil]
        rfl

theorem emitSetField_appends {offset : BitVec 32} (isInline : Bool)
    (h : emitSetField expr offset.toNat (some type.toTypeDesc) value fn = .ok (r, fn')) :
    ∃ other fn₀ base fn₁, value fn = .ok (some other, fn₀) ∧ expr fn₀ = .ok (some base, fn₁) ∧
      Appends (.setField offset type isInline) base 0 fn₁ fn' := by
  unfold emitSetField at h
  simp only [bind_eq_ok, getTempReg_eq_ok, addInstruction_eq_ok, pure_eq_ok] at h
  obtain ⟨_, fn₀, hvalue, other, _, ⟨rfl, rfl⟩, address, fn₂, haddress, op, fn₃, hop, _, _, rfl, -,
    rfl⟩ := h
  obtain ⟨base, fn₁, hexpr, haddress⟩ := emitDerefLvalue_ok haddress
  obtain ⟨rfl, hinstruction⟩ := instruction_ok address other (setStoreOpcode_chosen type) hop
  refine ⟨other, fn₀, base, fn₁, hvalue, hexpr, address, other, _, _, [], some _, haddress,
    hinstruction, ?_⟩
  rw [List.append_nil]
  rfl

theorem emitFieldInit_appends {newType : NewType} {base : ℕ} {name : String} {offset : BitVec 32}
    (scalar : type.isReference = false) (hname : ¬(name = "type" ∧ newType.isBasic))
    (hvalue : ∀ f r f', value f = .ok (r, f') → f.instructions <+: f'.instructions)
    (h : emitFieldInit newType base ⟨name, offset.toNat, some type.toTypeDesc⟩ value fn =
      .ok ((), fn')) : Appends (.initField offset type scalar) base 0 fn fn' := by
  unfold emitFieldInit at h
  rw [if_neg hname] at h
  simp only [scalar, Bool.false_eq_true, if_false, bind_eq_ok, getTempReg_eq_ok,
    allocTempReg_eq_ok, addInstruction_eq_ok] at h
  obtain ⟨_, _, ⟨rfl, rfl⟩, _, _, rfl, _, fn₁, hinit, other, _, ⟨rfl, rfl⟩, op, fn₂, hop, rfl⟩ := h
  obtain ⟨between, hbetween⟩ := hvalue _ _ _ hinit
  obtain ⟨rfl, hinstruction⟩ := instruction_ok fn.allocTempReg.1 other (storeOpFor_chosen type) hop
  refine ⟨fn.allocTempReg.1, other, _, fn₂, between, some _, rfl, hinstruction, ?_⟩
  exact congrArg (· ++ [(⟨op, fn.allocTempReg.1, other, 0⟩ : Instruction)]) hbetween.symm

theorem emitAtLvalue_ok {index : Emitter} {constIndex : Option I64} {address : ℕ} {t : TypeDesc}
    (h : emitAtLvalue expr index constIndex t fn = .ok (address, fn')) :
    ∃ base i fn₀, emitAtLvalue (pure (some base)) (pure (some i)) constIndex t fn₀ =
      .ok (address, fn') ∧ ∃ fn₁, expr fn = .ok (some base, fn₁) ∧
        if constIndex.isNone then index fn₁ = .ok (some i, fn₀) else fn₀ = fn₁ := by
  unfold emitAtLvalue at h ⊢
  obtain ⟨_, fn₁, hexpr, h⟩ := bind_eq_ok.mp h
  obtain ⟨base, fn₂, hbase, h⟩ := bind_eq_ok.mp h
  obtain ⟨rfl, rfl⟩ := getTempReg_eq_ok.mp hbase
  have hget (i : ℕ) (f : FunctionNode) : getTempReg (some i) f = .ok (i, f) := rfl
  obtain ⟨⟨⟩, fn₂, hrequire, h⟩ := bind_eq_ok.mp h
  obtain ⟨hsize, rfl⟩ := require_ok hrequire
  have hskip (f : FunctionNode) :
      require (0 < t.sizeInMemory) .invalidElementSize f = .ok ((), f) := by
    unfold require
    rw [if_pos hsize]
    rfl
  cases constIndex with
  | some c =>
    refine ⟨base, 0, fn₁, ?_, fn₁, hexpr, rfl⟩
    rw [bind_of_ok (pure_ok _ _), bind_of_ok (hget _ _), bind_of_ok (hskip _)]
    exact h
  | none =>
    obtain ⟨_, fn₃, hindex, h⟩ := bind_eq_ok.mp h
    obtain ⟨i, fn₄, hi, h⟩ := bind_eq_ok.mp h
    obtain ⟨rfl, rfl⟩ := getTempReg_eq_ok.mp hi
    refine ⟨base, i, fn₃, ?_, fn₁, hexpr, hindex⟩
    rw [bind_of_ok (pure_ok _ _), bind_of_ok (hget _ _), bind_of_ok (hskip _)]
    simp only
    rw [bind_of_ok (pure_ok _ _), bind_of_ok (hget _ _)]
    exact h

theorem emitAt_appends {index : Emitter} {constIndex : Option I64}
    (h : emitAt expr index constIndex (some type.toTypeDesc) fn = .ok (r, fn')) :
    ∃ base i fn₀, Appends (.element constIndex type) base i fn₀ fn' ∧
      ∃ fn₁, expr fn = .ok (some base, fn₁) ∧
        if constIndex.isNone then index fn₁ = .ok (some i, fn₀) else fn₀ = fn₁ := by
  unfold emitAt at h
  obtain ⟨address, fn₂, haddress, h⟩ := bind_eq_ok.mp h
  obtain ⟨base, i, fn₀, haddress, hoperands⟩ := emitAtLvalue_ok haddress
  refine ⟨base, i, fn₀, ⟨address, ?_⟩, hoperands⟩
  by_cases href : type.isReference = true
  · simp only [href, if_true, pure_eq_ok] at h
    obtain ⟨-, rfl⟩ := h
    refine ⟨0, fn₂, fn₂, [], none, haddress, ?_, by simp⟩
    simp only [Access.instruction, href, if_true]
    rfl
  · simp only [href, Bool.false_eq_true, if_false, bind_eq_ok, allocTempReg_eq_ok,
      addInstruction_eq_ok, pure_eq_ok] at h
    obtain ⟨op, fn₃, hop, dest, _, ⟨rfl, rfl⟩, _, _, rfl, -, rfl⟩ := h
    obtain ⟨rfl, hinstruction⟩ := instruction_ok fn₃.allocTempReg.1 address
      (loadOpcode_chosen type) hop
    refine ⟨fn₃.allocTempReg.1, fn₃, fn₃, [], some ⟨op, fn₃.allocTempReg.1, address, 0⟩, haddress,
      ?_, ?_⟩
    · simp only [Access.instruction, href, Bool.false_eq_true, if_false]
      exact hinstruction
    · rw [List.append_nil]
      rfl

theorem emitSetAt_appends {index : Emitter} {constIndex : Option I64}
    (h : emitSetAt expr index constIndex (some type.toTypeDesc) value fn = .ok (r, fn')) :
    ∃ other fn₂, value fn = .ok (some other, fn₂) ∧
      ∃ base i fn₀, Appends (.setElement constIndex type) base i fn₀ fn' ∧
        ∃ fn₁, expr fn₂ = .ok (some base, fn₁) ∧
          if constIndex.isNone then index fn₁ = .ok (some i, fn₀) else fn₀ = fn₁ := by
  unfold emitSetAt at h
  simp only [bind_eq_ok, getTempReg_eq_ok, addInstruction_eq_ok, pure_eq_ok] at h
  obtain ⟨_, fn₂, hvalue, other, _, ⟨rfl, rfl⟩, address, fn₃, haddress, op, fn₄, hop, _, _, rfl, -,
    rfl⟩ := h
  obtain ⟨base, i, fn₀, haddress, hoperands⟩ := emitAtLvalue_ok haddress
  obtain ⟨rfl, hinstruction⟩ := instruction_ok address other (setStoreOpcode_chosen type) hop
  refine ⟨other, fn₂, hvalue, base, i, fn₀, ⟨address, other, fn₄, fn₄, [], some _, haddress,
    hinstruction, ?_⟩, hoperands⟩
  rw [List.append_nil]
  rfl

theorem emitElementField_appends {base elemBase : ℕ} {name : String} {offset : ℕ}
    (scalar : type.isReference = false) (hlt : elemBase + offset < 2 ^ 64)
    (h : emitElementField base elemBase ⟨name, offset, some type.toTypeDesc⟩ (some value) fn =
      .ok ((), fn')) :
    ∃ other fn₀, value fn = .ok (some other, fn₀) ∧
      Appends (.initElement (BitVec.ofNat 64 (elemBase + offset)) type scalar) base 0 fn₀ fn' := by
  unfold emitElementField at h
  have hnat : (BitVec.ofNat 64 (elemBase + offset)).toNat = elemBase + offset := by
    rw [BitVec.toNat_ofNat, Nat.mod_eq_of_lt hlt]
  simp only [bind_eq_ok, getTempReg_eq_ok, addInstruction_eq_ok] at h
  obtain ⟨_, _, hrequire, _, fn₀, hvalue, other, _, ⟨rfl, rfl⟩, address, fn₁, haddress, op, fn₂,
    hop, rfl⟩ := h
  obtain ⟨-, rfl⟩ := require_ok hrequire
  obtain ⟨rfl, hinstruction⟩ := instruction_ok address other (storeOpFor_chosen type) hop
  refine ⟨other, fn₀, hvalue, address, other, fn₂, fn₂, [], some _, ?_, hinstruction, ?_⟩
  · change addOffset base _ fn₀ = _
    rw [hnat]
    exact haddress
  · rw [List.append_nil]
    rfl

theorem emitScalarElements_appends {base i : ℕ} {es : List Emitter} {op : Opcode}
    (scalar : type.isReference = false) (hlt : i * type.sizeInMemory < 2 ^ 64)
    (hop : storeOpFor type.toTypeDesc fn = .ok (op, fn))
    (h : emitScalarElements base type.sizeInMemory op i (value :: es) fn = .ok ((), fn')) :
    ∃ other fn₀ fn₁, value fn = .ok (some other, fn₀) ∧
      Appends (.initElement (BitVec.ofNat 64 (i * type.sizeInMemory)) type scalar) base 0 fn₀ fn₁ ∧
      emitScalarElements base type.sizeInMemory op (i + 1) es fn₁ = .ok ((), fn') := by
  unfold emitScalarElements at h
  have hnat : (BitVec.ofNat 64 (i * type.sizeInMemory)).toNat = i * type.sizeInMemory := by
    rw [BitVec.toNat_ofNat, Nat.mod_eq_of_lt hlt]
  simp only [bind_eq_ok, getTempReg_eq_ok, addInstruction_eq_ok] at h
  obtain ⟨_, fn₀, hvalue, other, _, ⟨rfl, rfl⟩, address, fn₁, haddress, _, _, rfl, h⟩ := h
  obtain ⟨-, hinstruction⟩ := instruction_ok address other (storeOpFor_chosen type) hop
  refine ⟨other, fn₀, _, hvalue, ⟨address, other, fn₁, fn, [], some _, ?_, hinstruction, ?_⟩, h⟩
  · change addOffset base _ fn₀ = _
    rw [hnat]
    exact haddress
  · rw [List.append_nil]
    rfl

end Emitters

end Soot.Analysis
