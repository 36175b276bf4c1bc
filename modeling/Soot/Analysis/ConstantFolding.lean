import Soot.Analysis.BodyCorrect
import Soot.Computation.Wrapping
import Soot.Model.ConstantMeaning

/-!
# Folded constants and their code

The folder computes the exact value of an arithmetic tree. The code of the same tree, as the
body of a function, computes that value exactly when the tree lies within the machine: it
needs no more registers than a frame has, and the precision of the virtual machine is enough
at every operation. A quotient by `2 ^ 32 + 1` shows that the second condition is needed.
-/

set_option autoImplicit false

namespace Soot.Analysis

open Soot.Program Soot.Computation Soot.Model

variable {regs : ℕ → Variant} {op : BinaryOp} {dbl : DoubleUnit}

/-! ## The folder -/

/-- The value of a literal. -/
def literalValue : ConstNode → Option Variant
  | .int v => some (.int v)
  | .float b => some (.float b)
  | .string _ => none

theorem toInt_eq_zero_iff {b : I64} : b.toInt = 0 ↔ b = 0 := by
  constructor
  · intro h
    exact BitVec.eq_of_toInt_eq h
  · rintro rfl
    rfl

theorem overflows_iff {a b : I64} :
    (a.toInt = -2 ^ 63 ∧ b.toInt = -1) ↔ (a = BitVec.intMin 64 ∧ b = -1) := by
  constructor
  · rintro ⟨ha, hb⟩
    exact ⟨BitVec.eq_of_toInt_eq (ha.trans (by decide)),
      BitVec.eq_of_toInt_eq (hb.trans (by decide))⟩
  · rintro ⟨rfl, rfl⟩
    exact ⟨by decide, by decide⟩

theorem toInt_sdiv {a b : I64} (h : ¬ (a = BitVec.intMin 64 ∧ b = -1)) :
    (a.sdiv b).toInt = a.toInt.tdiv b.toInt :=
  BitVec.toInt_sdiv_of_ne_or_ne a b (by
    by_contra hboth
    push Not at hboth
    exact h hboth)

theorem foldInt_bind (op : BinaryOp) (a b : I64) :
    (foldInt op a b).bind literalValue =
      (exactInt op a.toInt b.toInt).map fun z => .int (BitVec.ofInt 64 z) := by
  have hdiv : ¬ (b = 0 ∨ (a = BitVec.intMin 64 ∧ b = -1)) →
      a.sdiv b = BitVec.ofInt 64 (a.toInt.tdiv b.toInt) := by
    intro hdefined
    apply BitVec.eq_of_toInt_eq
    rw [← toInt_sdiv fun hover => hdefined (.inr hover), BitVec.ofInt_toInt]
  have hmod : a.srem b = BitVec.ofInt 64 (a.toInt.tmod b.toInt) := by
    rw [← BitVec.toInt_srem, BitVec.ofInt_toInt]
  cases op with
  | ADD => simp [foldInt, exactInt, literalValue, BitVec.ofInt_add]
  | SUB =>
    have hsub : a - b = BitVec.ofInt 64 (a.toInt - b.toInt) := by
      apply BitVec.eq_of_toInt_eq
      simp
    simp [foldInt, exactInt, literalValue, hsub]
  | MUL => simp [foldInt, exactInt, literalValue, BitVec.ofInt_mul]
  | DIV =>
    simp only [foldInt, exactInt, toInt_eq_zero_iff, overflows_iff]
    by_cases h : b = 0 ∨ (a = BitVec.intMin 64 ∧ b = -1)
    · rw [if_pos h]
      rcases h with h | h
      · simp [h]
      · simp [h]
    · rw [if_neg h, if_neg (fun h0 => h (Or.inl h0)), if_neg (fun h0 => h (Or.inr h0))]
      simp [literalValue, hdiv h]
  | MOD =>
    simp only [foldInt, exactInt, toInt_eq_zero_iff, overflows_iff]
    by_cases h : b = 0 ∨ (a = BitVec.intMin 64 ∧ b = -1)
    · rw [if_pos h]
      rcases h with h | h
      · simp [h]
      · simp [h]
    · rw [if_neg h, if_neg (fun h0 => h (Or.inl h0)), if_neg (fun h0 => h (Or.inr h0))]
      simp [literalValue, hmod]

theorem foldFloat_bind (dbl : DoubleUnit) (op : BinaryOp) (a b : BitVec 64) :
    (foldFloat dbl op a b).bind literalValue = (exactFloat dbl op a b).map .float := by
  cases op with
  | DIV =>
    simp only [foldFloat, exactFloat]
    split
    · rfl
    · rfl
  | _ => rfl

theorem tryFoldConst_bind (dbl : DoubleUnit) {n : Node} (hn : Arithmetic n) :
    (tryFoldConst dbl n).bind literalValue = exactValue dbl n := by
  induction hn with
  | constInt v => rfl
  | constFloat b => rfl
  | @binaryNode op l r _ _ ihl ihr =>
    simp only [tryFoldConst, exactValue, ← ihl, ← ihr]
    cases tryFoldConst dbl l with
    | none => rfl
    | some c =>
      cases tryFoldConst dbl r with
      | none => cases c <;> rfl
      | some d =>
        cases c with
        | int a =>
          cases d with
          | int b => exact foldInt_bind op a b
          | float b => rfl
          | string t => rfl
        | float a =>
          cases d with
          | int b => rfl
          | float b => exact foldFloat_bind dbl op a b
          | string t => rfl
        | string t => cases d <;> rfl

/-! ## One instruction -/

def lowDivisor (b : I64) : I64 := (b.truncate 32 : BitVec 32).signExtend 64

/-- Dividing by the low 32 bits of the divisor is defined and gives what dividing by the
divisor gives. -/
def DivisorFits (op : I64 → I64 → I64) (a b : I64) : Prop :=
  lowDivisor b ≠ 0 ∧ ¬ (a = BitVec.intMin 64 ∧ lowDivisor b = -1) ∧ op a (lowDivisor b) = op a b

/-- What an arithmetic instruction leaves in its destination, which was null: nothing where
the machine stops. -/
def machineDivision (op : I64 → I64 → I64) (a b : I64) : Option Variant :=
  if lowDivisor b = 0 then some .null
  else if a = BitVec.intMin 64 ∧ lowDivisor b = -1 then none
  else some (.int (op a (lowDivisor b)))

@[inherit_doc machineDivision]
def machineFloat (fpu : FloatUnit) (op : BinaryOp) (a b : BitVec 32) : Variant :=
  match op with
  | .ADD => .ofF32 fpu (fpu.add a b)
  | .SUB => .ofF32 fpu (fpu.sub a b)
  | .MUL => .ofF32 fpu (fpu.mul a b)
  | .DIV => if fpu.isZero b then .null else .ofF32 fpu (fpu.div a b)
  | .MOD => .ofF32 fpu (fpu.fmod a b)

@[inherit_doc machineDivision]
def machineOperation (fpu : FloatUnit) (op : BinaryOp) : Variant → Variant → Option Variant
  | .int a, .int b =>
    match op with
    | .ADD => some (.int (a + b))
    | .SUB => some (.int (a - b))
    | .MUL => some (.int (a * b))
    | .DIV => machineDivision BitVec.sdiv a b
    | .MOD => machineDivision BitVec.srem a b
  | .float a, .float b => some (machineFloat fpu op (fpu.narrow a) (fpu.narrow b))
  | _, _ => none

theorem lowDivisor_eq_zero {b : I64} : lowDivisor b = 0 ↔ (b.truncate 32 : BitVec 32) = 0 := by
  unfold lowDivisor
  constructor
  · intro h
    apply BitVec.eq_of_toInt_eq
    rw [← BitVec.toInt_signExtend_of_le (v := 64) (by decide), h]
    rfl
  · intro h
    rw [h]
    rfl

theorem lowDivisor_eq_neg_one {b : I64} :
    lowDivisor b = -1 ↔ (b.truncate 32 : BitVec 32) = -1 := by
  unfold lowDivisor
  constructor
  · intro h
    apply BitVec.eq_of_toInt_eq
    rw [← BitVec.toInt_signExtend_of_le (v := 64) (by decide), h]
    rfl
  · intro h
    rw [h]
    rfl

section Exec

variable {rt : Runtime} {m : Memory} {f : StackFrame} {i : Instruction}

theorem put_same {r : ℕ} {v : Variant} (h : f.registers r = v) : f.put r v = f := by
  subst h
  simp [StackFrame.put]

theorem exec_machineDivision {op : I64 → I64 → I64} {x y : I64} (ha : i.a < 34) (hb : i.b < 34)
    (hc : i.c < 34) (hx : f.registers i.b = .int x) (hy : f.registers i.c = .int y)
    (hnull : f.registers i.a = .null) :
    execDivision rt m f i op =
      .ok ((machineDivision op x y).elim .undefined fun v => .continue (f.put i.a v) m) := by
  unfold execDivision machineDivision
  rw [f.getRegister_of_lt ha, f.getRegister_of_lt hb, f.getRegister_of_lt hc, hx, hy]
  simp only [bind, Except.bind, Variant.toInt, lowDivisor_eq_zero, lowDivisor_eq_neg_one]
  by_cases hzero : (y.truncate 32 : BitVec 32) = 0
  · simp only [if_pos hzero, Option.elim, put_same hnull]
    rfl
  · by_cases hover : x = BitVec.intMin 64 ∧ (y.truncate 32 : BitVec 32) = -1
    · simp only [if_neg hzero, if_pos hover, Option.elim]
      rfl
    · simp only [if_neg hzero, if_neg hover, Option.elim]
      rfl

theorem exec_machineFDiv {x y : BitVec 64} (ha : i.a < 34) (hb : i.b < 34) (hc : i.c < 34)
    (hx : f.registers i.b = .float x) (hy : f.registers i.c = .float y)
    (hnull : f.registers i.a = .null) :
    execFDiv rt m f i =
      .ok (.continue
        (f.put i.a (machineFloat rt.fpu .DIV (rt.fpu.narrow x) (rt.fpu.narrow y))) m) := by
  unfold execFDiv machineFloat
  rw [f.getRegister_of_lt ha, f.getRegister_of_lt hb, f.getRegister_of_lt hc, hx, hy]
  simp only [bind, Except.bind, Variant.toFloat]
  by_cases hzero : rt.fpu.isZero (rt.fpu.narrow y) = true
  · simp only [hzero, if_true, put_same hnull]
    rfl
  · simp only [hzero]
    rfl

/-- **an arithmetic instruction on operands of one kind** stores its result in the
destination, or stops the machine without a value. -/
theorem exec_machineOperation {isFloat : Bool} {a b c : ℕ} {x y : Variant}
    (ha : a < 34) (hb : b < 34) (hc : c < 34) (hx : f.registers b = x) (hy : f.registers c = y)
    (hnull : f.registers a = .null)
    (hkind : (∃ p q, x = .int p ∧ y = .int q ∧ isFloat = false) ∨
      ∃ p q, x = .float p ∧ y = .float q ∧ isFloat = true) :
    exec rt m f ⟨op.opcode isFloat, a, b, c⟩ =
      .ok ((machineOperation rt.fpu op x y).elim .undefined fun v =>
        .continue (f.put a v) m) := by
  obtain ⟨p, q, rfl, rfl, rfl⟩ | ⟨p, q, rfl, rfl, rfl⟩ := hkind
  · cases op with
    | ADD =>
      refine (exec_iAdd (i := ⟨.IAdd, a, b, c⟩) ha hb hc).trans ?_
      simp only [hx, hy]
      rfl
    | SUB =>
      refine (exec_binaryInt (i := ⟨.ISub, a, b, c⟩) ha hb hc).trans ?_
      simp only [hx, hy]
      rfl
    | MUL =>
      refine (exec_binaryInt (i := ⟨.IMul, a, b, c⟩) ha hb hc).trans ?_
      simp only [hx, hy]
      rfl
    | DIV => exact exec_machineDivision (i := ⟨.IDiv, a, b, c⟩) ha hb hc hx hy hnull
    | MOD => exact exec_machineDivision (i := ⟨.IMod, a, b, c⟩) ha hb hc hx hy hnull
  · cases op with
    | ADD =>
      refine (exec_binaryFloat (i := ⟨.FAdd, a, b, c⟩) ha hb hc).trans ?_
      simp only [hx, hy]
      rfl
    | SUB =>
      refine (exec_binaryFloat (i := ⟨.FSub, a, b, c⟩) ha hb hc).trans ?_
      simp only [hx, hy]
      rfl
    | MUL =>
      refine (exec_binaryFloat (i := ⟨.FMul, a, b, c⟩) ha hb hc).trans ?_
      simp only [hx, hy]
      rfl
    | DIV => exact exec_machineFDiv (i := ⟨.FDiv, a, b, c⟩) ha hb hc hx hy hnull
    | MOD =>
      refine (exec_binaryFloat (i := ⟨.FMod, a, b, c⟩) ha hb hc).trans ?_
      simp only [hx, hy]
      rfl

end Exec

theorem machineDivision_eq_iff {op : I64 → I64 → I64} {a b : I64} :
    machineDivision op a b = some (.int (op a b)) ↔ DivisorFits op a b := by
  unfold machineDivision DivisorFits
  by_cases hzero : lowDivisor b = 0
  · simp [hzero]
  · by_cases hover : a = BitVec.intMin 64 ∧ lowDivisor b = -1
    · rw [if_neg hzero, if_pos hover]
      simp only [reduceCtorEq, false_iff]
      intro h
      exact h.2.1 hover
    · rw [if_neg hzero, if_neg hover]
      simp only [Option.some.injEq, Variant.int.injEq]
      exact ⟨fun h => ⟨hzero, hover, h⟩, fun h => h.2.2⟩

theorem toInt_lowDivisor (b : I64) : (lowDivisor b).toInt = narrowed b.toInt :=
  toInt_signExtend_truncate (by decide) b

theorem dividesWord_iff {a b : I64} :
    DividesWord a.toInt (narrowed b.toInt) ↔
      lowDivisor b ≠ 0 ∧ ¬ (a = BitVec.intMin 64 ∧ lowDivisor b = -1) := by
  rw [DividesWord, ← toInt_lowDivisor, overflows_iff, ne_eq, toInt_eq_zero_iff]

theorem no_overflow {a b : I64} (h : ¬ (a = BitVec.intMin 64 ∧ lowDivisor b = -1)) :
    ¬ (a = BitVec.intMin 64 ∧ b = -1) := by
  rintro ⟨ha, rfl⟩
  exact h ⟨ha, by decide⟩

theorem divisorFits_sdiv_iff {a b : I64} :
    DivisorFits BitVec.sdiv a b ↔ QuotientFits a.toInt b.toInt := by
  rw [DivisorFits, QuotientFits, dividesWord_iff, and_assoc]
  refine and_congr_right fun hzero => and_congr_right fun hover => ?_
  rw [← BitVec.toInt_inj, toInt_sdiv hover, toInt_sdiv (no_overflow hover), toInt_lowDivisor]
  refine tdiv_bmod_eq_iff (by decide) fun h => hzero ?_
  rw [← toInt_eq_zero_iff, toInt_lowDivisor]
  exact h

theorem divisorFits_srem_iff {a b : I64} :
    DivisorFits BitVec.srem a b ↔ RemainderFits a.toInt b.toInt := by
  rw [DivisorFits, RemainderFits, dividesWord_iff, and_assoc]
  refine and_congr_right fun hzero => and_congr_right fun _ => ?_
  rw [← BitVec.toInt_inj, BitVec.toInt_srem, BitVec.toInt_srem, toInt_lowDivisor]
  refine tmod_bmod_eq_iff (by decide) fun h => hzero ?_
  rw [← toInt_eq_zero_iff, toInt_lowDivisor]
  exact h

/-- An integer operation on words. -/
def wordOperation : BinaryOp → I64 → I64 → I64
  | .ADD, a, b => a + b
  | .SUB, a, b => a - b
  | .MUL, a, b => a * b
  | .DIV, a, b => a.sdiv b
  | .MOD, a, b => a.srem b

theorem exactInt_eq_some {a b : I64} {v : Variant}
    (hv : exactOperation dbl op (.int a) (.int b) = some v) :
    v = .int (wordOperation op a b) := by
  have hfold : (foldInt op a b).bind literalValue = some v := (foldInt_bind op a b).trans hv
  obtain ⟨c, hc, hlit⟩ := Option.bind_eq_some_iff.mp hfold
  cases op with
  | ADD =>
    cases hc
    exact (Option.some.inj hlit).symm
  | SUB =>
    cases hc
    exact (Option.some.inj hlit).symm
  | MUL =>
    cases hc
    exact (Option.some.inj hlit).symm
  | DIV =>
    simp only [foldInt, Option.ite_none_left_eq_some, Option.some.injEq] at hc
    obtain ⟨-, -, rfl⟩ := hc
    exact (Option.some.inj hlit).symm
  | MOD =>
    simp only [foldInt, Option.ite_none_left_eq_some, Option.some.injEq] at hc
    obtain ⟨-, -, rfl⟩ := hc
    exact (Option.some.inj hlit).symm

theorem machineFloat_eq_iff {fpu : FloatUnit}
    {a b r : BitVec 64} (hr : exactFloat dbl op a b = some r) :
    machineFloat fpu op (fpu.narrow a) (fpu.narrow b) = .float r ↔
      SinglePrecisionFits fpu dbl op a b := by
  cases op with
  | ADD =>
    cases hr
    simp [machineFloat, SinglePrecisionFits, Variant.ofF32]
  | SUB =>
    cases hr
    simp [machineFloat, SinglePrecisionFits, Variant.ofF32]
  | MUL =>
    cases hr
    simp [machineFloat, SinglePrecisionFits, Variant.ofF32]
  | DIV =>
    simp only [exactFloat, Option.ite_none_left_eq_some, Option.some.injEq] at hr
    obtain ⟨-, rfl⟩ := hr
    simp only [machineFloat, SinglePrecisionFits]
    cases hzero : fpu.isZero (fpu.narrow b) with
    | true => simp
    | false => simp [Variant.ofF32]
  | MOD => cases hr

theorem machineOperation_eq_iff {fpu : FloatUnit}
    {x y v : Variant} (hv : exactOperation dbl op x y = some v) :
    machineOperation fpu op x y = some v ↔ PrecisionSuffices fpu dbl op x y := by
  cases x with
  | int a =>
    cases y with
    | int b =>
      obtain rfl := exactInt_eq_some hv
      cases op with
      | DIV => exact machineDivision_eq_iff.trans divisorFits_sdiv_iff
      | MOD => exact machineDivision_eq_iff.trans divisorFits_srem_iff
      | _ => simp [machineOperation, PrecisionSuffices, wordOperation]
    | _ => cases hv
  | float a =>
    cases y with
    | float b =>
      obtain ⟨r, hr, rfl⟩ := Option.map_eq_some_iff.mp hv
      simp only [machineOperation, PrecisionSuffices, Option.some.injEq]
      exact machineFloat_eq_iff hr
    | _ => cases hv
  | _ => cases hv

/-! ## The code of a tree -/

/-- The opcodes of arithmetic trees. -/
inductive ArithmeticOpcode : Opcode → Prop
  | loadInt : ArithmeticOpcode .LoadStaticI64Imm
  | loadFloat : ArithmeticOpcode .LoadStaticFloatImm
  | operation (op : BinaryOp) (isFloat : Bool) : ArithmeticOpcode (op.opcode isFloat)

/-- A function without variables was extended by `k` arithmetic instructions, each with a
temporary of its own. -/
structure Straight (k : ℕ) (s t : FunctionNode) : Prop where
  extends_ : Extends s t
  temps : t.nextTempReg = s.nextTempReg + k
  branches : t.unresolvedBranches = s.unresolvedBranches
  length : t.instructions.length = s.instructions.length + k
  code : ∀ i < k, ∃ ins, t.instructions[s.instructions.length + i]? = some ins ∧
    ArithmeticOpcode ins.opcode ∧ ins.a = u8 (s.nextTempReg + i)

variable {s t u : FunctionNode}

theorem Straight.trans {j k : ℕ} (h₁ : Straight j s t) (h₂ : Straight k t u) :
    Straight (j + k) s u where
  extends_ := h₁.extends_.trans h₂.extends_
  temps := by
    rw [h₂.temps, h₁.temps]
    omega
  branches := h₂.branches.trans h₁.branches
  length := by
    rw [h₂.length, h₁.length]
    omega
  code := by
    intro i hi
    by_cases hlt : i < j
    · obtain ⟨ins, hget, hop, ha⟩ := h₁.code i hlt
      refine ⟨ins, ?_, hop, ha⟩
      obtain ⟨rest, hrest⟩ := h₂.extends_.instructions
      rw [← hrest, List.getElem?_append_left (List.getElem?_eq_some_iff.mp hget).1, hget]
    · obtain ⟨ins, hget, hop, ha⟩ := h₂.code (i - j) (by omega)
      refine ⟨ins, ?_, hop, ?_⟩
      · rw [← hget, h₁.length]
        congr 1
        omega
      · rw [ha, h₁.temps]
        congr 1
        omega

theorem Straight.push {op : Opcode} (hop : ArithmeticOpcode op) {ins : Instruction}
    (hext : Extends s (u.pushInstruction ins)) (hins : ins.opcode = op)
    (ha : ins.a = u8 s.nextTempReg) (htemps : u.nextTempReg = s.nextTempReg + 1)
    (hbranches : u.unresolvedBranches = s.unresolvedBranches)
    (hcode : u.instructions = s.instructions) : Straight 1 s (u.pushInstruction ins) where
  extends_ := hext
  temps := htemps
  branches := hbranches
  length := by simp [FunctionNode.pushInstruction, hcode]
  code := by
    intro i hi
    obtain rfl : i = 0 := by omega
    refine ⟨ins, ?_, by rw [hins]; exact hop, ha⟩
    simp [FunctionNode.pushInstruction, hcode]

theorem Straight.load (hvars : s.variableInfos = []) {op : Opcode} (hop : ArithmeticOpcode op)
    (v : Word) (k : ConstKind) : Straight 1 s (pushLoad s op v k) := by
  have hsame : (s.addConstant v k).2.instructions = s.instructions ∧
      (s.addConstant v k).2.unresolvedBranches = s.unresolvedBranches ∧
      (s.addConstant v k).2.variableInfos = s.variableInfos ∧
      (s.addConstant v k).2.nextTempReg = s.nextTempReg := by
    unfold FunctionNode.addConstant
    split <;> exact ⟨rfl, rfl, rfl, rfl⟩
  obtain ⟨hcode, hbranches, hinfos, htemps⟩ := hsame
  refine Straight.push hop (Extends.load s op v k) rfl ?_ ?_ hbranches hcode
  · simp [FunctionNode.allocTempReg, hinfos, hvars, htemps, u8]
  · simp [FunctionNode.allocTempReg, htemps]

theorem Straight.operation (hvars : s.variableInfos = []) {op : Opcode}
    (hop : ArithmeticOpcode op) (b c : ℕ) :
    Straight 1 s (s.allocTempReg.2.pushInstruction ⟨op, s.allocTempReg.1, b, c⟩) := by
  refine Straight.push hop (Extends.allocPush s _) rfl ?_ rfl rfl rfl
  simp [FunctionNode.allocTempReg, hvars, u8]

theorem nodeCount_pos (n : Node) : 0 < nodeCount n := by
  cases n with
  | binaryNode op l r => exact Nat.succ_pos _
  | _ => exact Nat.one_pos

theorem pushLoad_reg (hvars : s.variableInfos = []) (v : Word) (k : ConstKind) :
    (s.addConstant v k).2.allocTempReg.1 = u8 s.nextTempReg := by
  unfold FunctionNode.addConstant
  split <;> simp [FunctionNode.allocTempReg, hvars, u8]

/-- The state after the operands and the operation of a binary node were emitted, in a
function without variables. -/
def pushOperation (op : Opcode) (leftReg rightReg : ℕ) (t : FunctionNode) : FunctionNode :=
  t.allocTempReg.2.pushInstruction ⟨op, t.allocTempReg.1, leftReg, rightReg⟩

theorem emit_binary_eq_ok (op : BinaryOp) {l r : Node} {a b : ℕ}
    (hl : emit l s = .ok (some a, t)) (hr : emit r t = .ok (some b, u)) :
    emit (.binaryNode op l r) s =
      .ok (some u.allocTempReg.1, pushOperation (op.opcode l.isFloat) a b u) := by
  refine bind_eq_ok.mpr ⟨_, t, hl, bind_eq_ok.mpr ⟨_, u, hr, ?_⟩⟩
  refine bind_eq_ok.mpr ⟨_, u, getTempReg_eq_ok.mpr ⟨rfl, rfl⟩, ?_⟩
  refine bind_eq_ok.mpr ⟨_, u, getTempReg_eq_ok.mpr ⟨rfl, rfl⟩, ?_⟩
  refine bind_eq_ok.mpr ⟨_, _, allocTempReg_eq_ok.mpr ⟨rfl, rfl⟩, ?_⟩
  exact bind_eq_ok.mpr ⟨(), _, addInstruction_eq_ok.mpr rfl, pure_eq_ok.mpr ⟨rfl, rfl⟩⟩

theorem allocTempReg_fst_of_novars (hvars : s.variableInfos = []) :
    s.allocTempReg.1 = u8 s.nextTempReg := by
  simp [FunctionNode.allocTempReg, hvars, u8]

theorem emit_straight {n : Node} (hn : Arithmetic n) (hvars : s.variableInfos = []) :
    ∃ t, emit n s = .ok (some (u8 (t.nextTempReg - 1)), t) ∧ Straight (nodeCount n) s t := by
  induction hn generalizing s with
  | constInt v =>
    have hs := Straight.load hvars .loadInt v .INT
    refine ⟨_, map_eq_ok.mpr ⟨_, loadConstant_eq_ok.mpr ⟨rfl, rfl⟩, ?_⟩, hs⟩
    rw [pushLoad_reg hvars, hs.temps, Nat.add_sub_cancel]
  | constFloat b =>
    have hs := Straight.load hvars .loadFloat b .FLOAT
    refine ⟨_, map_eq_ok.mpr ⟨_, loadConstant_eq_ok.mpr ⟨rfl, rfl⟩, ?_⟩, hs⟩
    rw [pushLoad_reg hvars, hs.temps, Nat.add_sub_cancel]
  | @binaryNode op l r _ _ ihl ihr =>
    obtain ⟨t₁, hl, hs₁⟩ := ihl hvars
    have hvars₁ : t₁.variableInfos = [] := hs₁.extends_.variableInfos.trans hvars
    obtain ⟨t₂, hr, hs₂⟩ := ihr hvars₁
    have hvars₂ : t₂.variableInfos = [] := hs₂.extends_.variableInfos.trans hvars₁
    have hs₃ := Straight.operation hvars₂ (.operation op l.isFloat) (u8 (t₁.nextTempReg - 1))
      (u8 (t₂.nextTempReg - 1))
    refine ⟨_, ?_, (hs₁.trans hs₂).trans hs₃⟩
    rw [hs₃.temps, Nat.add_sub_cancel, ← allocTempReg_fst_of_novars hvars₂]
    exact emit_binary_eq_ok _ hl hr

/-! ## Running the code -/

theorem exactValue_kind {n : Node} (hn : Arithmetic n) {v : Variant}
    (hv : exactValue dbl n = some v) :
    (∃ p, v = .int p ∧ n.isFloat = false) ∨ ∃ p, v = .float p ∧ n.isFloat = true := by
  induction hn generalizing v with
  | constInt w =>
    cases hv
    exact Or.inl ⟨w, rfl, rfl⟩
  | constFloat b =>
    cases hv
    exact Or.inr ⟨b, rfl, rfl⟩
  | @binaryNode op l r _ _ ihl ihr =>
    have hkind : (Node.binaryNode op l r).isFloat = l.isFloat := by
      simp only [Node.isFloat, Node.typeName]
      by_cases hl : l.typeName = some "float"
      · simp [hl]
      · simp [hl]
    rw [hkind]
    obtain ⟨x, hx, hrest⟩ := Option.bind_eq_some_iff.mp hv
    obtain ⟨y, hy, hop⟩ := Option.bind_eq_some_iff.mp hrest
    rcases ihl hx with ⟨p, rfl, hp⟩ | ⟨p, rfl, hp⟩
    · cases y with
      | int q =>
        obtain ⟨z, -, rfl⟩ := Option.map_eq_some_iff.mp hop
        exact Or.inl ⟨_, rfl, hp⟩
      | _ => cases hop
    · cases y with
      | float q =>
        obtain ⟨z, -, rfl⟩ := Option.map_eq_some_iff.mp hop
        exact Or.inr ⟨_, rfl, hp⟩
      | _ => cases hop

theorem exactOperation_kind {l : Node} (hl : Arithmetic l)
    {x y v : Variant} (hx : exactValue dbl l = some x) (hv : exactOperation dbl op x y = some v) :
    (∃ p q, x = .int p ∧ y = .int q ∧ l.isFloat = false) ∨
      ∃ p q, x = .float p ∧ y = .float q ∧ l.isFloat = true := by
  rcases exactValue_kind hl hx with ⟨p, rfl, hp⟩ | ⟨p, rfl, hp⟩
  · cases y with
    | int q => exact Or.inl ⟨p, q, rfl, rfl, hp⟩
    | _ => cases hv
  · cases y with
    | float q => exact Or.inr ⟨p, q, rfl, rfl, hp⟩
    | _ => cases hv

/-- The code and the constants of a function under emission are in place where the machine
runs. -/
structure InPlace (S : Site) (t : FunctionNode) : Prop where
  code : t.instructions <+: S.lambda.code
  symbols : t.constants <+: S.lambda.symbols
  registers : t.nextTempReg ≤ 34
  fetch : t.instructions.length ≤ S.bound

theorem InPlace.of_extends {S : Site} (ht : InPlace S t) (h : Extends s t) : InPlace S s where
  code := h.instructions.trans ht.code
  symbols := h.constants.trans ht.symbols
  registers := Nat.le_trans h.temps ht.registers
  fetch := Nat.le_trans h.instructions.length_le ht.fetch

/-- The registers from `k` on are null. -/
def NullFrom (k : ℕ) (regs : ℕ → Variant) : Prop := ∀ j, k ≤ j → regs j = .null

/-- The machine gets from the code of `s` to the end of the code of `t` with `v` in the last
temporary, the earlier ones unchanged and the later ones still null. -/
def Computed (rt : Runtime) (S : Site) (s t : FunctionNode) (regs : ℕ → Variant) (v : Variant) :
    Prop :=
  ∃ k regs', (S.machine rt).Reaches k (S.at s.instructions.length regs)
      (S.at t.instructions.length regs') ∧
    regs' (t.nextTempReg - 1) = v ∧ (∀ j < s.nextTempReg, regs' j = regs j) ∧
    NullFrom t.nextTempReg regs'

variable {rt : Runtime} {S : Site} {dbl : DoubleUnit}

theorem NullFrom.update {k : ℕ} (h : NullFrom k regs) (v : Variant) :
    NullFrom (k + 1) (Function.update regs k v) := by
  intro j hj
  rw [Function.update_of_ne (by omega)]
  apply h
  omega

theorem InPlace.pushed {ins : Instruction} (ht : InPlace S (u.pushInstruction ins)) :
    S.lambda.code[u.instructions.length]? = some ins := by
  obtain ⟨rest, hrest⟩ := ht.code
  rw [← hrest]
  simp [FunctionNode.pushInstruction]

theorem computed_load (decode : Word → Variant) {op : Opcode} {v : Word} {k : ConstKind}
    (hop : ArithmeticOpcode op)
    (hdecode : ∀ m f i, i.opcode = op → exec rt m f i = execStatic m f i decode)
    (hvars : s.variableInfos = []) (ht : InPlace S (pushLoad s op v k))
    (hpool : s.constants.length ≤ s.nextTempReg) (hnull : NullFrom s.nextTempReg regs) :
    Computed rt S s (pushLoad s op v k) regs (decode v) := by
  have hs := Straight.load hvars hop v k
  have htemps : s.nextTempReg + 1 ≤ 34 := hs.temps ▸ ht.registers
  have hfetch : s.instructions.length + 1 ≤ S.bound := hs.length ▸ ht.fetch
  obtain ⟨hconst, hidx⟩ := addConstant_spec s v k (by omega)
  have hreg : (s.addConstant v k).2.allocTempReg.1 = s.nextTempReg := by
    rw [pushLoad_reg hvars, u8_of_lt (by omega)]
  have hcode : (s.addConstant v k).2.allocTempReg.2.instructions.length =
      s.instructions.length := by
    unfold FunctionNode.addConstant
    split <;> rfl
  have hi := InPlace.pushed ht
  rw [hcode, hreg] at hi
  have hsymbol : S.lambda.symbols[(s.addConstant v k).1]? = some v := by
    obtain ⟨rest, hrest⟩ := ht.symbols
    rw [← hrest]
    exact (List.getElem?_append_left (List.getElem?_eq_some_iff.mp hconst).1).trans hconst
  have hstep : (S.machine rt).step (S.at s.instructions.length regs) =
      S.store (s.instructions.length + 1) regs s.nextTempReg (.ok (decode v)) := by
    refine step_store hi (by omega) ?_
    have hget : (S.at (s.instructions.length + 1) regs).frame.getRegister s.nextTempReg =
        .ok (regs s.nextTempReg) := StackFrame.getRegister_of_lt _ (by simp [MAX_REGISTERS]; omega)
    have hsym : (S.at (s.instructions.length + 1) regs).frame.symbol
        ((s.addConstant v k).1 % 256) = some v := by
      rw [Nat.mod_eq_of_lt hidx]
      exact hsymbol
    rw [hdecode _ _ _ rfl]
    unfold execStatic
    simp only [Instruction.setImm16, hget, hsym, bind, Except.bind, pure, Except.pure, Except.map]
  refine ⟨1, Function.update regs s.nextTempReg (decode v), ?_, ?_, ?_, ?_⟩
  · rw [hs.length]
    exact Machine.Reaches.single hstep
  · rw [hs.temps, Nat.add_sub_cancel, Function.update_self]
  · intro j hj
    exact Function.update_of_ne (by omega) _ _
  · rw [hs.temps]
    exact hnull.update _

theorem step_operation (rt : Runtime) (op : BinaryOp) {isFloat : Bool} {b c : ℕ} {x y : Variant}
    (hvars : u.variableInfos = [])
    (ht : InPlace S (pushOperation (op.opcode isFloat) b c u)) (hb : b < 34) (hc : c < 34)
    (hx : regs b = x) (hy : regs c = y) (hnull : NullFrom u.nextTempReg regs)
    (hkind : (∃ p q, x = .int p ∧ y = .int q ∧ isFloat = false) ∨
      ∃ p q, x = .float p ∧ y = .float q ∧ isFloat = true) :
    (S.machine rt).step (S.at u.instructions.length regs) =
      match machineOperation rt.fpu op x y with
      | some v => .inl (S.at (u.instructions.length + 1)
          (Function.update regs u.nextTempReg v))
      | none => .inr .undefined := by
  have htemps : u.nextTempReg + 1 ≤ 34 := ht.registers
  have hfetch : u.instructions.length + 1 ≤ S.bound := by
    have h := ht.fetch
    simpa [pushOperation, FunctionNode.pushInstruction, FunctionNode.allocTempReg] using h
  have hi : S.lambda.code[u.instructions.length]? =
      some ⟨op.opcode isFloat, u.nextTempReg, b, c⟩ := by
    have h := InPlace.pushed ht
    rw [allocTempReg_fst_of_novars hvars, u8_of_lt (by omega)] at h
    exact h
  have hdest : (S.at (u.instructions.length + 1) regs).frame.registers u.nextTempReg = .null :=
    hnull _ (Nat.le_refl _)
  rw [step_at hi (by omega), exec_machineOperation (by omega) hb hc hx hy hdest hkind]
  cases machineOperation rt.fpu op x y with
  | none => rfl
  | some v => rfl

theorem computed_operands {l : Node} {x y : Variant} {s t u : FunctionNode}
    (hs₁ : Straight (nodeCount l) s t)
    (hl : Computed rt S s t regs x)
    (hr : ∀ regs', NullFrom t.nextTempReg regs' → Computed rt S t u regs' y) :
    ∃ k regs', (S.machine rt).Reaches k (S.at s.instructions.length regs)
        (S.at u.instructions.length regs') ∧
      regs' (t.nextTempReg - 1) = x ∧ regs' (u.nextTempReg - 1) = y ∧
      (∀ j < s.nextTempReg, regs' j = regs j) ∧ NullFrom u.nextTempReg regs' := by
  obtain ⟨k₁, regs₁, hreach₁, hx, hkeep₁, hnull₁⟩ := hl
  obtain ⟨k₂, regs₂, hreach₂, hy, hkeep₂, hnull₂⟩ := hr regs₁ hnull₁
  have hpos : 0 < nodeCount l := nodeCount_pos l
  have htemps : t.nextTempReg = s.nextTempReg + nodeCount l := hs₁.temps
  refine ⟨k₁ + k₂, regs₂, hreach₁.trans hreach₂, ?_, hy, ?_, hnull₂⟩
  · rw [hkeep₂ _ (by omega), hx]
  · intro j hj
    rw [hkeep₂ _ (by omega), hkeep₁ _ hj]

/-- Wherever the code of a tree is in place, it computes the value. -/
def ComputedBy (rt : Runtime) (S : Site) (n : Node) (v : Variant) : Prop :=
  ∀ ⦃s t : FunctionNode⦄ ⦃r : Option ℕ⦄ ⦃regs : ℕ → Variant⦄, s.variableInfos = [] →
    emit n s = .ok (r, t) → InPlace S t → s.constants.length ≤ s.nextTempReg →
      NullFrom s.nextTempReg regs → Computed rt S s t regs v

theorem reaches_operation {l r : Node} (hl : Arithmetic l) (hr : Arithmetic r)
    {x y v : Variant} (hx : exactValue dbl l = some x)
    (hop : exactOperation dbl op x y = some v) (hcl : ComputedBy rt S l x)
    (hcr : ComputedBy rt S r y) {res : Option ℕ}
    (hvars : s.variableInfos = []) (hemit : emit (.binaryNode op l r) s = .ok (res, t))
    (ht : InPlace S t) (hpool : s.constants.length ≤ s.nextTempReg)
    (hnull : NullFrom s.nextTempReg regs) :
    ∃ k pc regs', (S.machine rt).Reaches k (S.at s.instructions.length regs)
        (S.at pc regs') ∧
      (S.machine rt).step (S.at pc regs') =
        (match machineOperation rt.fpu op x y with
        | some w => .inl (S.at t.instructions.length
            (Function.update regs' (t.nextTempReg - 1) w))
        | none => .inr .undefined) ∧
      (∀ j < s.nextTempReg, regs' j = regs j) ∧ NullFrom (t.nextTempReg - 1) regs' := by
  obtain ⟨t₁, hemit₁, hs₁⟩ := emit_straight hl hvars
  have hvars₁ : t₁.variableInfos = [] := hs₁.extends_.variableInfos.trans hvars
  obtain ⟨t₂, hemit₂, hs₂⟩ := emit_straight hr hvars₁
  have hvars₂ : t₂.variableInfos = [] := hs₂.extends_.variableInfos.trans hvars₁
  have hwhole := emit_binary_eq_ok op hemit₁ hemit₂
  rw [hwhole] at hemit
  cases hemit
  have hs₃ := Straight.operation hvars₂ (.operation op l.isFloat) (u8 (t₁.nextTempReg - 1))
    (u8 (t₂.nextTempReg - 1))
  have ht₂ : InPlace S t₂ := ht.of_extends hs₃.extends_
  have ht₁ : InPlace S t₁ := ht₂.of_extends hs₂.extends_
  have hpool₁ : t₁.constants.length ≤ t₁.nextTempReg := by
    have h := hs₁.extends_.pool
    omega
  obtain ⟨k, regs', hreach, hrx, hry, hkeep, hnull'⟩ :=
    computed_operands hs₁ (hcl hvars hemit₁ ht₁ hpool hnull)
      fun regs₁ hnull₁ => hcr hvars₁ hemit₂ ht₂ hpool₁ hnull₁
  have hle : t₁.nextTempReg ≤ t₂.nextTempReg := hs₂.extends_.temps
  have h34 : t₂.nextTempReg ≤ 34 := ht₂.registers
  have hpos : 0 < t₁.nextTempReg := by
    have h := nodeCount_pos l
    have h' := hs₁.temps
    omega
  have hstep := step_operation rt op hvars₂ ht
    (by rw [u8_of_lt (by omega)]; omega) (by rw [u8_of_lt (by omega)]; omega)
    (by rw [u8_of_lt (by omega)]; exact hrx) (by rw [u8_of_lt (by omega)]; exact hry) hnull'
    (exactOperation_kind hl hx hop)
  have hend := hs₃.length
  have htemps := hs₃.temps
  refine ⟨k, t₂.instructions.length, regs', hreach, ?_, hkeep, ?_⟩
  · unfold pushOperation
    rw [hend, htemps, Nat.add_sub_cancel]
    exact hstep
  · unfold pushOperation
    rw [htemps, Nat.add_sub_cancel]
    exact hnull'

theorem computed_tree {n : Node} (hn : Arithmetic n) (hwithin : WithinMachine rt.fpu dbl n)
    {v : Variant} (hv : exactValue dbl n = some v) : ComputedBy rt S n v := by
  induction hn generalizing v with
  | constInt w =>
    intro s t r regs hvars hemit ht hpool hnull
    cases hv
    obtain ⟨reg, hload, -⟩ := map_eq_ok.mp hemit
    obtain ⟨-, rfl⟩ := loadConstant_eq_ok.mp hload
    refine computed_load .int .loadInt ?_ hvars ht hpool hnull
    intro m f i hi
    simp [exec, hi]
  | constFloat b =>
    intro s t r regs hvars hemit ht hpool hnull
    cases hv
    obtain ⟨reg, hload, -⟩ := map_eq_ok.mp hemit
    obtain ⟨-, rfl⟩ := loadConstant_eq_ok.mp hload
    refine computed_load .float .loadFloat ?_ hvars ht hpool hnull
    intro m f i hi
    simp [exec, hi]
  | @binaryNode op l r hl hr ihl ihr =>
    intro s t res regs hvars hemit ht hpool hnull
    obtain ⟨x, hx, hrest⟩ := Option.bind_eq_some_iff.mp hv
    obtain ⟨y, hy, hop⟩ := Option.bind_eq_some_iff.mp hrest
    obtain ⟨hwl, hwr, hhere⟩ := hwithin
    obtain ⟨-, hsuffices⟩ := hhere x y hx hy (by rw [hop]; exact Option.some_ne_none v)
    obtain ⟨k, pc, regs', hreach, hstep, hkeep, hnull'⟩ :=
      reaches_operation hl hr hx hop (ihl hwl hx) (ihr hwr hy) hvars hemit ht hpool hnull
    rw [(machineOperation_eq_iff hop).mpr hsuffices] at hstep
    obtain ⟨t', hemit', hs⟩ := emit_straight (.binaryNode op hl hr) hvars
    obtain rfl : t' = t := by
      rw [hemit'] at hemit
      cases hemit
      rfl
    have htemps := hs.temps
    have hpos := nodeCount_pos (.binaryNode op l r)
    refine ⟨k + 1, Function.update regs' (t'.nextTempReg - 1) v, hreach.tail hstep,
      Function.update_self .., ?_, ?_⟩
    · intro j hj
      rw [Function.update_of_ne (by omega), hkeep j hj]
    · have h := hnull'.update v
      rwa [Nat.sub_add_cancel (by omega)] at h

/-! ## Bodies -/

/-- A function without variables, before its body is emitted. -/
def bodyStart (strings : Option StringPool) : FunctionNode := (FunctionNode.new strings).beginBody

/-- The tree, emitted as the body of a function of its own and called, returns the value. -/
def BodyReturns (rt : Runtime) (strings : Option StringPool) (memory : Memory) (n : Node)
    (v : Variant) : Prop :=
  ∃ fn' frame, (FunctionNode.new strings).emitBody n = .ok fn' ∧
    (virtualMachine rt).HaltsWith
      ⟨entryFrame ⟨fn'.instructions, fn'.constants⟩ [], [], memory⟩ (.returned v frame)

theorem arithmeticOpcode_ne_return {op : Opcode} (h : ArithmeticOpcode op) : op ≠ .Return := by
  cases h with
  | loadInt => decide
  | loadFloat => decide
  | operation op isFloat => exact opcode_ne_return isFloat |>.1 op

theorem emitBody_straight (strings : Option StringPool) {n : Node} (hn : Arithmetic n) :
    ∃ t fn', (FunctionNode.new strings).emitBody n = .ok fn' ∧
      emit n (bodyStart strings) = .ok (some (u8 (t.nextTempReg - 1)), t) ∧
      Straight (nodeCount n) (bodyStart strings) t ∧
      fn'.instructions = t.instructions ++ [⟨.Return, u8 (t.nextTempReg - 1), 0, 0⟩] ∧
      fn'.constants = t.constants := by
  obtain ⟨t, hemit, hs⟩ := emit_straight (s := bodyStart strings) hn rfl
  have hpos := nodeCount_pos n
  have hlast : t.instructions.getLast?.map Instruction.opcode ≠ some .Return := by
    obtain ⟨ins, hget, hop, -⟩ := hs.code (nodeCount n - 1) (by omega)
    have hidx : (bodyStart strings).instructions.length + (nodeCount n - 1) =
        t.instructions.length - 1 := by
      have h := hs.length
      omega
    rw [List.getLast?_eq_getElem?, ← hidx, hget]
    simpa using arithmeticOpcode_ne_return hop
  have happend : t.appendReturn (some (u8 (t.nextTempReg - 1))) =
      t.pushInstruction ⟨.Return, u8 (t.nextTempReg - 1), 0, 0⟩ := if_neg hlast
  refine ⟨t, (t.appendReturn (some (u8 (t.nextTempReg - 1)))).resolveBranches, ?_, hemit, hs, ?_,
    ?_⟩
  · unfold FunctionNode.emitBody
    unfold bodyStart at hemit
    rw [hemit]
    rfl
  · rw [happend]
    have hbranches : t.unresolvedBranches = [] := hs.branches
    simp [FunctionNode.resolveBranches, FunctionNode.pushInstruction, hbranches]
  · rw [happend]
    rfl

/-- A way to halt other than by returning a value. -/
def NoValue (h : Halt) : Prop := ∀ v frame, h ≠ .returned v frame

section Overflow

variable {m : Memory} {f : StackFrame} {i : Instruction}

/-- What an arithmetic instruction asks of the loop: to go on with other registers, or to stop
without a value; and to stop where its destination is not a register. -/
def PlainEffect (m : Memory) (f : StackFrame) (i : Instruction) (e : Except VmErrorKind Effect) :
    Prop :=
  (∃ kind, e = .error kind) ∨
    i.a < 34 ∧ (e = .ok .undefined ∨ ∃ regs, e = .ok (.continue { f with registers := regs } m))

theorem PlainEffect.of_getRegister {k : Variant → Except VmErrorKind Effect}
    (h : i.a < 34 → ∀ v, PlainEffect m f i (k v)) :
    PlainEffect m f i (f.getRegister i.a >>= k) := by
  by_cases ha : i.a < 34
  · rw [f.getRegister_of_lt ha]
    exact h ha _
  · have hget : f.getRegister i.a = .error .NativeError := if_neg ha
    rw [hget]
    exact Or.inl ⟨_, rfl⟩

theorem PlainEffect.bind {α : Type} {x : Except VmErrorKind α}
    {k : α → Except VmErrorKind Effect} (h : ∀ v, PlainEffect m f i (k v)) :
    PlainEffect m f i (x >>= k) := by
  cases x with
  | error e => exact Or.inl ⟨e, rfl⟩
  | ok v => exact h v

theorem PlainEffect.put (ha : i.a < 34) (v : Variant) :
    PlainEffect m f i (.ok (.continue (f.put i.a v) m)) :=
  Or.inr ⟨ha, Or.inr ⟨_, rfl⟩⟩

theorem PlainEffect.same (ha : i.a < 34) : PlainEffect m f i (.ok (.continue f m)) :=
  Or.inr ⟨ha, Or.inr ⟨f.registers, rfl⟩⟩

theorem plain_binaryInt {rt : Runtime} (op : I64 → I64 → Variant) :
    PlainEffect m f i (execBinaryInt rt m f i op) :=
  .of_getRegister fun ha _ => .bind fun _ => .bind fun _ => .bind fun _ => .bind fun _ =>
    .put ha _

theorem plain_binaryFloat {rt : Runtime} (op : BitVec 32 → BitVec 32 → Variant) :
    PlainEffect m f i (execBinaryFloat rt m f i op) :=
  .of_getRegister fun ha _ => .bind fun _ => .bind fun _ => .bind fun _ => .bind fun _ =>
    .put ha _

theorem plain_iAdd {rt : Runtime} : PlainEffect m f i (execIAdd rt m f i) := by
  refine .of_getRegister fun ha _ => .bind fun x => .bind fun y => ?_
  split
  · exact .put ha _
  · exact .put ha _
  · exact .bind fun _ => .bind fun _ => .put ha _

theorem plain_division {rt : Runtime} (op : I64 → I64 → I64) :
    PlainEffect m f i (execDivision rt m f i op) := by
  refine .of_getRegister fun ha _ => .bind fun x => .bind fun y => .bind fun d => ?_
  dsimp only
  split
  · exact .same ha
  · refine .bind fun n => ?_
    split
    · exact Or.inr ⟨ha, Or.inl rfl⟩
    · exact .put ha _

theorem plain_fDiv {rt : Runtime} : PlainEffect m f i (execFDiv rt m f i) := by
  refine .of_getRegister fun ha _ => .bind fun x => .bind fun y => .bind fun d => ?_
  split
  · exact .same ha
  · exact .bind fun n => .put ha _

theorem plain_static (decode : BitVec 64 → Variant) :
    PlainEffect m f i (execStatic m f i decode) := by
  refine .of_getRegister fun ha _ => ?_
  split
  · exact Or.inr ⟨ha, Or.inl rfl⟩
  · exact .put ha _

theorem plain_arithmetic (rt : Runtime) (hop : ArithmeticOpcode i.opcode) :
    PlainEffect m f i (exec rt m f i) := by
  obtain ⟨o, a, b, c⟩ := i
  obtain rfl | rfl | ⟨op, isFloat, rfl⟩ : o = .LoadStaticI64Imm ∨ o = .LoadStaticFloatImm ∨
      ∃ op isFloat, o = BinaryOp.opcode isFloat op := by
    cases hop with
    | loadInt => exact Or.inl rfl
    | loadFloat => exact Or.inr (Or.inl rfl)
    | operation op isFloat => exact Or.inr (Or.inr ⟨op, isFloat, rfl⟩)
  · exact plain_static _
  · exact plain_static _
  · cases op <;> cases isFloat
    · exact plain_iAdd
    · exact plain_binaryFloat _
    · exact plain_binaryInt _
    · exact plain_binaryFloat _
    · exact plain_binaryInt _
    · exact plain_binaryFloat _
    · exact plain_division _
    · exact plain_fDiv
    · exact plain_division _
    · exact plain_binaryFloat _

end Overflow

theorem step_straight (rt : Runtime) (regs : ℕ → Variant) {i : Instruction} {pc : ℕ}
    (hi : S.lambda.code[pc]? = some i) (hpc : pc < S.bound) (hop : ArithmeticOpcode i.opcode) :
    (i.a < 34 ∧ ∃ regs', (S.machine rt).step (S.at pc regs) = .inl (S.at (pc + 1) regs')) ∨
      ∃ h, (S.machine rt).step (S.at pc regs) = .inr h ∧ NoValue h := by
  rw [step_at hi hpc]
  rcases plain_arithmetic rt (m := S.memory) (f := (S.at (pc + 1) regs).frame) hop with
    ⟨kind, he⟩ | ⟨ha, he | ⟨regs', he⟩⟩
  · rw [he]
    exact Or.inr ⟨.failed kind, rfl, by simp [NoValue]⟩
  · rw [he]
    exact Or.inr ⟨.undefined, rfl, by simp [NoValue]⟩
  · rw [he]
    exact Or.inl ⟨ha, regs', rfl⟩

/-- **straight code with more temporaries than registers never returns**: it stops at
the first instruction whose destination does not exist, or earlier. -/
theorem straight_fails (rt : Runtime) {k : ℕ} (hs : Straight k s t) (hstart : s.instructions = [])
    (htemps : s.nextTempReg = 0) (hk : 34 < k) (hcode : t.instructions <+: S.lambda.code)
    (hbound : 34 < S.bound) (regs : ℕ → Variant) :
    ∃ h, (S.machine rt).HaltsWith (S.at 0 regs) h ∧ NoValue h := by
  have hfetch : ∀ j < k, ∃ i, S.lambda.code[j]? = some i ∧ ArithmeticOpcode i.opcode ∧
      i.a = u8 j := by
    intro j hj
    obtain ⟨i, hget, hop, ha⟩ := hs.code j hj
    rw [hstart, List.length_nil, Nat.zero_add] at hget
    rw [htemps, Nat.zero_add] at ha
    obtain ⟨rest, hrest⟩ := hcode
    refine ⟨i, ?_, hop, ha⟩
    rw [← hrest, List.getElem?_append_left (List.getElem?_eq_some_iff.mp hget).1, hget]
  have hrun : ∀ j ≤ 34, (∃ regs', (S.machine rt).Reaches j (S.at 0 regs) (S.at j regs')) ∨
      ∃ h, (S.machine rt).HaltsWith (S.at 0 regs) h ∧ NoValue h := by
    intro j
    induction j with
    | zero =>
      intro _
      exact Or.inl ⟨regs, Machine.Reaches.refl _⟩
    | succ j ih =>
      intro hj
      rcases ih (by omega) with ⟨regs', hreach⟩ | hhalt
      · obtain ⟨i, hi, hop, -⟩ := hfetch j (by omega)
        rcases step_straight rt regs' hi (by omega) hop with
          ⟨-, regs'', hstep⟩ | ⟨h, hstep, hno⟩
        · exact Or.inl ⟨regs'', hreach.tail hstep⟩
        · exact Or.inr ⟨h, hreach.haltsWith (Machine.HaltsWith.single hstep), hno⟩
      · exact Or.inr hhalt
  rcases hrun 34 (Nat.le_refl _) with ⟨regs', hreach⟩ | hhalt
  · obtain ⟨i, hi, hop, ha⟩ := hfetch 34 hk
    rcases step_straight rt regs' hi (by omega) hop with
      ⟨hlt, -⟩ | ⟨h, hstep, hno⟩
    · rw [ha, u8_of_lt (by omega)] at hlt
      omega
    · exact ⟨h, hreach.haltsWith (Machine.HaltsWith.single hstep), hno⟩
  · exact hhalt

theorem entry_eq (fn' : FunctionNode) (memory : Memory) :
    (⟨entryFrame ⟨fn'.instructions, fn'.constants⟩ [], [], memory⟩ : VmState) =
      (bodySite fn' 0 memory).at 0 fun _ => .null := by
  simp [entryFrame, bodySite, Site.at]

theorem haltsWith_return (rt : Runtime) (memory : Memory) (regs : ℕ → Variant)
    {fn' : FunctionNode} {pc r : ℕ} (hi : fn'.instructions[pc]? = some ⟨.Return, r, 0, 0⟩)
    (hpc : pc < 1024) (hr : r < 34) :
    ∃ frame, (virtualMachine rt).HaltsWith ((bodySite fn' 0 memory).at pc regs)
      (.returned (regs r) frame) := by
  have hstep : (virtualMachine rt).step ((bodySite fn' 0 memory).at pc regs) = _ :=
    step_at (S := bodySite fn' 0 memory) hi hpc
  have hget : ((bodySite fn' 0 memory).at (pc + 1) regs).frame.getRegister r = .ok (regs r) :=
    StackFrame.getRegister_of_lt _ hr
  have hexec : exec rt memory ((bodySite fn' 0 memory).at (pc + 1) regs).frame
      ⟨.Return, r, 0, 0⟩ = .ok (.leave (regs r)) := by
    simp [exec, hget, bind, Except.bind, pure, Except.pure]
  exact ⟨_, Machine.HaltsWith.single (hstep.trans (congrArg _ hexec))⟩

section Body

variable {strings : Option StringPool} {memory : Memory} {n : Node} {v w : Variant}

theorem haltsWith_computed {fn' : FunctionNode}
    (hcomp : Computed rt (bodySite fn' 0 memory) s t regs v)
    (hcode : fn'.instructions = t.instructions ++ [⟨.Return, u8 (t.nextTempReg - 1), 0, 0⟩])
    (htemps : t.nextTempReg ≤ 34) (hlen : t.instructions.length < 1024) :
    ∃ frame, (virtualMachine rt).HaltsWith
      ((bodySite fn' 0 memory).at s.instructions.length regs) (.returned v frame) := by
  obtain ⟨k, regs', hreach, hv, -, -⟩ := hcomp
  have hi : fn'.instructions[t.instructions.length]? =
      some ⟨.Return, u8 (t.nextTempReg - 1), 0, 0⟩ := by
    rw [hcode]
    simp
  obtain ⟨frame, hhalts⟩ := haltsWith_return rt memory regs' hi hlen
    (by rw [u8_of_lt (by omega)]; omega)
  rw [u8_of_lt (by omega), hv] at hhalts
  exact ⟨frame, hreach.haltsWith hhalts⟩

theorem BodyReturns.unique (hv : BodyReturns rt strings memory n v)
    (hw : BodyReturns rt strings memory n w) : v = w := by
  obtain ⟨fn₁, frame₁, hfn₁, h₁⟩ := hv
  obtain ⟨fn₂, frame₂, hfn₂, h₂⟩ := hw
  rw [hfn₁] at hfn₂
  cases hfn₂
  cases h₁.unique h₂
  rfl

theorem nodeCount_le_of_bodyReturns (hn : Arithmetic n)
    (hv : BodyReturns rt strings memory n v) : nodeCount n ≤ 34 := by
  by_contra hlarge
  obtain ⟨fn₁, frame, hfn₁, hhalts⟩ := hv
  obtain ⟨t, fn', hfn', -, hs, hcode, -⟩ := emitBody_straight strings hn
  rw [hfn₁] at hfn'
  cases hfn'
  rw [entry_eq] at hhalts
  have hkeep : t.instructions <+: (bodySite fn₁ 0 memory).lambda.code :=
    ⟨_, hcode.symm⟩
  obtain ⟨h, hhalts', hno⟩ := straight_fails rt hs rfl rfl (by omega) hkeep
    (show 34 < StackFrame.codeSize by decide) (fun _ => .null)
  exact hno v frame (hhalts'.unique hhalts)

theorem inPlace_body (memory : Memory) {fn' : FunctionNode}
    (hs : Straight (nodeCount n) (bodyStart strings) t)
    (hcount : nodeCount n ≤ 34)
    (hcode : fn'.instructions = t.instructions ++ [⟨.Return, u8 (t.nextTempReg - 1), 0, 0⟩])
    (hconst : fn'.constants = t.constants) : InPlace (bodySite fn' 0 memory) t := by
  have hlen : t.instructions.length = 0 + nodeCount n := hs.length
  have htemps : t.nextTempReg = 0 + nodeCount n := hs.temps
  have hbound : (bodySite fn' 0 memory).bound = 1024 := rfl
  refine ⟨⟨_, hcode.symm⟩, ?_, by omega, by omega⟩
  have hkeep : t.constants <+: t.constants := List.prefix_rfl
  exact hconst ▸ hkeep

theorem bodyReturns_of_within (hn : Arithmetic n) (hwithin : WithinMachine rt.fpu dbl n)
    (hcount : nodeCount n ≤ 34) (hv : exactValue dbl n = some v) :
    BodyReturns rt strings memory n v := by
  obtain ⟨t, fn', hfn', hemit, hs, hcode, hconst⟩ := emitBody_straight strings hn
  have hplace := inPlace_body memory hs hcount hcode hconst
  have hcomp := computed_tree hn hwithin hv rfl hemit hplace
    (Nat.le_refl _) fun _ _ => rfl
  have hlen : t.instructions.length = 0 + nodeCount n := hs.length
  obtain ⟨frame, hhalts⟩ := haltsWith_computed hcomp hcode hplace.registers (by omega)
  refine ⟨fn', frame, hfn', ?_⟩
  rw [entry_eq]
  exact hhalts

theorem machineOperation_of_bodyReturns {l r : Node} (hl : Arithmetic l)
    (hr : Arithmetic r) (hwl : WithinMachine rt.fpu dbl l) (hwr : WithinMachine rt.fpu dbl r)
    {x y : Variant} (hx : exactValue dbl l = some x) (hy : exactValue dbl r = some y)
    (hop : exactOperation dbl op x y = some v)
    (hv : BodyReturns rt strings memory (.binaryNode op l r) v) :
    machineOperation rt.fpu op x y = some v := by
  have hn : Arithmetic (.binaryNode op l r) := .binaryNode op hl hr
  have hcount := nodeCount_le_of_bodyReturns hn hv
  obtain ⟨fn₁, frame, hfn₁, hhalts⟩ := hv
  obtain ⟨t, fn', hfn', hemit, hs, hcode, hconst⟩ := emitBody_straight strings hn
  rw [hfn₁] at hfn'
  cases hfn'
  rw [entry_eq] at hhalts
  have hplace := inPlace_body memory hs hcount hcode hconst
  have hlen : t.instructions.length = 0 + nodeCount (.binaryNode op l r) := hs.length
  have htemps : t.nextTempReg = 0 + nodeCount (.binaryNode op l r) := hs.temps
  have hpos := nodeCount_pos (.binaryNode op l r)
  obtain ⟨k, pc, regs', hreach, hstep, -, -⟩ :=
    reaches_operation hl hr hx hop (computed_tree hl hwl hx)
      (computed_tree hr hwr hy) rfl hemit hplace (Nat.le_refl _) fun _ _ => rfl
  cases hmachine : machineOperation rt.fpu op x y with
  | none =>
    rw [hmachine] at hstep
    cases (hreach.haltsWith (Machine.HaltsWith.single hstep)).unique hhalts
  | some w =>
    rw [hmachine] at hstep
    have hi : fn₁.instructions[t.instructions.length]? =
        some ⟨.Return, u8 (t.nextTempReg - 1), 0, 0⟩ := by
      rw [hcode]
      simp
    obtain ⟨frame', hreturn⟩ := haltsWith_return rt memory
      (Function.update regs' (t.nextTempReg - 1) w) hi (by omega)
      (by rw [u8_of_lt (by omega)]; omega)
    rw [u8_of_lt (by omega), Function.update_self] at hreturn
    cases ((hreach.tail hstep).haltsWith hreturn).unique hhalts
    rfl

end Body

/-! ## The folder and the machine -/

/-- The value of an arithmetic tree that the folder replaces by a literal is the value its code
returns. -/
def FoldsFaithfully (rt : Runtime) (dbl : DoubleUnit) (strings : Option StringPool)
    (memory : Memory) (n : Node) : Prop :=
  ∀ c v, tryFoldConst dbl n = some c → literalValue c = some v →
    BodyReturns rt strings memory n v

theorem foldsFaithfully_iff_exact {strings : Option StringPool} {memory : Memory} {n : Node}
    (hn : Arithmetic n) :
    FoldsFaithfully rt dbl strings memory n ↔
      ∀ v, exactValue dbl n = some v → BodyReturns rt strings memory n v := by
  rw [← tryFoldConst_bind dbl hn]
  constructor
  · intro h v hv
    obtain ⟨c, hc, hlit⟩ := Option.bind_eq_some_iff.mp hv
    exact h c v hc hlit
  · intro h c v hc hlit
    exact h v (Option.bind_eq_some_iff.mpr ⟨c, hc, hlit⟩)

theorem forall_subtree_binary {P : Node → Prop} {l r : Node} :
    (∀ n, Subtree n (.binaryNode op l r) → P n) ↔
      (∀ n, Subtree n l → P n) ∧ (∀ n, Subtree n r → P n) ∧ P (.binaryNode op l r) := by
  constructor
  · intro h
    exact ⟨fun n hn => h n (.left op r hn), fun n hn => h n (.right op l hn), h _ .self⟩
  · rintro ⟨hl, hr, hself⟩ n hn
    cases hn with
    | self => exact hself
    | left _ _ hn => exact hl n hn
    | right _ _ hn => exact hr n hn

/-- **Where folding preserves the meaning of constants.** Every tree inside an arithmetic tree
that the folder replaces by a literal returns that literal when it is executed instead,
exactly when the tree lies within the machine. SRCLINE: ConstFold.hpp:11-64 -/
theorem foldsFaithfully_iff (rt : Runtime) (dbl : DoubleUnit) (strings : Option StringPool)
    (memory : Memory) (n : Node) (hn : Arithmetic n) :
    (∀ m, Subtree m n → FoldsFaithfully rt dbl strings memory m) ↔
      WithinMachine rt.fpu dbl n := by
  induction hn with
  | constInt w =>
    simp only [WithinMachine, iff_true]
    rintro m ⟨⟩
    rw [foldsFaithfully_iff_exact (.constInt w)]
    intro v hv
    exact bodyReturns_of_within (.constInt w) trivial (by simp [nodeCount]) hv
  | constFloat b =>
    simp only [WithinMachine, iff_true]
    rintro m ⟨⟩
    rw [foldsFaithfully_iff_exact (.constFloat b)]
    intro v hv
    exact bodyReturns_of_within (.constFloat b) trivial (by simp [nodeCount]) hv
  | @binaryNode op l r hl hr ihl ihr =>
    have hn : Arithmetic (.binaryNode op l r) := .binaryNode op hl hr
    rw [forall_subtree_binary, ihl, ihr, foldsFaithfully_iff_exact hn, WithinMachine]
    refine and_congr_right fun hwl => and_congr_right fun hwr => ?_
    constructor
    · intro h x y hx hy hne
      obtain ⟨v, hop⟩ := Option.ne_none_iff_exists'.mp hne
      have hreturns := h v (by simp [exactValue, hx, hy, hop])
      refine ⟨nodeCount_le_of_bodyReturns hn hreturns, ?_⟩
      apply (machineOperation_eq_iff hop).mp
      exact machineOperation_of_bodyReturns hl hr hwl hwr hx hy hop hreturns
    · intro hhere v hv
      obtain ⟨x, hx, hrest⟩ := Option.bind_eq_some_iff.mp hv
      obtain ⟨y, hy, hop⟩ := Option.bind_eq_some_iff.mp hrest
      obtain ⟨hcount, -⟩ := hhere x y hx hy (by rw [hop]; exact Option.some_ne_none v)
      exact bodyReturns_of_within hn ⟨hwl, hwr, hhere⟩ hcount hv

/-- A double-precision unit that only moves bits: enough for trees of integers. -/
def bareDouble : DoubleUnit := ⟨fun a _ => a, fun a _ => a, fun a _ => a, fun a _ => a, (· == 0)⟩

/-- A quotient whose divisor is small. -/
def smallQuotient : Node := .binaryNode .DIV (.constInt (-7)) (.constInt 2)

theorem foldsFaithfully_smallQuotient :
    Arithmetic smallQuotient ∧ WithinMachine bareRuntime.fpu bareDouble smallQuotient ∧
      ∀ m, Subtree m smallQuotient →
        FoldsFaithfully bareRuntime bareDouble none (fun _ => 0) m := by
  have hn : Arithmetic smallQuotient := .binaryNode _ (.constInt _) (.constInt _)
  have hwithin : WithinMachine bareRuntime.fpu bareDouble smallQuotient := by
    refine ⟨trivial, trivial, ?_⟩
    rintro x y ⟨⟩ ⟨⟩ -
    refine ⟨by decide, ⟨?_, ?_⟩, .inl ?_⟩
    · with_unfolding_all decide
    · rintro ⟨h, -⟩
      exact absurd h (by decide)
    · with_unfolding_all decide
  exact ⟨hn, hwithin,
    (foldsFaithfully_iff bareRuntime bareDouble none (fun _ => 0) smallQuotient hn).mpr hwithin⟩

/-- A quotient whose divisor is `2 ^ 32 + 1`. -/
def largeQuotient : Node := .binaryNode .DIV (.constInt 5) (.constInt 4294967297)

/-- INTERNAL: the folder divides by `2 ^ 32 + 1` and the machine by one. -/
theorem largeQuotient_folds_to_zero :
    tryFoldConst bareDouble largeQuotient = some (.int 0) ∧
      BodyReturns bareRuntime none (fun _ => 0) largeQuotient (.int 5) ∧
      ¬ FoldsFaithfully bareRuntime bareDouble none (fun _ => 0) largeQuotient := by
  have hfold : tryFoldConst bareDouble largeQuotient = some (.int 0) := by decide
  have hrun : BodyReturns bareRuntime none (fun _ => 0) largeQuotient (.int 5) :=
    ⟨_, _, rfl, 4, rfl⟩
  refine ⟨hfold, hrun, ?_⟩
  intro h
  have hzero := h (.int 0) (.int 0) hfold rfl
  exact absurd (hrun.unique hzero) (by decide)

end Soot.Analysis
