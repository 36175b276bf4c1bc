import Soot.Program.VirtualMachine
import Soot.Program.Emit
import Soot.Model.Source

/-!
# Single steps of the virtual machine

The instructions of trees that compute on variables, one step each: the machine is at a
program counter of one function, with the registers of its current frame. An operation
instruction computes the operation of the tree, except where the model marks a hazard.
-/

set_option autoImplicit false

namespace Soot.Analysis

open Soot.Program Soot.Computation Soot.Model

variable {i : Instruction}

/-- The machine with another bound to the code that it can fetch. -/
def fetching (bound : ℕ) (rt : Runtime) : Machine VmState Halt where
  step s :=
    match s.frame.lambda with
    | none => .inr .escaped
    | some l =>
      if s.frame.pc < bound then
        match l.code[s.frame.pc]? with
        | none => .inr .undefined
        | some i =>
          settle rt { s with frame := s.frame.advance } (exec rt s.memory s.frame.advance i)
      else .inr .escaped

theorem fetching_codeSize (rt : Runtime) : fetching StackFrame.codeSize rt = virtualMachine rt :=
  rfl

theorem fetching_step {bound : ℕ} {rt : Runtime} (h : StackFrame.codeSize ≤ bound) (s : VmState) :
    (virtualMachine rt).step s = .inr .escaped ∨
      (fetching bound rt).step s = (virtualMachine rt).step s := by
  show vmStep rt s = _ ∨ (fetching bound rt).step s = vmStep rt s
  unfold vmStep fetching
  dsimp only
  cases s.frame.lambda with
  | none => exact .inl rfl
  | some l =>
    by_cases hpc : s.frame.pc < StackFrame.codeSize
    · exact .inr ((if_pos (Nat.lt_of_lt_of_le hpc h)).trans (if_pos hpc).symm)
    · exact .inl (if_neg hpc)

/-- Everything of a machine state that the instructions considered here leave alone, and how much
code the machine can fetch. -/
structure Site where
  bound : ℕ
  lambda : ScriptLambda
  parents : List StackFrame
  memory : Memory
  argc : ℕ
  retNum : ℕ

/-- The machine at an instruction of the function, with the given registers. -/
def Site.at (S : Site) (pc : ℕ) (regs : ℕ → Variant) : VmState :=
  ⟨⟨some S.lambda, pc, S.argc, S.retNum, regs⟩, S.parents, S.memory⟩

/-- The same, with another bound. -/
def Site.upTo (S : Site) (bound : ℕ) : Site := { S with bound := bound }

def Site.machine (S : Site) (rt : Runtime) : Machine VmState Halt := fetching S.bound rt

variable {rt : Runtime} {S : Site} {pc : ℕ} {regs : ℕ → Variant}

/-- What a step with a computed result does: store it, or stop with the error. -/
def Site.store (S : Site) (pc : ℕ) (regs : ℕ → Variant) (a : ℕ) :
    Except VmErrorKind Variant → VmState ⊕ Halt
  | .ok v => .inl (S.at pc (Function.update regs a v))
  | .error kind => .inr (.failed kind)

theorem step_fetches : (S.machine rt).step (S.at pc regs) =
    if pc < S.bound then
      match S.lambda.code[pc]? with
      | none => .inr .undefined
      | some i => settle rt (S.at (pc + 1) regs) (exec rt S.memory (S.at (pc + 1) regs).frame i)
    else .inr .escaped := rfl

theorem step_at (hi : S.lambda.code[pc]? = some i) (hpc : pc < S.bound) :
    (S.machine rt).step (S.at pc regs) =
      settle rt (S.at (pc + 1) regs) (exec rt S.memory (S.at (pc + 1) regs).frame i) := by
  rw [step_fetches, if_pos hpc, hi]

theorem step_store {a : ℕ} {e : Except VmErrorKind Variant}
    (hi : S.lambda.code[pc]? = some i) (hpc : pc < S.bound)
    (hexec : exec rt S.memory (S.at (pc + 1) regs).frame i =
      e.map fun v => .continue ((S.at (pc + 1) regs).frame.put a v) S.memory) :
    (S.machine rt).step (S.at pc regs) = S.store (pc + 1) regs a e := by
  rw [step_at hi hpc, hexec]
  cases e with
  | ok v => rfl
  | error kind => rfl

section Exec

variable {m : Memory} {f : StackFrame} {a b c : ℕ}

theorem exec_move (ha : a < 34) (hb : b < 34) :
    exec rt m f ⟨.Move, a, b, 0⟩ = .ok (.continue (f.put a (f.registers b)) m) := by
  simp [exec, f.getRegister_of_lt (i := a) ha, f.getRegister_of_lt (i := b) hb, bind,
    Except.bind, pure, Except.pure]

theorem exec_binaryInt {op : I64 → I64 → Variant} (ha : i.a < 34)
    (hb : i.b < 34) (hc : i.c < 34) :
    execBinaryInt rt m f i op =
      (intOp rt.fpu op (f.registers i.b) (f.registers i.c)).map
        fun v => .continue (f.put i.a v) m := by
  unfold execBinaryInt intOp
  rw [f.getRegister_of_lt ha, f.getRegister_of_lt hb, f.getRegister_of_lt hc]
  cases hx : (f.registers i.b).toInt rt.fpu with
  | error e => simp [bind, Except.bind, hx, Except.map]
  | ok x =>
    cases hy : (f.registers i.c).toInt rt.fpu with
    | error e => simp [bind, Except.bind, hx, hy, Except.map]
    | ok y => simp [bind, Except.bind, hx, hy, Except.map, pure, Except.pure]

theorem exec_binaryFloat {op : BitVec 32 → BitVec 32 → Variant}
    (ha : i.a < 34) (hb : i.b < 34) (hc : i.c < 34) :
    execBinaryFloat rt m f i op =
      (floatOp rt.fpu op (f.registers i.b) (f.registers i.c)).map
        fun v => .continue (f.put i.a v) m := by
  unfold execBinaryFloat floatOp
  rw [f.getRegister_of_lt ha, f.getRegister_of_lt hb, f.getRegister_of_lt hc]
  cases hx : (f.registers i.b).toFloat rt.fpu with
  | error e => simp [bind, Except.bind, hx, Except.map]
  | ok x =>
    cases hy : (f.registers i.c).toFloat rt.fpu with
    | error e => simp [bind, Except.bind, hx, hy, Except.map]
    | ok y => simp [bind, Except.bind, hx, hy, Except.map, pure, Except.pure]

theorem exec_iAdd (ha : i.a < 34) (hb : i.b < 34) (hc : i.c < 34) :
    execIAdd rt m f i =
      (addValues rt.fpu (f.registers i.b) (f.registers i.c)).map
        fun v => .continue (f.put i.a v) m := by
  unfold execIAdd
  rw [f.getRegister_of_lt ha, f.getRegister_of_lt hb, f.getRegister_of_lt hc]
  simp only [bind, Except.bind]
  cases f.registers i.b <;> cases f.registers i.c <;> rfl

theorem exec_division {op : I64 → I64 → I64} (ha : i.a < 34) (hb : i.b < 34)
    (hc : i.c < 34)
    (hhaz : divisionHazard rt.fpu (f.registers i.b) (f.registers i.c) = false) :
    execDivision rt m f i op =
      (divideInt rt.fpu op (f.registers i.b) (f.registers i.c)).map
        fun v => .continue (f.put i.a v) m := by
  unfold execDivision divideInt
  unfold divisionHazard at hhaz
  rw [f.getRegister_of_lt ha, f.getRegister_of_lt hb, f.getRegister_of_lt hc]
  simp only [bind, Except.bind]
  cases hy : (f.registers i.c).toInt rt.fpu with
  | error e => rfl
  | ok d =>
    rw [hy] at hhaz
    simp only [Bool.or_eq_false_iff, beq_eq_false_iff_ne, bne_eq_false_iff_eq,
      Bool.and_eq_false_iff] at hhaz
    obtain ⟨⟨hzero, hnarrow⟩, hover⟩ := hhaz
    have hdiv : (d.truncate 32 : BitVec 32) ≠ 0 := by
      intro h0
      rw [h0] at hnarrow
      exact hzero (hnarrow.symm.trans (by decide))
    have hminus : (d.truncate 32 : BitVec 32) = -1 → d = -1 := by
      intro h1
      rw [h1] at hnarrow
      exact hnarrow.symm.trans (by decide)
    simp only [if_neg hdiv, if_neg hzero]
    cases hx : (f.registers i.b).toInt rt.fpu with
    | error e => rfl
    | ok x =>
      have hno : ¬ (x = BitVec.intMin 64 ∧ (d.truncate 32 : BitVec 32) = -1) := by
        rintro ⟨rfl, h1⟩
        rcases hover with hd | hx'
        · exact hd (hminus h1)
        · rw [hx] at hx'
          exact hx' rfl
      simp only [if_neg hno, hnarrow]
      rfl

theorem exec_fDiv (ha : i.a < 34) (hb : i.b < 34) (hc : i.c < 34)
    (hhaz : floatDivisionHazard rt.fpu (f.registers i.c) = false) :
    execFDiv rt m f i =
      (divideFloat rt.fpu (f.registers i.b) (f.registers i.c)).map
        fun v => .continue (f.put i.a v) m := by
  unfold execFDiv divideFloat
  unfold floatDivisionHazard at hhaz
  rw [f.getRegister_of_lt ha, f.getRegister_of_lt hb, f.getRegister_of_lt hc]
  simp only [bind, Except.bind]
  cases hy : (f.registers i.c).toFloat rt.fpu with
  | error e => rfl
  | ok d =>
    rw [hy] at hhaz
    simp only [hhaz]
    cases hx : (f.registers i.b).toFloat rt.fpu with
    | error e => rfl
    | ok x => rfl

theorem exec_binary (isFloat : Bool) (op : BinaryOp) (ha : a < 34) (hb : b < 34) (hc : c < 34)
    (hhaz : binaryHazard rt.fpu isFloat op (f.registers b) (f.registers c) = false) :
    exec rt m f ⟨op.opcode isFloat, a, b, c⟩ =
      (binaryValue rt.fpu isFloat op (f.registers b) (f.registers c)).map
        fun v => .continue (f.put a v) m := by
  cases op <;> cases isFloat
  · exact exec_iAdd (i := ⟨.IAdd, a, b, c⟩) ha hb hc
  · exact exec_binaryFloat (i := ⟨.FAdd, a, b, c⟩) ha hb hc
  · exact exec_binaryInt (i := ⟨.ISub, a, b, c⟩) ha hb hc
  · exact exec_binaryFloat (i := ⟨.FSub, a, b, c⟩) ha hb hc
  · exact exec_binaryInt (i := ⟨.IMul, a, b, c⟩) ha hb hc
  · exact exec_binaryFloat (i := ⟨.FMul, a, b, c⟩) ha hb hc
  · exact exec_division (i := ⟨.IDiv, a, b, c⟩) ha hb hc hhaz
  · exact exec_fDiv (i := ⟨.FDiv, a, b, c⟩) ha hb hc hhaz
  · exact exec_division (i := ⟨.IMod, a, b, c⟩) ha hb hc hhaz
  · exact exec_binaryFloat (i := ⟨.FMod, a, b, c⟩) ha hb hc

theorem exec_compare (isFloat : Bool) (op : CompareOp) (ha : a < 34) (hb : b < 34) (hc : c < 34)
    (hhaz : compareHazard isFloat op = false) :
    exec rt m f ⟨op.opcode isFloat, a, b, c⟩ =
      (compareValue rt.fpu isFloat op (f.registers b) (f.registers c)).map
        fun v => .continue (f.put a v) m := by
  cases op <;> cases isFloat
  · exact exec_binaryInt (i := ⟨.IEqual, a, b, c⟩) ha hb hc
  · exact exec_binaryFloat (i := ⟨.FEqual, a, b, c⟩) ha hb hc
  · exact exec_binaryInt (i := ⟨.INotEqual, a, b, c⟩) ha hb hc
  · cases hhaz
  · exact exec_binaryInt (i := ⟨.ILessThan, a, b, c⟩) ha hb hc
  · exact exec_binaryFloat (i := ⟨.FLessThan, a, b, c⟩) ha hb hc
  · exact exec_binaryInt (i := ⟨.ILessThanEqual, a, b, c⟩) ha hb hc
  · exact exec_binaryFloat (i := ⟨.FLessThanEqual, a, b, c⟩) ha hb hc
  · exact exec_binaryInt (i := ⟨.IGreaterThan, a, b, c⟩) ha hb hc
  · exact exec_binaryFloat (i := ⟨.FGreaterThan, a, b, c⟩) ha hb hc
  · exact exec_binaryInt (i := ⟨.IGreaterThanEqual, a, b, c⟩) ha hb hc
  · exact exec_binaryFloat (i := ⟨.FGreaterThanEqual, a, b, c⟩) ha hb hc

theorem exec_unary (isFloat : Bool) (op : UnaryOp) (ha : a < 34) (hb : b < 34) :
    exec rt m f ⟨op.opcode isFloat, a, b, 0⟩ =
      (unaryValue rt.fpu isFloat op (f.registers b)).map fun v => .continue (f.put a v) m := by
  have hint : ∀ (g : I64 → Variant) (o : Opcode),
      execUnaryInt rt m f ⟨o, a, b, 0⟩ g =
        ((f.registers b).toInt rt.fpu).map fun x => .continue (f.put a (g x)) m := by
    intro g o
    unfold execUnaryInt
    rw [f.getRegister_of_lt (i := a) ha, f.getRegister_of_lt (i := b) hb]
    simp only [bind, Except.bind]
    cases (f.registers b).toInt rt.fpu <;> rfl
  have hfloat : ∀ (g : BitVec 32 → Variant) (o : Opcode),
      execUnaryFloat rt m f ⟨o, a, b, 0⟩ g =
        ((f.registers b).toFloat rt.fpu).map fun x => .continue (f.put a (g x)) m := by
    intro g o
    unfold execUnaryFloat
    rw [f.getRegister_of_lt (i := a) ha, f.getRegister_of_lt (i := b) hb]
    simp only [bind, Except.bind]
    cases (f.registers b).toFloat rt.fpu <;> rfl
  cases op
  · cases isFloat
    · refine (hint _ _).trans ?_
      simp only [unaryValue]
      cases (f.registers b).toInt rt.fpu <;> rfl
    · refine (hfloat _ _).trans ?_
      simp only [unaryValue]
      cases (f.registers b).toFloat rt.fpu <;> rfl
  · cases isFloat
    · refine (hint _ _).trans ?_
      simp only [unaryValue]
      cases (f.registers b).toInt rt.fpu <;> rfl
    · refine (hfloat _ _).trans ?_
      simp only [unaryValue]
      cases (f.registers b).toFloat rt.fpu <;> rfl
  · simp [UnaryOp.opcode, exec, f.getRegister_of_lt (i := a) ha, f.getRegister_of_lt (i := b) hb,
      bind, Except.bind, pure, Except.pure, unaryValue, Except.map]
  · refine (hint _ _).trans ?_
    simp only [unaryValue]
    cases (f.registers b).toInt rt.fpu <;> rfl

end Exec

end Soot.Analysis
