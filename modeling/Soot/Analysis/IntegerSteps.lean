import Soot.Analysis.ConstantFolding
import Soot.Model.MachineSteps

/-!
# Integer instructions do what they are named after

One step of the machine for each form of instruction: what it computes from the numbers in its
registers, against the operation that its name states. Where the machine computes something else,
the two agree exactly on the operands that the difference does not touch.
-/

set_option autoImplicit false

namespace Soot.Analysis

open Soot.Program Soot.Model Soot.Computation

variable {rt : Runtime} {s : VmState} {i : Instruction} {m : Memory} {f : StackFrame}

/-! ## A step -/

theorem vmStep_of_fetches (rt : Runtime) (h : Fetches s i) :
    vmStep rt s = settle rt (skipped s) (exec rt s.memory s.frame.advance i) := by
  obtain ⟨l, hl, hpc, hi⟩ := h
  unfold vmStep
  rw [hl]
  simp only [hpc, if_true, hi]
  rfl

/-- The state after an instruction that stores a value. -/
def stored (s : VmState) (a : ℕ) (v : Variant) : VmState :=
  ⟨s.frame.advance.put a v, s.parents, s.memory⟩

theorem writes_stored_iff {a : ℕ} {v : Variant} {r : Word} :
    Writes s (stored s a v) a r ↔ wordOf v = some r := by
  constructor
  · intro h
    simpa [stored] using h.written
  · intro h
    exact ⟨by simpa [stored] using h, fun k hk => by simp [stored, hk], rfl, ⟨rfl, rfl, rfl⟩,
      rfl, rfl⟩

theorem writes_skipped_iff {a : ℕ} {r : Word} :
    Writes s (skipped s) a r ↔ wordOf (s.frame.registers a) = some r :=
  ⟨fun h => h.written, fun h => ⟨h, fun _ _ => rfl, rfl, ⟨rfl, rfl, rfl⟩, rfl, rfl⟩⟩

theorem exists_writes_iff {t : VmState} {a : ℕ} {r : Word} (h : vmStep rt s = .inl t) :
    (∃ s', vmStep rt s = .inl s' ∧ Writes s s' a r) ↔ Writes s t a r := by
  constructor
  · rintro ⟨s', hs', hwrites⟩
    rwa [Sum.inl.inj (h.symm.trans hs')]
  · exact fun hwrites => ⟨t, h, hwrites⟩

theorem not_exists_writes {halt : Halt} {a : ℕ} {r : Word} (h : vmStep rt s = .inr halt) :
    ¬ ∃ s', vmStep rt s = .inl s' ∧ Writes s s' a r := by
  rintro ⟨s', hs', -⟩
  rw [h] at hs'
  cases hs'

/-- An instruction computes the result of an operation, on the frame it continues in. -/
def ExecutesAs (rt : Runtime) (m : Memory) (f : StackFrame) (i : Instruction)
    (op : NamedOperation) : Prop :=
  match namedResult rt.fpu f i op with
  | .error _ => (∃ e, exec rt m f i = .error e) ∨ exec rt m f i = .ok (.continue f m)
  | .ok none => exec rt m f i = .ok (.continue f m)
  | .ok (some r) => ∃ v, wordOf v = some r ∧ exec rt m f i = .ok (.continue (f.put i.a v) m)

theorem namedResult_advance (fpu : FloatUnit) (f : StackFrame) (i : Instruction)
    (op : NamedOperation) :
    namedResult fpu f.advance i op = namedResult fpu f i op := by
  cases op <;> rfl

theorem performs_of_computes {op : NamedOperation} (h : Fetches s i)
    (hc : ExecutesAs rt s.memory s.frame.advance i op) : Performs rt s i op := by
  unfold Performs
  unfold ExecutesAs at hc
  rw [namedResult_advance] at hc
  have hstep := vmStep_of_fetches rt h
  cases hres : namedResult rt.fpu s.frame i op with
  | error e =>
    rw [hres] at hc
    rcases hc with ⟨e', he⟩ | he
    · exact .inl ⟨e', by rw [hstep, he]; rfl⟩
    · exact .inr (by rw [hstep, he]; rfl)
  | ok r =>
    rw [hres] at hc
    cases r with
    | none =>
      dsimp only at hc ⊢
      rw [hstep, hc]
      rfl
    | some r =>
      obtain ⟨v, hv, he⟩ := hc
      exact ⟨stored s i.a v, by rw [hstep, he]; rfl, writes_stored_iff.mpr hv⟩

/-! ## The forms of instructions -/

theorem execBinaryInt_eq (op : I64 → I64 → Variant) : execBinaryInt rt m f i op =
    (operands rt.fpu f i).map fun p => .continue (f.put i.a (op p.1 p.2)) m := by
  unfold execBinaryInt operands
  cases f.getRegister i.a with
  | error e => rfl
  | ok _ =>
    cases f.getRegister i.b with
    | error e => rfl
    | ok src1 =>
      cases f.getRegister i.c with
      | error e => rfl
      | ok src2 => cases src1 <;> cases src2 <;> rfl

theorem execUnaryInt_eq (op : I64 → Variant) : execUnaryInt rt m f i op =
    (operand rt.fpu f i).map fun x => .continue (f.put i.a (op x)) m := by
  unfold execUnaryInt operand
  cases f.getRegister i.a with
  | error e => rfl
  | ok _ =>
    cases f.getRegister i.b with
    | error e => rfl
    | ok src => cases src <;> rfl

theorem execBinaryFloat_eq (op : BitVec 32 → BitVec 32 → Variant) : execBinaryFloat rt m f i op =
    (floatOperands rt.fpu f i).map fun p => .continue (f.put i.a (op p.1 p.2)) m := by
  unfold execBinaryFloat floatOperands
  cases f.getRegister i.a with
  | error e => rfl
  | ok _ =>
    cases f.getRegister i.b with
    | error e => rfl
    | ok src1 =>
      cases f.getRegister i.c with
      | error e => rfl
      | ok src2 => cases src1 <;> cases src2 <;> rfl

theorem computes_binary {op : I64 → I64 → Variant} (g : I64 → I64 → I64)
    (hop : ∀ x y, op x y = .int (g x y)) (hexec : exec rt m f i = execBinaryInt rt m f i op) :
    ExecutesAs rt m f i (.binary fun x y => some (g x y)) := by
  unfold ExecutesAs namedResult
  rw [hexec, execBinaryInt_eq]
  cases operands rt.fpu f i with
  | error e => exact .inl ⟨e, rfl⟩
  | ok p => exact ⟨.int (g p.1 p.2), rfl, by rw [← hop]; rfl⟩

theorem computes_compare {op : I64 → I64 → Variant} {test : ℤ → ℤ → Bool}
    (hop : ∀ x y, op x y = .ofBool (test x.toInt y.toInt))
    (hexec : exec rt m f i = execBinaryInt rt m f i op) :
    ExecutesAs rt m f i (.compare test) := computes_binary _ hop hexec

theorem computes_unary {op : I64 → Variant} (g : I64 → I64) (hop : ∀ x, op x = .int (g x))
    (hexec : exec rt m f i = execUnaryInt rt m f i op) : ExecutesAs rt m f i (.unary g) := by
  unfold ExecutesAs namedResult
  rw [hexec, execUnaryInt_eq]
  cases operand rt.fpu f i with
  | error e => exact .inl ⟨e, rfl⟩
  | ok x => exact ⟨.int (g x), rfl, by rw [← hop]; rfl⟩

theorem computes_floats {op : BitVec 32 → BitVec 32 → Variant} (test : BitVec 32 → BitVec 32 → Bool)
    (hop : ∀ x y, op x y = .ofBool (test x y))
    (hexec : exec rt m f i = execBinaryFloat rt m f i op) : ExecutesAs rt m f i (.floats test) := by
  unfold ExecutesAs namedResult
  rw [hexec, execBinaryFloat_eq]
  cases floatOperands rt.fpu f i with
  | error e => exact .inl ⟨e, rfl⟩
  | ok p => exact ⟨.ofBool (test p.1 p.2), rfl, by rw [← hop]; rfl⟩

theorem computes_iAdd (hexec : exec rt m f i = execIAdd rt m f i) :
    ExecutesAs rt m f i (.binary fun x y => some (x + y)) := by
  unfold ExecutesAs namedResult operands
  rw [hexec, execIAdd]
  cases f.getRegister i.a with
  | error e => exact .inl ⟨e, rfl⟩
  | ok _ =>
    cases f.getRegister i.b with
    | error e => exact .inl ⟨e, rfl⟩
    | ok src1 =>
      cases f.getRegister i.c with
      | error e => exact .inl ⟨e, rfl⟩
      | ok src2 =>
        cases src1 with
        | null => cases src2 <;> exact .inl ⟨_, rfl⟩
        | int x =>
          cases src2 with
          | null => exact .inl ⟨_, rfl⟩
          | pointer p => exact ⟨.pointer (p + x), congrArg some (BitVec.add_comm p x), rfl⟩
          | int y => exact ⟨_, rfl, rfl⟩
          | float y => exact ⟨_, rfl, rfl⟩
        | float x =>
          cases src2 with
          | null => exact .inl ⟨_, rfl⟩
          | pointer p => exact ⟨_, rfl, rfl⟩
          | int y => exact ⟨_, rfl, rfl⟩
          | float y => exact ⟨_, rfl, rfl⟩
        | pointer p =>
          cases src2 with
          | null => exact .inl ⟨_, rfl⟩
          | pointer q => exact ⟨_, rfl, rfl⟩
          | int y => exact ⟨_, rfl, rfl⟩
          | float y => exact ⟨_, rfl, rfl⟩

theorem execOffsetImm_cases (rt : Runtime) (m : Memory) (f : StackFrame) (i : Instruction)
    (op intOp : I64 → I64 → I64) :
    (∃ e e', operand rt.fpu f i = .error e ∧ execOffsetImm rt m f i op intOp = .error e') ∨
    ∃ x, operand rt.fpu f i = .ok x ∧
      ((f.registers i.b = .pointer x ∧ execOffsetImm rt m f i op intOp =
        .ok (.continue (f.put i.a (.pointer (op x (BitVec.ofNat 64 i.c)))) m)) ∨
      ((∀ p, f.registers i.b ≠ .pointer p) ∧ execOffsetImm rt m f i op intOp =
        .ok (.continue (f.put i.a (.int (intOp x (BitVec.ofNat 64 i.c)))) m))) := by
  unfold operand execOffsetImm
  cases f.getRegister i.a with
  | error e => exact .inl ⟨e, e, rfl, rfl⟩
  | ok _ =>
    by_cases hb : i.b < MAX_REGISTERS
    · rw [f.getRegister_of_lt hb]
      cases f.registers i.b with
      | null => exact .inl ⟨_, _, rfl, rfl⟩
      | int x => exact .inr ⟨x, rfl, .inr ⟨by simp, rfl⟩⟩
      | float x => exact .inr ⟨_, rfl, .inr ⟨by simp, rfl⟩⟩
      | pointer p => exact .inr ⟨p, rfl, .inl ⟨rfl, rfl⟩⟩
    · rw [StackFrame.getRegister, if_neg hb]
      exact .inl ⟨_, _, rfl, rfl⟩

theorem computes_iAddImm (hexec : exec rt m f i = execOffsetImm rt m f i (· + ·) (· + ·)) :
    ExecutesAs rt m f i (.immediate fun x y => some (x + y)) := by
  unfold ExecutesAs namedResult
  rw [hexec]
  obtain ⟨e, e', he, hexec⟩ | ⟨x, hx, ⟨-, hexec⟩ | ⟨-, hexec⟩⟩ :=
    execOffsetImm_cases rt m f i (· + ·) (· + ·)
  · rw [he, hexec]
    exact .inl ⟨e', rfl⟩
  · rw [hx, hexec]
    exact ⟨_, rfl, rfl⟩
  · rw [hx, hexec]
    exact ⟨_, rfl, rfl⟩

theorem computes_iMulImm
    (hexec : exec rt m f i = execUnaryInt rt m f i fun x => .int (x * BitVec.ofNat 64 i.c)) :
    ExecutesAs rt m f i (.immediate fun x y => some (x * y)) := by
  unfold ExecutesAs namedResult
  rw [hexec, execUnaryInt_eq]
  cases operand rt.fpu f i with
  | error e => exact .inl ⟨e, rfl⟩
  | ok x => exact ⟨_, rfl, rfl⟩

theorem execIDivImm_zero (rt : Runtime) (m : Memory) (f : StackFrame) (hc : i.c = 0) :
    execIDivImm rt m f i = .ok (.continue f m) ∨
    (∃ e, execIDivImm rt m f i = .error e) ∧ ∃ e, operand rt.fpu f i = .error e := by
  unfold execIDivImm operand
  cases f.getRegister i.a with
  | error e => exact .inr ⟨⟨e, rfl⟩, e, rfl⟩
  | ok _ =>
    cases f.getRegister i.b with
    | error e => exact .inr ⟨⟨e, rfl⟩, e, rfl⟩
    | ok src => exact .inl (if_pos hc)

theorem execIDivImm_eq (hc : i.c ≠ 0) : execIDivImm rt m f i =
    (operand rt.fpu f i).map fun x =>
      .continue (f.put i.a (.int (x.sdiv (BitVec.ofNat 64 i.c)))) m := by
  unfold execIDivImm operand
  cases f.getRegister i.a with
  | error e => rfl
  | ok _ =>
    cases f.getRegister i.b with
    | error e => rfl
    | ok src =>
      refine (if_neg hc).trans ?_
      cases src <;> rfl

theorem computes_iDivImm (hbyte : i.c < 256) (hexec : exec rt m f i = execIDivImm rt m f i) :
    ExecutesAs rt m f i (.immediate (divided BitVec.sdiv)) := by
  by_cases hc : i.c = 0
  · have hnone : ∀ x, divided BitVec.sdiv x (BitVec.ofNat 64 i.c) = none :=
      fun x => if_pos (by rw [hc]; rfl)
    unfold ExecutesAs namedResult
    rw [hexec]
    rcases execIDivImm_zero rt m f hc with hexec | ⟨⟨e, hexec⟩, e', he⟩
    · cases operand rt.fpu f i with
      | error e => exact .inr hexec
      | ok x =>
        simp only [bind, Except.bind, pure, Except.pure, hnone]
        exact hexec
    · rw [he]
      exact .inl ⟨e, hexec⟩
  · have hdivisor : BitVec.ofNat 64 i.c ≠ 0 := by bv_omega
    have hsome : ∀ x, divided BitVec.sdiv x (BitVec.ofNat 64 i.c) =
        some (x.sdiv (BitVec.ofNat 64 i.c)) := fun x => if_neg hdivisor
    unfold ExecutesAs namedResult
    rw [hexec, execIDivImm_eq hc]
    cases operand rt.fpu f i with
    | error e => exact .inl ⟨e, rfl⟩
    | ok x =>
      simp only [bind, Except.bind, pure, Except.pure, hsome]
      exact ⟨_, rfl, rfl⟩

theorem computes_constant (hexec : exec rt m f i = do
      let _ ← f.getRegister i.a
      return .continue (f.put i.a (.int (BitVec.ofNat 64 i.imm16))) m) :
    ExecutesAs rt m f i .constant := by
  unfold ExecutesAs namedResult
  rw [hexec]
  cases f.getRegister i.a with
  | error e => exact .inl ⟨e, rfl⟩
  | ok _ => exact ⟨_, rfl, rfl⟩

theorem truth_injective {b c : Bool} (h : truth b = truth c) : b = c := by
  cases b <;> cases c <;> simp_all [truth]

/-- The six opcodes where the machine does something else. -/
def differing : List Opcode := [.IDiv, .IMod, .IntAsh, .ISubImm, .FEqual, .FNotEqual]

theorem computes_named (hbyte : i.c < 256) {op : NamedOperation}
    (hop : namedOperation rt.fpu i.opcode = some op)
    (hother : i.opcode ∉ differing) :
    ExecutesAs rt m f i op := by
  obtain ⟨opcode, a, b, c⟩ := i
  dsimp only at hbyte hop hother
  cases opcode <;> cases hop
  case IAdd => exact computes_iAdd rfl
  case ISub => exact computes_binary _ (fun _ _ => rfl) rfl
  case IMul => exact computes_binary _ (fun _ _ => rfl) rfl
  case IAbs =>
    refine computes_unary _ (fun x => ?_) rfl
    rw [BitVec.abs_eq, ← BitVec.slt_zero_eq_msb]
    rfl
  case INeg => exact computes_unary _ (fun _ => rfl) rfl
  case CastInteger => exact computes_unary _ (fun _ => rfl) rfl
  case LoadU16Imm => exact computes_constant rfl
  case IAddImm => exact computes_iAddImm rfl
  case IMulImm => exact computes_iMulImm rfl
  case IDivImm => exact computes_iDivImm hbyte rfl
  case IEqual =>
    exact computes_compare (fun x y => congrArg Variant.ofBool
      (by rw [Bool.eq_iff_iff]; simp [BitVec.toInt_inj])) rfl
  case INotEqual =>
    exact computes_compare (fun x y => congrArg Variant.ofBool
      (by rw [Bool.eq_iff_iff]; simp [BitVec.toInt_inj])) rfl
  case IGreaterThan => exact computes_compare (fun _ _ => rfl) rfl
  case IGreaterThanEqual => exact computes_compare (fun _ _ => rfl) rfl
  case ILessThan => exact computes_compare (fun _ _ => rfl) rfl
  case ILessThanEqual => exact computes_compare (fun _ _ => rfl) rfl
  case FGreaterThan => exact computes_floats _ (fun _ _ => rfl) rfl
  case FGreaterThanEqual => exact computes_floats _ (fun _ _ => rfl) rfl
  case FLessThan => exact computes_floats _ (fun _ _ => rfl) rfl
  case FLessThanEqual => exact computes_floats _ (fun _ _ => rfl) rfl
  all_goals simp [differing] at hother

/-! ## Where the machine does something else -/

section Differences

variable {op : NamedOperation} {r : I64}

theorem performs_error {e : VmErrorKind} (h : namedResult rt.fpu s.frame i op = .error e) :
    Performs rt s i op ↔
      (∃ e, vmStep rt s = .inr (.failed e)) ∨ vmStep rt s = .inl (skipped s) := by
  unfold Performs
  rw [h]

theorem performs_none (h : namedResult rt.fpu s.frame i op = .ok none) :
    Performs rt s i op ↔ vmStep rt s = .inl (skipped s) := by
  unfold Performs
  rw [h]

theorem performs_some (h : namedResult rt.fpu s.frame i op = .ok (some r)) :
    Performs rt s i op ↔ ∃ s', vmStep rt s = .inl s' ∧ Writes s s' i.a r := by
  unfold Performs
  rw [h]

theorem performs_iff_forall {α : Type} {read : Except VmErrorKind α} {P : α → Prop}
    (herror : ∀ e, read = .error e → Performs rt s i op)
    (hok : ∀ a, read = .ok a → (Performs rt s i op ↔ P a)) :
    Performs rt s i op ↔ ∀ a, read = .ok a → P a := by
  cases hread : read with
  | error e => exact iff_of_true (herror e hread) (by simp)
  | ok a =>
    rw [hok a hread]
    exact ⟨fun h b hb => Except.ok.inj hb ▸ h, fun h => h a rfl⟩

theorem settle_continue (h : Fetches s i) {a : ℕ} {v : Variant}
    (hexec : exec rt s.memory s.frame.advance i =
      .ok (.continue (s.frame.advance.put a v) s.memory)) :
    vmStep rt s = .inl (stored s a v) := by
  rw [vmStep_of_fetches rt h, hexec]
  rfl

theorem settle_skip (h : Fetches s i)
    (hexec : exec rt s.memory s.frame.advance i = .ok (.continue s.frame.advance s.memory)) :
    vmStep rt s = .inl (skipped s) := by
  rw [vmStep_of_fetches rt h, hexec]
  rfl

theorem settle_undefined (h : Fetches s i)
    (hexec : exec rt s.memory s.frame.advance i = .ok .undefined) :
    vmStep rt s = .inr .undefined := by
  rw [vmStep_of_fetches rt h, hexec]
  rfl

theorem settle_error (h : Fetches s i) {e : VmErrorKind}
    (hexec : exec rt s.memory s.frame.advance i = .error e) :
    vmStep rt s = .inr (.failed e) := by
  rw [vmStep_of_fetches rt h, hexec]
  rfl

/-! ### Division -/

theorem registers_of_operands {x y : I64} (h : operands rt.fpu f i = .ok (x, y)) :
    ∃ v src1 src2, f.getRegister i.a = .ok v ∧ f.getRegister i.b = .ok src1 ∧
      f.getRegister i.c = .ok src2 ∧ src1.toInt rt.fpu = .ok x ∧ src2.toInt rt.fpu = .ok y := by
  unfold operands at h
  cases ha : f.getRegister i.a with
  | error e => simp [ha, bind, Except.bind] at h
  | ok v =>
    cases hb : f.getRegister i.b with
    | error e => simp [ha, hb, bind, Except.bind] at h
    | ok src1 =>
      cases hc : f.getRegister i.c with
      | error e => simp [ha, hb, hc, bind, Except.bind] at h
      | ok src2 =>
        cases hx : src1.toInt rt.fpu with
        | error e => simp [ha, hb, hc, hx, bind, Except.bind] at h
        | ok x' =>
          cases hy : src2.toInt rt.fpu with
          | error e => simp [ha, hb, hc, hx, hy, bind, Except.bind] at h
          | ok y' =>
            simp only [ha, hb, hc, hx, hy, bind, Except.bind, pure, Except.pure, Except.ok.injEq,
              Prod.mk.injEq] at h
            exact ⟨v, src1, src2, rfl, rfl, rfl, by rw [hx, h.1], by rw [hy, h.2]⟩

theorem execDivision_of_operands (m : Memory) (f : StackFrame) (op : I64 → I64 → I64) {x y : I64}
    (h : operands rt.fpu f i = .ok (x, y)) : execDivision rt m f i op =
      if lowDivisor y = 0 then .ok (.continue f m)
      else if x = BitVec.intMin 64 ∧ lowDivisor y = -1 then .ok .undefined
      else .ok (.continue (f.put i.a (.int (op x (lowDivisor y)))) m) := by
  obtain ⟨v, src1, src2, ha, hb, hc, hx, hy⟩ := registers_of_operands h
  unfold execDivision
  simp only [ha, hb, hc, hx, hy, bind, Except.bind, lowDivisor_eq_zero, lowDivisor_eq_neg_one]
  split
  · rfl
  · split <;> rfl

theorem execDivision_of_error (m : Memory) (f : StackFrame) (op : I64 → I64 → I64) {e : VmErrorKind}
    (h : operands rt.fpu f i = .error e) :
    (∃ e', execDivision rt m f i op = .error e') ∨
      execDivision rt m f i op = .ok (.continue f m) := by
  unfold execDivision
  unfold operands at h
  cases ha : f.getRegister i.a with
  | error e => exact .inl ⟨e, rfl⟩
  | ok v =>
    cases hb : f.getRegister i.b with
    | error e => exact .inl ⟨e, rfl⟩
    | ok src1 =>
      cases hc : f.getRegister i.c with
      | error e => exact .inl ⟨e, rfl⟩
      | ok src2 =>
        cases hy : src2.toInt rt.fpu with
        | error e => exact .inl ⟨e, by simp [hy, bind, Except.bind]⟩
        | ok y =>
          cases hx : src1.toInt rt.fpu with
          | error e =>
            by_cases hzero : (y.truncate 32 : BitVec 32) = 0
            · exact .inr (by simp only [hy, hzero, bind, Except.bind, if_true]; rfl)
            · exact .inl ⟨e, by simp only [hy, hx, hzero, bind, Except.bind, if_false]⟩
          | ok x => simp [ha, hb, hc, hx, hy, bind, Except.bind, pure, Except.pure] at h

theorem performs_division_iff {op : I64 → I64 → I64} {Fits : ℤ → ℤ → Prop}
    (hfits : ∀ {x y}, DivisorFits op x y ↔ Fits x.toInt y.toInt) (h : Fetches s i)
    (hexec : ∀ m f, exec rt m f i = execDivision rt m f i op) :
    Performs rt s i (.binary (divided op)) ↔
      ∀ p : I64 × I64, operands rt.fpu s.frame i = .ok p → p.2 ≠ 0 → Fits p.1.toInt p.2.toInt ∨
        narrowed p.2.toInt = 0 ∧ wordOf (s.frame.registers i.a) = some (op p.1 p.2) := by
  apply performs_iff_forall
  · intro e he
    have hresult : namedResult rt.fpu s.frame i (.binary (divided op)) = .error e := by
      rw [namedResult, he]
      rfl
    rw [performs_error hresult]
    have herror := execDivision_of_error s.memory s.frame.advance op he
    rw [← hexec] at herror
    rcases herror with ⟨e', he'⟩ | hskip
    · exact .inl ⟨e', settle_error h he'⟩
    · exact .inr (settle_skip h hskip)
  · rintro ⟨x, y⟩ hxy
    have hresult : namedResult rt.fpu s.frame i (.binary (divided op)) = .ok (divided op x y) := by
      rw [namedResult, hxy]
      rfl
    have hdivision := execDivision_of_operands s.memory s.frame.advance op hxy
    rw [← hexec] at hdivision
    dsimp only
    by_cases hy : y = 0
    · rw [if_pos (by rw [hy]; rfl)] at hdivision
      rw [divided, if_pos hy] at hresult
      exact iff_of_true ((performs_none hresult).mpr (settle_skip h hdivision))
        fun hne => absurd hy hne
    · rw [divided, if_neg hy] at hresult
      rw [performs_some hresult, imp_iff_right hy, ← hfits, DivisorFits, ← toInt_lowDivisor,
        toInt_eq_zero_iff]
      by_cases hlow : lowDivisor y = 0
      · rw [if_pos hlow] at hdivision
        rw [exists_writes_iff (settle_skip h hdivision), writes_skipped_iff]
        simp [hlow]
      · rw [if_neg hlow] at hdivision
        by_cases hover : x = BitVec.intMin 64 ∧ lowDivisor y = -1
        · rw [if_pos hover] at hdivision
          simp [not_exists_writes (settle_undefined h hdivision), hover]
        · rw [if_neg hover] at hdivision
          rw [exists_writes_iff (settle_continue h hdivision), writes_stored_iff, wordOf,
            Option.some.injEq]
          simp only [hlow, hover, ne_eq, not_false_eq_true, true_and, false_and, or_false]

/-! ### Shifts of words and of their low 32 bits -/

theorem toInt_arithmeticShift {w : ℕ} (x : BitVec w) (shift : ℤ) :
    (arithmeticShift x shift).toInt =
      if 0 ≤ shift then (x.toInt * 2 ^ shift.natAbs).bmod (2 ^ w)
      else x.toInt / 2 ^ shift.natAbs := by
  unfold arithmeticShift
  split
  · rw [shiftLeft_eq_ofInt, BitVec.toInt_ofInt]
  · rw [BitVec.toInt_sshiftRight, Int.shiftRight_eq_div_pow]
    norm_cast

theorem toInt_truncate (x : I64) : (x.truncate 32 : BitVec 32).toInt = narrowed x.toInt := by
  rw [← BitVec.toInt_signExtend_of_le (v := 64) (by decide)]
  exact toInt_lowDivisor x

/-- The shift of the low 32 bits. -/
theorem toInt_lowShift (x y : I64) :
    ((arithmeticShift (x.truncate 32 : BitVec 32) (y.truncate 32 : BitVec 32).toInt).signExtend
      64).toInt = if 0 ≤ narrowed y.toInt then
        narrowed (x.toInt * 2 ^ (narrowed y.toInt).natAbs)
      else narrowed x.toInt / 2 ^ (narrowed y.toInt).natAbs := by
  rw [BitVec.toInt_signExtend_of_le (by decide), toInt_arithmeticShift, toInt_truncate,
    toInt_truncate]
  split
  · exact Int.bmod_mul_bmod
  · rfl

theorem narrowed_eq_self_iff {n : ℤ} : narrowed n = n ↔ FitsI32 n := by
  rw [narrowed, bmod_eq_self_iff (by decide)]
  rfl

/-- A distance that does not have 32 bits shifts out all bits of a word. -/
theorem toInt_arithmeticShift_far (x : I64) {shift : ℤ} (h : ¬ FitsI32 shift) :
    (arithmeticShift x shift).toInt = shiftedOut x.toInt shift := by
  have hfar : 64 ≤ shift.natAbs := by
    unfold FitsI32 at h
    omega
  have hlow : -2 ^ 63 ≤ x.toInt := BitVec.le_toInt x
  have hhigh : x.toInt < 2 ^ 63 := BitVec.toInt_lt
  have hpow : (2 : ℤ) ^ 64 ≤ 2 ^ shift.natAbs := by
    exact_mod_cast Nat.pow_le_pow_right (by decide) hfar
  rw [toInt_arithmeticShift, shiftedOut]
  by_cases hshift : 0 ≤ shift
  · rw [if_pos hshift, if_neg (by omega), ← Int.dvd_iff_bmod_eq_zero]
    exact Dvd.dvd.mul_left (pow_dvd_pow 2 hfar) _
  · rw [if_neg hshift]
    by_cases hx : x.toInt < 0
    · rw [if_pos ⟨hx, by omega⟩]
      exact Int.ediv_eq_neg_one_of_neg_of_le hx (by omega)
    · rw [if_neg (by omega)]
      exact Int.ediv_eq_zero_of_lt (by omega) (by omega)

theorem shiftFits_iff {x y : I64} :
    ShiftFits x.toInt y.toInt ↔ (y.truncate 32 : BitVec 32).toInt.natAbs < 32 ∧
      (arithmeticShift (x.truncate 32 : BitVec 32) (y.truncate 32 : BitVec 32).toInt).signExtend
        64 = arithmeticShift x y.toInt := by
  rw [← BitVec.toInt_inj, toInt_lowShift, toInt_truncate, ShiftFits]
  refine and_congr_right fun hsmall => ?_
  by_cases hfits : FitsI32 y.toInt
  · rw [if_pos hfits, toInt_arithmeticShift]
    rw [narrowed_eq_self_iff.mpr hfits] at hsmall ⊢
    by_cases hshift : 0 ≤ y.toInt
    · rw [if_pos hshift, if_pos hshift, if_pos hshift, ← narrowed_eq_self_iff, narrowed, narrowed,
        Int.bmod_bmod_of_dvd (by decide)]
    · rw [if_neg hshift, if_neg hshift, if_neg hshift, ← narrowed_eq_self_iff]
      have hdvd : 2 ^ y.toInt.natAbs ∣ 2 ^ 32 := Nat.pow_dvd_pow 2 (by omega)
      have := bmod_ediv_eq_iff (x := x.toInt) (by decide) hdvd
      rw [narrowed, ← this]
      push_cast
      rfl
  · rw [if_neg hfits, toInt_arithmeticShift_far x hfits]
    split <;> rfl

/-! ### The other differences -/

theorem execIntAsh_of_operands {x y : I64} (h : operands rt.fpu f i = .ok (x, y)) :
    execIntAsh rt m f i =
      if 32 ≤ (y.truncate 32 : BitVec 32).toInt.natAbs then .ok .undefined
      else .ok (.continue (f.put i.a (.int ((arithmeticShift (x.truncate 32 : BitVec 32)
        (y.truncate 32 : BitVec 32).toInt).signExtend 64))) m) := by
  obtain ⟨v, src1, src2, ha, hb, hc, hx, hy⟩ := registers_of_operands h
  unfold execIntAsh arithmeticShift
  simp only [ha, hb, hc, hx, hy, bind, Except.bind]
  split <;> rfl

theorem execIntAsh_of_error (m : Memory) (f : StackFrame) {e : VmErrorKind}
    (h : operands rt.fpu f i = .error e) :
    ∃ e', execIntAsh rt m f i = .error e' := by
  unfold execIntAsh
  unfold operands at h
  cases ha : f.getRegister i.a with
  | error e => exact ⟨e, rfl⟩
  | ok v =>
    cases hb : f.getRegister i.b with
    | error e => exact ⟨e, rfl⟩
    | ok src1 =>
      cases hc : f.getRegister i.c with
      | error e => exact ⟨e, rfl⟩
      | ok src2 =>
        cases hx : src1.toInt rt.fpu with
        | error e => exact ⟨e, by simp [hx, bind, Except.bind]⟩
        | ok x =>
          cases hy : src2.toInt rt.fpu with
          | error e => exact ⟨e, by simp [hx, hy, bind, Except.bind]⟩
          | ok y => simp [ha, hb, hc, hx, hy, bind, Except.bind, pure, Except.pure] at h

theorem performs_shift_iff (h : Fetches s i)
    (hexec : ∀ m f, exec rt m f i = execIntAsh rt m f i) :
    Performs rt s i (.binary fun x y => some (arithmeticShift x y.toInt)) ↔
      ∀ p : I64 × I64, operands rt.fpu s.frame i = .ok p →
        ShiftFits p.1.toInt p.2.toInt := by
  apply performs_iff_forall
  · intro e he
    have hresult : namedResult rt.fpu s.frame i
        (.binary fun x y => some (arithmeticShift x y.toInt)) = .error e := by
      rw [namedResult, he]
      rfl
    obtain ⟨e', he'⟩ := execIntAsh_of_error s.memory s.frame.advance he
    rw [← hexec] at he'
    exact (performs_error hresult).mpr (.inl ⟨e', settle_error h he'⟩)
  · rintro ⟨x, y⟩ hxy
    have hresult : namedResult rt.fpu s.frame i
        (.binary fun x y => some (arithmeticShift x y.toInt)) =
          .ok (some (arithmeticShift x y.toInt)) := by
      rw [namedResult, hxy]
      rfl
    have hshift := execIntAsh_of_operands (m := s.memory) (f := s.frame.advance) hxy
    rw [← hexec] at hshift
    rw [performs_some hresult, shiftFits_iff]
    by_cases hlarge : 32 ≤ (y.truncate 32 : BitVec 32).toInt.natAbs
    · rw [if_pos hlarge] at hshift
      exact iff_of_false (not_exists_writes (settle_undefined h hshift))
        fun hfits => absurd hfits.1 (Nat.not_lt.mpr hlarge)
    · rw [if_neg hlarge] at hshift
      rw [exists_writes_iff (settle_continue h hshift), writes_stored_iff, wordOf,
        Option.some.injEq]
      exact (and_iff_right (Nat.lt_of_not_le hlarge)).symm

theorem performs_subImm_iff (h : Fetches s i) (hbyte : i.c < 256)
    (hexec : ∀ m f, exec rt m f i = execOffsetImm rt m f i (· - ·) (· + ·)) :
    Performs rt s i (.immediate fun x y => some (x - y)) ↔
      ∀ x, operand rt.fpu s.frame i = .ok x →
        (∃ p, s.frame.registers i.b = .pointer p) ∨ i.c = 0 := by
  apply performs_iff_forall
  · intro e he
    have hresult : namedResult rt.fpu s.frame i (.immediate fun x y => some (x - y)) =
        .error e := by
      rw [namedResult, he]
      rfl
    obtain ⟨_, e', -, he'⟩ | ⟨x, hx, -⟩ := execOffsetImm_cases rt s.memory s.frame.advance i
      (· - ·) (· + ·)
    · rw [← hexec] at he'
      exact (performs_error hresult).mpr (.inl ⟨e', settle_error h he'⟩)
    · cases he.symm.trans hx
  · intro x hx
    have hresult : namedResult rt.fpu s.frame i (.immediate fun x y => some (x - y)) =
        .ok (some (x - BitVec.ofNat 64 i.c)) := by
      rw [namedResult, hx]
      rfl
    rw [performs_some hresult]
    obtain ⟨e, _, he, -⟩ | ⟨x', hx', ⟨hpointer, hstep⟩ | ⟨hother, hstep⟩⟩ :=
      execOffsetImm_cases rt s.memory s.frame.advance i (· - ·) (· + ·)
    · cases he.symm.trans hx
    · obtain rfl := Except.ok.inj (hx.symm.trans hx')
      rw [← hexec] at hstep
      rw [exists_writes_iff (settle_continue h hstep), writes_stored_iff]
      exact iff_of_true rfl (.inl ⟨x, hpointer⟩)
    · obtain rfl := Except.ok.inj (hx.symm.trans hx')
      rw [← hexec] at hstep
      rw [exists_writes_iff (settle_continue h hstep), writes_stored_iff, wordOf,
        Option.some.injEq, or_iff_right fun ⟨p, hp⟩ => hother p hp]
      constructor
      · intro hsame
        bv_omega
      · intro hzero
        rw [hzero]
        simp

theorem performs_floatEqual_iff (h : Fetches s i) (hexec : ∀ m f, exec rt m f i =
      execBinaryFloat rt m f i fun x y => .ofBool (rt.fpu.near x y)) :
    Performs rt s i (.floats (floatsEqual rt.fpu)) ↔
      ∀ p : BitVec 32 × BitVec 32, floatOperands rt.fpu s.frame i = .ok p →
        rt.fpu.near p.1 p.2 = floatsEqual rt.fpu p.1 p.2 := by
  apply performs_iff_forall
  · intro e he
    have hresult : namedResult rt.fpu s.frame i (.floats (floatsEqual rt.fpu)) = .error e := by
      rw [namedResult, he]
      rfl
    refine (performs_error hresult).mpr (.inl ⟨e, settle_error h ?_⟩)
    rw [hexec, execBinaryFloat_eq]
    exact congrArg (Except.map _) he
  · rintro ⟨x, y⟩ hxy
    have hresult : namedResult rt.fpu s.frame i (.floats (floatsEqual rt.fpu)) =
        .ok (some (truth (floatsEqual rt.fpu x y))) := by
      rw [namedResult, hxy]
      rfl
    have hstep : exec rt s.memory s.frame.advance i = .ok (.continue
        (s.frame.advance.put i.a (.ofBool (rt.fpu.near x y))) s.memory) := by
      rw [hexec, execBinaryFloat_eq]
      exact congrArg (Except.map _) hxy
    rw [performs_some hresult, exists_writes_iff (settle_continue h hstep), writes_stored_iff]
    constructor
    · intro hword
      exact truth_injective (Option.some.inj hword)
    · intro hsame
      rw [← hsame]
      rfl

theorem not_performs_of_drop (h : Fetches s i) (hexec : ∀ m f, exec rt m f i = .ok .drop) :
    ¬ Performs rt s i op := by
  have hstep : vmStep rt s = .inr .dropped := by
    rw [vmStep_of_fetches rt h, hexec]
    rfl
  cases hresult : namedResult rt.fpu s.frame i op with
  | error e =>
    rw [performs_error hresult, hstep]
    simp
  | ok r =>
    cases r with
    | none =>
      rw [performs_none hresult, hstep]
      simp
    | some r =>
      rw [performs_some hresult]
      exact not_exists_writes hstep

end Differences

/-! ## All instructions -/

theorem asNamed_of_not_differing {fpu : FloatUnit} (h : i.opcode ∉ differing) :
    AsNamed fpu f i := by
  obtain ⟨opcode, a, b, c⟩ := i
  cases opcode <;> first | trivial | simp [differing] at h

/-- INTERNAL: **One step of the machine performs the operation that the opcode names**, writes its
result and changes nothing else, exactly if the operands avoid what the machine does
differently; every comparison that is emitted has an operation.
SRCLINE: VirtualMachine.cpp:308-636 -/
theorem performs_iff (rt : Runtime) (i : Instruction) (hbyte : i.c < 256) :
    (∀ isFloat compare, (namedOperation rt.fpu (CompareOp.opcode isFloat compare)).isSome) ∧
    ∀ op, namedOperation rt.fpu i.opcode = some op → ∀ s, Fetches s i →
      (Performs rt s i op ↔ AsNamed rt.fpu s.frame i) := by
  constructor
  · intro isFloat compare
    cases isFloat <;> cases compare <;> rfl
  · intro op hop s h
    by_cases hdiffering : i.opcode ∈ differing
    · obtain ⟨opcode, a, b, c⟩ := i
      dsimp only at hbyte hop hdiffering
      simp only [differing, List.mem_cons, List.not_mem_nil, or_false] at hdiffering
      rcases hdiffering with rfl | rfl | rfl | rfl | rfl | rfl
      · cases hop
        rw [performs_division_iff divisorFits_sdiv_iff h fun _ _ => rfl]
        exact Prod.forall
      · cases hop
        rw [performs_division_iff divisorFits_srem_iff h fun _ _ => rfl]
        exact Prod.forall
      · cases hop
        rw [performs_shift_iff h fun _ _ => rfl]
        exact Prod.forall
      · cases hop
        exact performs_subImm_iff h hbyte fun _ _ => rfl
      · cases hop
        rw [performs_floatEqual_iff h fun _ _ => rfl]
        exact Prod.forall
      · exact iff_of_false (not_performs_of_drop h fun _ _ => rfl) id
    · exact iff_of_true (performs_of_computes h (computes_named hbyte hop hdiffering))
        (asNamed_of_not_differing hdiffering)

/-- A state about to execute one instruction, with the same value in all registers. -/
def single (i : Instruction) (v : Variant) : VmState where
  frame := { lambda := some ⟨[i], []⟩, pc := 0, argc := 0, retNum := 0, registers := fun _ => v }
  parents := []
  memory := fun _ => 0

theorem fetches_single (i : Instruction) (v : Variant) : Fetches (single i v) i :=
  ⟨⟨[i], []⟩, rfl, Nat.zero_lt_succ _, rfl⟩

theorem performs_quotient : Performs bareRuntime (single ⟨.IDiv, 0, 1, 2⟩ (.int 7))
      ⟨.IDiv, 0, 1, 2⟩ (.binary (divided BitVec.sdiv)) ↔
    AsNamed bareRuntime.fpu (single ⟨.IDiv, 0, 1, 2⟩ (.int 7)).frame ⟨.IDiv, 0, 1, 2⟩ :=
  (performs_iff bareRuntime ⟨.IDiv, 0, 1, 2⟩ (by decide)).2 _ rfl _ (fetches_single _ _)

/-- Subtracting an immediate from an integer adds it. -/
theorem not_performs : ¬ ∀ rt i op s, namedOperation rt.fpu i.opcode = some op →
    Fetches s i → Performs rt s i op := by
  intro hall
  have h := hall bareRuntime ⟨.ISubImm, 0, 1, 3⟩ _ (single ⟨.ISubImm, 0, 1, 3⟩ (.int 5)) rfl
    (fetches_single _ _)
  rw [performs_subImm_iff (fetches_single _ _) (by decide) fun _ _ => rfl] at h
  rcases h 5 rfl with ⟨p, hp⟩ | hzero
  · cases hp
  · cases hzero

end Soot.Analysis
