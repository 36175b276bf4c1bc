import Soot.Analysis.IntegerSteps

/-!
# Frames are isolated

What each instruction does to the stack of frames: most keep to their own frame, a call pushes one
on its own, a return takes its own away. So a step of a process is a step of its stack, and a run in
which a callee is not left leaves every frame below the callee as it was at the call.
-/

set_option autoImplicit false

namespace Soot.Analysis

open Soot.Program Soot.Computation Soot.Model

variable {rt : Runtime} {s t : VmState} {i : Instruction} {m : Memory} {f g : StackFrame}

/-! ## Instructions that keep to their frame -/

/-- What a frame keeps for as long as its function runs. -/
structure FrameKept (f g : StackFrame) : Prop where
  lambda : g.lambda = f.lambda
  argc : g.argc = f.argc
  retNum : g.retNum = f.retNum

theorem FrameKept.refl (f : StackFrame) : FrameKept f f := ⟨rfl, rfl, rfl⟩

theorem FrameKept.trans (f g h : StackFrame) (hfg : FrameKept f g) (hgh : FrameKept g h) :
    FrameKept f h where
  lambda := hgh.lambda.trans hfg.lambda
  argc := hgh.argc.trans hfg.argc
  retNum := hgh.retNum.trans hfg.retNum

theorem FrameKept.put (f : StackFrame) (k : ℕ) (v : Variant) : FrameKept f (f.put k v) :=
  ⟨rfl, rfl, rfl⟩

theorem FrameKept.jump (f : StackFrame) (target : ℕ) : FrameKept f (f.jump target) :=
  ⟨rfl, rfl, rfl⟩

theorem frameKept_ite {g h : StackFrame} (b : Bool) (hg : FrameKept f g) (hh : FrameKept f h) :
    FrameKept f (if b = true then g else h) := by
  cases b
  · exact hh
  · exact hg

theorem FrameKept.advance (f : StackFrame) : FrameKept f f.advance := ⟨rfl, rfl, rfl⟩

/-- A computation fails, or its result satisfies a property. -/
structure FailsOr {α : Type} (P : α → Prop) (x : Except VmErrorKind α) : Prop where
  result : ∀ a, x = .ok a → P a

theorem failsOr_ok {α : Type} {P : α → Prop} {a : α} (h : P a) :
    FailsOr P (Except.ok a : Except VmErrorKind α) := by
  constructor
  rintro _ ⟨⟩
  exact h

theorem failsOr_error {α : Type} {P : α → Prop} (e : VmErrorKind) :
    FailsOr P (Except.error e : Except VmErrorKind α) := ⟨nofun⟩

theorem failsOr_bind {α β : Type} {P : β → Prop} {x : Except VmErrorKind α}
    {k : α → Except VmErrorKind β} (h : ∀ a, FailsOr P (k a)) : FailsOr P (x >>= k) := by
  cases x with
  | error e => exact failsOr_error e
  | ok a => exact h a

theorem failsOr_ite {α : Type} {P : α → Prop} {c : Prop} [Decidable c] {x y : Except VmErrorKind α}
    (hx : FailsOr P x) (hy : FailsOr P y) : FailsOr P (if c then x else y) := by
  split
  · exact hx
  · exact hy

/-- An instruction neither calls nor returns. -/
def InFrame (f : StackFrame) : Effect → Prop
  | .continue g _ => FrameKept f g
  | .drop | .undefined => True
  | .leave _ | .enter _ _ _ _ | .yield _ _ _ => False

theorem failsOr_put (k : ℕ) (v : Variant) :
    FailsOr (InFrame f) (pure (.continue (f.put k v) m)) := failsOr_ok (FrameKept.put f k v)

theorem failsOr_self : FailsOr (InFrame f) (pure (.continue f m)) := failsOr_ok (FrameKept.refl f)

theorem failsOr_undefined : FailsOr (InFrame f) (pure .undefined) := failsOr_ok trivial

theorem execBinaryInt_keeps (op : I64 → I64 → Variant) :
    FailsOr (InFrame f) (execBinaryInt rt m f i op) := by
  iterate 5 (apply failsOr_bind; intro)
  apply failsOr_put

theorem execBinaryFloat_keeps (op : BitVec 32 → BitVec 32 → Variant) :
    FailsOr (InFrame f) (execBinaryFloat rt m f i op) := by
  iterate 5 (apply failsOr_bind; intro)
  apply failsOr_put

theorem execUnaryInt_keeps (op : I64 → Variant) :
    FailsOr (InFrame f) (execUnaryInt rt m f i op) := by
  iterate 3 (apply failsOr_bind; intro)
  apply failsOr_put

theorem execUnaryFloat_keeps (op : BitVec 32 → Variant) :
    FailsOr (InFrame f) (execUnaryFloat rt m f i op) := by
  iterate 3 (apply failsOr_bind; intro)
  apply failsOr_put

theorem execIAdd_keeps : FailsOr (InFrame f) (execIAdd rt m f i) := by
  iterate 3 (apply failsOr_bind; intro)
  split
  · apply failsOr_put
  · apply failsOr_put
  · iterate 2 (apply failsOr_bind; intro)
    apply failsOr_put

theorem execDivision_keeps (op : I64 → I64 → I64) :
    FailsOr (InFrame f) (execDivision rt m f i op) := by
  iterate 4 (apply failsOr_bind; intro)
  dsimp only
  split
  · exact failsOr_self
  · apply failsOr_bind
    intro x
    split
    · exact failsOr_undefined
    · apply failsOr_put

theorem execFDiv_keeps : FailsOr (InFrame f) (execFDiv rt m f i) := by
  iterate 4 (apply failsOr_bind; intro)
  split
  · exact failsOr_self
  · apply failsOr_bind
    intro x
    apply failsOr_put

theorem execIntAsh_keeps : FailsOr (InFrame f) (execIntAsh rt m f i) := by
  iterate 5 (apply failsOr_bind; intro)
  dsimp only
  split
  · exact failsOr_undefined
  · apply failsOr_put

theorem execOffsetImm_keeps (op intOp : I64 → I64 → I64) :
    FailsOr (InFrame f) (execOffsetImm rt m f i op intOp) := by
  iterate 2 (apply failsOr_bind; intro)
  dsimp only
  split
  · apply failsOr_put
  · apply failsOr_bind
    intro x
    apply failsOr_put

theorem execIDivImm_keeps : FailsOr (InFrame f) (execIDivImm rt m f i) := by
  iterate 2 (apply failsOr_bind; intro)
  split
  · exact failsOr_self
  · apply failsOr_bind
    intro x
    apply failsOr_put

theorem execLogical_keeps (op : Bool → Bool → Bool) :
    FailsOr (InFrame f) (execLogical rt m f i op) := by
  iterate 3 (apply failsOr_bind; intro)
  apply failsOr_put

theorem execLoad_keeps (size : ℕ) (decode : ℕ → Variant) :
    FailsOr (InFrame f) (execLoad m f i size decode) := by
  iterate 3 (apply failsOr_bind; intro)
  apply failsOr_put

theorem execStore_keeps (size : ℕ) (encode : Variant → Except VmErrorKind ℕ) :
    FailsOr (InFrame f) (execStore m f i size encode) := by
  iterate 4 (apply failsOr_bind; intro)
  exact failsOr_self

theorem execStatic_keeps (decode : BitVec 64 → Variant) :
    FailsOr (InFrame f) (execStatic m f i decode) := by
  apply failsOr_bind
  intro v
  split
  · exact failsOr_undefined
  · apply failsOr_put

theorem execStoreArray_keeps : FailsOr (InFrame f) (execStoreArray m f i) := by
  iterate 4 (apply failsOr_bind; intro)
  split
  · exact failsOr_undefined
  · apply failsOr_bind
    intro v
    apply failsOr_put

theorem exec_inFrame (hreturn : i.opcode ≠ .Return) (hcall : i.opcode ≠ .Call)
    (hnative : i.opcode ≠ .CallFf) (hmethod : i.opcode ≠ .CallMethod) :
    FailsOr (InFrame f) (exec rt m f i) := by
  unfold exec
  split
  all_goals try
    simp only [execBinaryInt_keeps, execBinaryFloat_keeps, execUnaryInt_keeps,
      execUnaryFloat_keeps, execLoad_keeps, execStore_keeps, execStatic_keeps, execLogical_keeps,
      execDivision_keeps, execOffsetImm_keeps, execIAdd_keeps, execFDiv_keeps, execIntAsh_keeps,
      execIDivImm_keeps, execStoreArray_keeps]
  case h_1 hop => exact absurd hop hreturn
  case h_3 hop => exact absurd hop hcall
  case h_4 hop => exact absurd hop hnative
  case h_5 hop => exact absurd hop hmethod
  case h_6 => exact failsOr_ok (FrameKept.jump f _)
  case h_7 =>
    apply failsOr_bind
    intro condition
    exact failsOr_ok (frameKept_ite _ (.jump f _) (.refl f))
  case h_8 =>
    apply failsOr_bind
    intro condition
    exact failsOr_ok (frameKept_ite _ (.refl f) (.jump f _))
  case h_2 =>
    iterate 2 (apply failsOr_bind; intro)
    apply failsOr_put
  case h_18 =>
    apply failsOr_bind
    intro v
    apply failsOr_put
  case h_44 =>
    iterate 2 (apply failsOr_bind; intro)
    apply failsOr_put
  case h_50 =>
    apply failsOr_bind
    intro v
    apply failsOr_put
  -- what is left are the opcodes that the switch has no case for
  all_goals exact failsOr_ok trivial

/-! ## Calls and returns -/

/-- What a call asks of the loop: a frame above the caller, with the registers that the call has
left there. -/
def Enters (rt : Runtime) (f : StackFrame) (i : Instruction) (effect : Effect) : Prop :=
  ∃ target g, effect = .enter target g i.a i.c ∧ FrameKept f g ∧ g.pc = f.pc ∧
    g.registers = registersAfterCall rt f i

theorem execCall_enters (h : i.opcode = .Call) : FailsOr (Enters rt f i) (execCall rt f i) := by
  by_cases hb : i.b < MAX_REGISTERS
  · unfold execCall
    rw [StackFrame.getRegister_of_lt f hb]
    cases hv : f.registers i.b with
    | pointer p =>
      exact failsOr_ok ⟨p, f, rfl, .refl f, rfl, by simp [registersAfterCall, h, hv]⟩
    | int sid =>
      simp only [bind, Except.bind]
      cases hp : rt.findSymbolPtr sid with
      | none => exact failsOr_error _
      | some p =>
        exact failsOr_ok ⟨p, f.put i.b (.pointer p), rfl, .put f _ _, rfl,
          by simp [registersAfterCall, h, hv, hp]⟩
    | float x => exact failsOr_error _
    | null => exact failsOr_error _
  · unfold execCall StackFrame.getRegister
    rw [if_neg hb]
    exact failsOr_error _

theorem execCallMethod_enters (h : i.opcode = .CallMethod) :
    FailsOr (Enters rt f i) (execCallMethod rt m f i) := by
  have henters (target : Word) : Enters rt f i (.enter target f i.a i.c) :=
    ⟨target, f, rfl, .refl f, rfl, by simp [registersAfterCall, h]⟩
  unfold execCallMethod
  refine failsOr_ite ?_ ?_
  · exact failsOr_error .TypeMismatch
  refine failsOr_bind fun id => ?_
  cases f.registers ARG_REGISTERS_OFFSET with
  | pointer obj =>
    cases id with
    | int idx =>
      dsimp only
      refine failsOr_ite ?_ ?_
      · exact failsOr_error .TypeMismatch
      · cases rt.findSymbolPtr (m.readWord obj) with
        | none => exact failsOr_error _
        | some type =>
          dsimp only
          refine failsOr_ite ?_ ?_
          · exact failsOr_error .UndefinedFunction
          · refine failsOr_ite ?_ ?_
            · exact failsOr_error .UndefinedFunction
            · exact failsOr_ok (henters _)
    | _ => exact failsOr_error _
  | _ => exact failsOr_error _

theorem exec_script (h : i.opcode = .Call ∨ i.opcode = .CallMethod) :
    FailsOr (Enters rt f i) (exec rt m f i) := by
  obtain h | h := h
  · have hexec : exec rt m f i = execCall rt f i := by
      unfold exec
      rw [h]
    rw [hexec]
    exact execCall_enters h
  · have hexec : exec rt m f i = execCallMethod rt m f i := by
      unfold exec
      rw [h]
    rw [hexec]
    exact execCallMethod_enters h

/-- What a native function gives: the value goes to the destination. -/
def Answers (rt : Runtime) (m : Memory) (f : StackFrame) (i : Instruction) (effect : Effect) :
    Prop :=
  ∃ p v m' yields, NamesNative rt f i p ∧
    rt.callNative p (arguments f i.c) m = .ok (v, m', yields) ∧
    (effect = .continue (f.put i.a v) m' ∨ effect = .yield v (f.put i.a v) m')

theorem execNative_answers {p : Word} (hp : NamesNative rt f i p) :
    FailsOr (Answers rt m f i) (execNative rt m f i p) := by
  apply failsOr_bind
  intro _
  cases hcall : rt.callNative p (arguments f i.c) m with
  | error e => exact failsOr_error e
  | ok result =>
    obtain ⟨v, m', yields⟩ := result
    cases yields with
    | false => exact failsOr_ok ⟨p, v, m', false, hp, hcall, .inl rfl⟩
    | true => exact failsOr_ok ⟨p, v, m', true, hp, hcall, .inr rfl⟩

theorem exec_native (h : i.opcode = .CallFf) :
    FailsOr (fun effect => effect = .drop ∨ Answers rt m f i effect) (exec rt m f i) := by
  have hexec : exec rt m f i = execCallFf rt m f i := by
    unfold exec
    rw [h]
  rw [hexec]
  have hnative {p : Word} (hp : NamesNative rt f i p) :
      FailsOr (fun effect => effect = .drop ∨ Answers rt m f i effect)
        (execNative rt m f i p) := by
    exact ⟨fun effect heffect => .inr ((execNative_answers hp).result effect heffect)⟩
  by_cases hb : i.b < MAX_REGISTERS
  · unfold execCallFf
    rw [StackFrame.getRegister_of_lt f hb]
    cases hv : f.registers i.b with
    | pointer p => exact hnative (.inl hv)
    | int sid =>
      simp only [bind, Except.bind]
      cases hp : rt.findNativeFunction sid with
      | none => exact failsOr_ok (.inl rfl)
      | some p => exact hnative (.inr ⟨sid, hv, hp⟩)
    | float x => exact failsOr_ok (.inl rfl)
    | null => exact failsOr_ok (.inl rfl)
  · unfold execCallFf StackFrame.getRegister
    rw [if_neg hb]
    exact failsOr_error _

theorem exec_of_return (h : i.opcode = .Return) :
    exec rt m f i = f.getRegister i.a >>= fun v => pure (.leave v) := by
  unfold exec
  rw [h]

theorem exec_return (h : i.opcode = .Return) :
    FailsOr (fun effect => effect = .leave (f.registers i.a)) (exec rt m f i) := by
  rw [exec_of_return h]
  unfold StackFrame.getRegister
  split
  · exact failsOr_ok rfl
  · exact failsOr_error _

/-! ## Steps -/

/-- A step goes on, or yields. -/
def StepsTo (rt : Runtime) (s t : VmState) : Prop :=
  vmStep rt s = .inl t ∨ ∃ v, vmStep rt s = .inr (.yielded v t)

theorem fetches_of_stepsTo (h : StepsTo rt s t) : ∃ i, Fetches s i := by
  unfold StepsTo vmStep at h
  cases hl : s.frame.lambda with
  | none => simp [hl] at h
  | some l =>
    by_cases hpc : s.frame.pc < StackFrame.codeSize
    · cases hi : l.code[s.frame.pc]? with
      | none => simp [hl, hpc, hi] at h
      | some i => exact ⟨i, l, hl, hpc, hi⟩
    · simp [hl, hpc] at h

theorem effect_of_stepsTo (hi : Fetches s i) (h : StepsTo rt s t) :
    ∃ effect, exec rt s.memory s.frame.advance i = .ok effect ∧
      (settle rt (skipped s) (.ok effect) = .inl t ∨
        ∃ v, settle rt (skipped s) (.ok effect) = .inr (.yielded v t)) := by
  unfold StepsTo at h
  rw [vmStep_of_fetches rt hi] at h
  cases hexec : exec rt s.memory s.frame.advance i with
  | error e => simp [hexec, settle] at h
  | ok effect => exact ⟨effect, rfl, by rwa [hexec] at h⟩

/-- A call enters a frame on top of its caller. -/
structure EntersFrame (rt : Runtime) (s : VmState) (i : Instruction) (g : StackFrame)
    (t : VmState) : Prop where
  kept : FrameKept s.frame g
  pc : g.pc = s.frame.pc + 1
  registers : g.registers = registersAfterCall rt s.frame i
  callee : ∃ l, pushCallFrame l g i.a i.c = .ok t.frame
  parents : t.parents = g :: s.parents

theorem script_of_stepsTo (hi : Fetches s i) (hscript : i.opcode = .Call ∨ i.opcode = .CallMethod)
    (h : StepsTo rt s t) : ∃ g, EntersFrame rt s i g t := by
  obtain ⟨effect, hexec, hsettle⟩ := effect_of_stepsTo hi h
  obtain ⟨target, g, rfl, hkept, hpc, hregisters⟩ := (exec_script hscript).result effect hexec
  unfold settle at hsettle
  cases hl : rt.lambdaAt target with
  | none => simp [hl] at hsettle
  | some l =>
    cases hcallee : pushCallFrame l g i.a i.c with
    | error e => simp [hl, hcallee] at hsettle
    | ok callee =>
      simp only [hl, hcallee, Sum.inl.injEq, reduceCtorEq, exists_false, or_false] at hsettle
      subst hsettle
      exact ⟨g, FrameKept.trans _ _ _ (.advance _) hkept, hpc, hregisters, ⟨l, hcallee⟩, rfl⟩

theorem return_of_stepsTo (hi : Fetches s i) (hreturn : i.opcode = .Return) (h : StepsTo rt s t) :
    ∃ p rest, s.parents = p :: rest ∧
      t = ⟨p.put s.frame.retNum (s.frame.registers i.a), rest, s.memory⟩ := by
  obtain ⟨effect, hexec, hsettle⟩ := effect_of_stepsTo hi h
  obtain rfl := (exec_return hreturn).result effect hexec
  unfold settle leave at hsettle
  cases hparents : s.parents with
  | nil => simp [skipped, hparents] at hsettle
  | cons p rest =>
    by_cases hp : p.lambda.isNone = true
    · simp [skipped, hparents, hp] at hsettle
    · simp only [skipped, hparents, hp, Bool.false_eq_true, if_false] at hsettle
      by_cases hdst : s.frame.advance.retNum < MAX_REGISTERS
      · rw [StackFrame.getRegister_of_lt p hdst] at hsettle
        simp only [Sum.inl.injEq, reduceCtorEq, exists_false, or_false] at hsettle
        exact ⟨p, rest, rfl, hsettle.symm⟩
      · rw [StackFrame.getRegister, if_neg hdst] at hsettle
        simp at hsettle

theorem vmStep_return (rt : Runtime) (hi : Fetches s i) (hreturn : i.opcode = .Return)
    (ha : i.a < MAX_REGISTERS) {p : StackFrame} {rest : List StackFrame} {l : ScriptLambda}
    (hparents : s.parents = p :: rest) (hp : p.lambda = some l)
    (hdst : s.frame.retNum < MAX_REGISTERS) :
    vmStep rt s = .inl ⟨p.put s.frame.retNum (s.frame.registers i.a), rest, s.memory⟩ := by
  have hadvance : s.frame.advance.retNum < MAX_REGISTERS := hdst
  rw [vmStep_of_fetches rt hi, exec_of_return hreturn, StackFrame.getRegister_of_lt _ ha]
  simp only [bind, Except.bind, pure, Except.pure, settle, leave, skipped, hparents, hp,
    Option.isNone_some, Bool.false_eq_true, if_false, StackFrame.getRegister_of_lt p hadvance]
  rfl

theorem native_of_stepsTo (hi : Fetches s i) (hnative : i.opcode = .CallFf) (h : StepsTo rt s t) :
    ∃ p v m yields, NamesNative rt s.frame i p ∧
      rt.callNative p (arguments s.frame i.c) s.memory = .ok (v, m, yields) ∧
      t = ⟨s.frame.advance.put i.a v, s.parents, m⟩ := by
  obtain ⟨effect, hexec, hsettle⟩ := effect_of_stepsTo hi h
  obtain rfl | ⟨p, v, m, yields, hp, hcall, rfl | rfl⟩ :=
    (exec_native hnative).result effect hexec
  · simp [settle] at hsettle
  · simp only [settle, Sum.inl.injEq, reduceCtorEq, exists_false, or_false] at hsettle
    exact ⟨p, v, m, yields, hp, hcall, hsettle.symm⟩
  · simp only [settle, reduceCtorEq, Sum.inr.injEq, Halt.yielded.injEq, false_or] at hsettle
    obtain ⟨_, -, rfl⟩ := hsettle
    exact ⟨p, v, m, yields, hp, hcall, rfl⟩

theorem inFrame_of_stepsTo (hi : Fetches s i) (hreturn : i.opcode ≠ .Return)
    (hcall : i.opcode ≠ .Call) (hmethod : i.opcode ≠ .CallMethod) (h : StepsTo rt s t) :
    FrameKept s.frame t.frame ∧ t.parents = s.parents := by
  by_cases hnative : i.opcode = .CallFf
  · obtain ⟨p, v, m, yields, -, -, rfl⟩ := native_of_stepsTo hi hnative h
    exact ⟨FrameKept.trans _ _ _ (.advance _) (.put _ _ _), rfl⟩
  · obtain ⟨effect, hexec, hsettle⟩ := effect_of_stepsTo hi h
    have hin := (exec_inFrame hreturn hcall hnative hmethod).result effect hexec
    cases effect with
    | «continue» f m =>
      simp only [settle, Sum.inl.injEq, reduceCtorEq, exists_false, or_false] at hsettle
      subst hsettle
      exact ⟨FrameKept.trans _ _ _ (.advance _) hin, rfl⟩
    | leave v => exact absurd hin id
    | enter target f dst argc => exact absurd hin id
    | yield v f m => exact absurd hin id
    | drop => simp [settle] at hsettle
    | undefined => simp [settle] at hsettle

/-! ## Runs -/

theorem proceeds_cases {t : VmState} (h : Proceeds rt s t) :
    (∃ u m, StepsTo rt s u ∧ t = ⟨u.frame, u.parents, m⟩) ∨
      FrameKept s.frame t.frame ∧ t.parents = s.parents := by
  cases h with
  | runs h => exact .inl ⟨t, t.memory, .inl h, rfl⟩
  | resumes m h => exact .inl ⟨_, m, .inr ⟨_, h⟩, rfl⟩
  | recovers registers m h => exact .inr ⟨⟨rfl, rfl, rfl⟩, rfl⟩

theorem stackStep_of_proceeds (h : Proceeds rt s t) :
    StackStep FrameKept (callStack s) (callStack t) := by
  have hstay {f : StackFrame} {parents : List StackFrame} {m : Memory}
      (hf : FrameKept s.frame f ∧ parents = s.parents) :
      StackStep FrameKept (callStack s) (callStack ⟨f, parents, m⟩) := by
    unfold callStack
    rw [hf.2]
    exact .change _ hf.1
  obtain ⟨u, m, hstep, rfl⟩ | hkept := proceeds_cases h
  · obtain ⟨i, hi⟩ := fetches_of_stepsTo hstep
    by_cases hscript : i.opcode = .Call ∨ i.opcode = .CallMethod
    · obtain ⟨g, hg⟩ := script_of_stepsTo hi hscript hstep
      unfold callStack
      rw [hg.parents]
      exact .call _ _ hg.kept
    · by_cases hreturn : i.opcode = .Return
      · obtain ⟨p, rest, hparents, rfl⟩ := return_of_stepsTo hi hreturn hstep
        unfold callStack
        rw [hparents]
        exact .leave _ _ (.put p _ _)
      · obtain ⟨hcall, hmethod⟩ := not_or.mp hscript
        exact hstay (inFrame_of_stepsTo hi hreturn hcall hmethod hstep)
  · exact hstay hkept

theorem return_of_shorter (h : Proceeds rt s t)
    (hshort : (callStack t).length < (callStack s).length) :
    ∃ i, Fetches s i ∧ i.opcode = .Return ∧ ∃ p rest, s.parents = p :: rest ∧
      t.frame = p.put s.frame.retNum (s.frame.registers i.a) ∧ t.parents = rest := by
  simp only [callStack, List.length_cons] at hshort
  obtain ⟨u, m, hstep, rfl⟩ | hkept := proceeds_cases h
  · obtain ⟨i, hi⟩ := fetches_of_stepsTo hstep
    by_cases hscript : i.opcode = .Call ∨ i.opcode = .CallMethod
    · obtain ⟨g, hg⟩ := script_of_stepsTo hi hscript hstep
      rw [hg.parents, List.length_cons] at hshort
      omega
    · by_cases hreturn : i.opcode = .Return
      · obtain ⟨p, rest, hparents, rfl⟩ := return_of_stepsTo hi hreturn hstep
        exact ⟨i, hi, hreturn, p, rest, hparents, rfl, rfl⟩
      · obtain ⟨hcall, hmethod⟩ := not_or.mp hscript
        rw [(inFrame_of_stepsTo hi hreturn hcall hmethod hstep).2] at hshort
        omega
  · rw [hkept.2] at hshort
    omega

theorem pushCallFrame_ok {l : ScriptLambda} {dst argc : ℕ} {callee : StackFrame}
    (h : pushCallFrame l f dst argc = .ok callee) : callee = ⟨some l, 0, argc, dst, fun k =>
      if ARG_REGISTERS_OFFSET ≤ k ∧ k < ARG_REGISTERS_OFFSET + argc then f.registers k
      else .null⟩ := by
  unfold pushCallFrame at h
  split at h
  · exact (Except.ok.inj h).symm
  · cases h

section Callee

variable {callee : VmState}

theorem enters_of_entersCall (h : EntersCall rt s i callee) : ∃ g, EntersFrame rt s i g callee :=
  script_of_stepsTo h.fetched h.script (.inl h.entered)

theorem entersFrame_retNum (h : EntersFrame rt s i g callee) : callee.frame.retNum = i.a := by
  obtain ⟨l, hl⟩ := h.callee
  rw [pushCallFrame_ok hl]

theorem standsOn_of_calleeRuns (hcall : EntersFrame rt s i g callee)
    (hrun : CalleeRuns rt s callee t) :
    StandsOn FrameKept callee.frame (g :: s.parents) (callStack t) := by
  have hstart : StandsOn FrameKept callee.frame (g :: s.parents) (callStack callee) :=
    ⟨[], callee.frame, by rw [callStack, hcall.parents]; rfl, .refl _⟩
  have hstep : ∀ a b, Proceeds rt a b → StackStep FrameKept (callStack a) (callStack b) :=
    fun _ _ => stackStep_of_proceeds
  exact hrun.standsOn FrameKept.trans hstep hstart

theorem resumes_put (hcall : EntersFrame rt s i g callee) {u : VmState} {v : Variant}
    (hframe : u.frame = g.put i.a v) (hparents : u.parents = s.parents) :
    Resumes (registersAfterCall rt s.frame i) s i v u where
  pc := by rw [hframe, StackFrame.put_pc, hcall.pc]
  lambda := by rw [hframe, StackFrame.put_lambda, hcall.kept.lambda]
  argc := by rw [hframe, ← hcall.kept.argc]; rfl
  retNum := by rw [hframe, ← hcall.kept.retNum]; rfl
  parents := hparents
  destination := by rw [hframe, StackFrame.put_registers, Function.update_self]
  others := fun k hk => by
    rw [hframe, StackFrame.put_registers, Function.update_of_ne hk, hcall.registers]

end Callee

/-- INTERNAL: Frames are isolated, but for the register that names the function of a `Call`: its id
is replaced by the address. -/
theorem framesIsolated (rt : Runtime) : FramesIsolated rt (registersAfterCall rt) where
  enters := by
    intro s i callee h
    obtain ⟨g, hg⟩ := enters_of_entersCall h
    obtain ⟨l, hl⟩ := hg.callee
    rw [pushCallFrame_ok hl]
    exact ⟨rfl, rfl, fun k => by rw [hg.registers]⟩
  returns := by
    intro s i callee t u h hrun hstep hshort
    obtain ⟨g, hg⟩ := enters_of_entersCall h
    obtain ⟨f, p, q, rest, ht, hbelow, hu, hkept⟩ :=
      (stackStep_of_proceeds hstep).leaves (standsOn_of_calleeRuns hg hrun) hshort
    have hlonger : (callStack u).length < (callStack t).length := by
      rw [ht, hu, List.length_cons, List.length_cons, List.length_cons]
      omega
    obtain ⟨j, hj, hreturn, p', rest', hparents, hframe, hrest⟩ := return_of_shorter hstep hlonger
    obtain ⟨rfl, hrest'⟩ := List.cons.inj ht
    obtain ⟨rfl, rfl⟩ := List.cons.inj (hrest'.symm.trans hparents)
    obtain ⟨rfl, rfl⟩ := List.cons.inj hbelow
    rw [hkept.retNum, entersFrame_retNum hg] at hframe
    exact ⟨j, hj, hreturn, resumes_put hg hframe hrest⟩
  returning := by
    intro s i callee t j h hrun hlength hj hreturn hja hia
    obtain ⟨g, hg⟩ := enters_of_entersCall h
    obtain ⟨inner, f, ht, hkept⟩ := standsOn_of_calleeRuns hg hrun
    have hinner : inner = [] := by
      rw [ht, List.length_append, List.length_cons, List.length_cons, callStack,
        List.length_cons] at hlength
      exact List.eq_nil_of_length_eq_zero (by omega)
    subst hinner
    obtain ⟨rfl, hparents⟩ := List.cons.inj ht
    have hdst : t.frame.retNum = i.a := hkept.retNum.trans (entersFrame_retNum hg)
    obtain ⟨l, hl, -⟩ := h.fetched
    have hreturned := vmStep_return rt hj hreturn hja hparents
      (hg.kept.lambda.trans hl) (hdst ▸ hia)
    exact ⟨_, hreturned, resumes_put hg (by rw [hdst]) rfl⟩
  native := by
    intro s i t hi hnative h
    obtain ⟨p, v, m, yields, hp, hcall, rfl⟩ := native_of_stepsTo hi hnative h
    have hregisters : registersAfterCall rt s.frame i = s.frame.registers := by
      simp [registersAfterCall, hnative]
    refine ⟨p, v, m, yields, hp, hcall, rfl, rfl, rfl, rfl, rfl, ?_, ?_⟩
    · simp
    · intro k hk
      simp [hk, hregisters]

/-- A caller that names its function by an id, and a callee that returns. -/
def callById : VmState :=
  ⟨⟨some ⟨[⟨.Call, 0, 1, 0⟩], []⟩, 0, 0, 0, fun _ => .int 7⟩, [], fun _ => 0⟩

/-- The function with that id. -/
def oneFunction : Runtime :=
  { bareRuntime with
    findSymbolPtr := fun _ => some 8
    lambdaAt := fun _ => some ⟨[⟨.Return, 0, 0, 0⟩], []⟩ }

/-- The register that names the function of a call is not as it was before the call. -/
theorem not_framesIsolated : ¬ ∀ rt : Runtime, FramesIsolated rt fun f _ => f.registers := by
  intro h
  have hfetches : Fetches callById ⟨.Call, 0, 1, 0⟩ :=
    ⟨⟨[⟨.Call, 0, 1, 0⟩], []⟩, rfl, by decide, rfl⟩
  have henters : EntersCall oneFunction callById ⟨.Call, 0, 1, 0⟩ _ :=
    ⟨hfetches, .inl rfl, rfl⟩
  obtain ⟨j, -, -, hresumes⟩ := (h oneFunction).returns callById ⟨.Call, 0, 1, 0⟩ _ _ _ henters
    (.refl (by decide)) (.runs rfl) (by decide)
  have hname := hresumes.others 1 (by decide)
  cases hname

end Soot.Analysis
