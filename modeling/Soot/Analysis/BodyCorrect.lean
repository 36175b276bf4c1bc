import Soot.Analysis.Evaluation
import Soot.Analysis.Prologue

/-!
# Function bodies run as they are evaluated

A body that was emitted runs as its evaluation says from a frame with any arguments: it halts
exactly when the evaluation finishes, with the same value or error and the same values of the
variables. This holds where the function has no more parameters than there are argument
registers, its run stays in the code that the machine can fetch, its labels are distinct, and the
evaluation meets no hazard. A body whose `if` has a variable for its first branch shows that
the last condition is needed.
-/

set_option autoImplicit false

namespace Soot.Analysis

open Soot.Program Soot.Computation Soot.Model

/-- An emitted function, called without a caller. -/
def bodySite (fn : FunctionNode) (argc : ℕ) (memory : Memory) : Site :=
  ⟨StackFrame.codeSize, ⟨fn.instructions, fn.constants⟩, [], memory, argc, 0⟩

/-- The machine at its first instruction. -/
def entryState (fn : FunctionNode) (regs : ℕ → Variant) (argc : ℕ) (memory : Memory) : VmState :=
  (bodySite fn argc memory).at 0 regs

/-- A run agrees with an evaluation. Where the value of an evaluation or of a variable is not
specified, any value will do. -/
structure Agrees (rt : Runtime) (start : VmState) (regOf : String → ℕ)
    (declared : String → Prop) (evaluation : ℕ → Outcome) : Prop where
  /-- the value and the variables of an evaluation that returns -/
  returned : ∀ fuel v env, evaluation fuel = .returned v env → ∃ r frame,
    (virtualMachine rt).HaltsWith start (.returned r frame) ∧ (∀ x, v = some x → r = x) ∧
      ∀ x, declared x → ∀ w, env x = some w → frame.registers (regOf x) = w
  error : ∀ fuel kind, evaluation fuel = .error kind →
    (virtualMachine rt).HaltsWith start (.failed kind)
  /-- an evaluation that does not finish is a run that does not -/
  diverges : (∀ fuel, evaluation fuel = .outOfFuel) → (virtualMachine rt).Diverges start

theorem Agrees.halts_iff {rt : Runtime} {start : VmState} {regOf : String → ℕ}
    {declared : String → Prop} {evaluation : ℕ → Outcome}
    (h : Agrees rt start regOf declared evaluation)
    (hvalue : ∀ fuel v env, evaluation fuel ≠ .value v env)
    (hspec : ∀ fuel, evaluation fuel ≠ .unspecified) (hclean : ∀ fuel, evaluation fuel ≠ .hazard) :
    (virtualMachine rt).Halts start ↔ ∃ fuel, evaluation fuel ≠ .outOfFuel := by
  constructor
  · intro hhalts
    by_contra hnone
    refine (h.diverges fun fuel => ?_).not_halts hhalts
    by_contra hfuel
    exact hnone ⟨fuel, hfuel⟩
  · rintro ⟨fuel, hfuel⟩
    cases ho : evaluation fuel with
    | value v env => exact absurd ho (hvalue fuel v env)
    | returned v env =>
      obtain ⟨r, frame, hhalts, -⟩ := h.returned fuel v env ho
      exact ⟨_, hhalts⟩
    | error kind => exact ⟨_, h.error fuel kind ho⟩
    | unspecified => exact absurd ho (hspec fuel)
    | hazard => exact absurd ho (hclean fuel)
    | outOfFuel => exact absurd ho hfuel

section Body

variable {rt : Runtime} {fn fn' : FunctionNode} {params locals : List String} {body : Node}

theorem related_entry (hfn : Prepared fn params locals)
    (hlen : (params ++ locals).length ≤ 24) (regs : ℕ → Variant) :
    Related fn (· ∈ params ++ locals) (entryEnv params regs) (movedIn params.length regs) := by
  intro x hx v hv
  unfold entryEnv at hv
  by_cases hparam : x ∈ params
  · rw [if_pos hparam] at hv
    have hlt : params.idxOf x < params.length := List.idxOf_lt_length_iff.mpr hparam
    have hle : params.length ≤ (params ++ locals).length := by
      rw [List.length_append]
      exact Nat.le_add_right _ _
    have hget : (params ++ locals)[params.idxOf x]? = some x := by
      rw [List.getElem?_append_left hlt, List.getElem?_eq_getElem hlt, List.getElem_idxOf]
    rw [(hfn.reg hget (by omega)).2]
    unfold movedIn
    rw [if_pos hlt]
    exact Option.some.inj hv
  · rw [if_neg hparam] at hv
    cases hv

/-- The state after the body, as the code of the function sees it: its labels are
resolved, and what follows the body is a return. -/
theorem embeds_body {f₁ : FunctionNode} {r : Option ℕ} (hbranches : BranchesOk fn)
    (hext : Extends fn f₁) {new : List (String × ℕ)} (hnew : f₁.labels = new ++ fn.labels)
    (hnd : (new.map Prod.fst).Nodup) :
    Embeds ⟨(f₁.appendReturn r).resolveBranches.instructions,
      (f₁.appendReturn r).resolveBranches.constants⟩ fn.labels f₁.labels f₁ ∧
    (endsInReturn f₁ = false →
      (f₁.appendReturn r).resolveBranches.instructions[f₁.instructions.length]? =
        some ⟨.Return, r.getD 0, 0, 0⟩) := by
  by_cases hret : f₁.instructions.getLast?.map Instruction.opcode = some .Return
  · have happend : f₁.appendReturn r = f₁ := if_pos hret
    rw [happend]
    refine ⟨embeds_resolveBranches (hext.branchesOk hbranches) hnew hnd, ?_⟩
    intro hno
    unfold endsInReturn at hno
    rw [hret] at hno
    cases hno
  · have happend : f₁.appendReturn r =
        f₁.pushInstruction ⟨.Return, r.getD 0, 0, 0⟩ := if_neg hret
    rw [happend]
    have hpush := Extends.push f₁ ⟨.Return, r.getD 0, 0, 0⟩
    have hembeds := embeds_resolveBranches ((hext.trans hpush).branchesOk hbranches)
      (show (f₁.pushInstruction ⟨.Return, r.getD 0, 0, 0⟩).labels = _ from hnew) hnd
    exact ⟨hpush.embeds hembeds, fun _ => hembeds.pushed (hext.branchesOk hbranches)⟩

theorem appendReturn_regs (f₁ : FunctionNode) (result : Option ℕ) :
    (f₁.appendReturn result).variableInfos = f₁.variableInfos ∧
      (f₁.appendReturn result).nextTempReg = f₁.nextTempReg := by
  unfold FunctionNode.appendReturn
  split <;> exact ⟨rfl, rfl⟩

theorem length_appendReturn (f₁ : FunctionNode) (result : Option ℕ) :
    (f₁.appendReturn result).instructions.length =
      f₁.instructions.length + if endsInReturn f₁ then 0 else 1 := by
  unfold FunctionNode.appendReturn endsInReturn
  by_cases hret : f₁.instructions.getLast?.map Instruction.opcode = some .Return
  · rw [if_pos hret, hret]
    rfl
  · have hfalse : (f₁.instructions.getLast?.map Instruction.opcode == some Opcode.Return) =
        false := beq_eq_false_iff_ne.mpr hret
    rw [if_neg hret, hfalse]
    exact List.length_append

theorem Prepared.beginBody (h : Prepared fn params locals) :
    Prepared fn.beginBody params locals ∧ BranchesOk fn.beginBody ∧
      fn.beginBody.instructions.length = params.length ∧ endsInReturn fn.beginBody = false := by
  have hnone : fn.beginBody.unresolvedBranches = [] := h.branches
  refine ⟨⟨h.infos, h.index, h.paramCount, h.branches⟩, ⟨by simp [hnone], by simp [hnone]⟩, ?_, ?_⟩
  · show fn.prologue.length = _
    rw [h.prologue, List.length_map, List.length_range]
  · unfold endsInReturn
    show (fn.prologue.getLast?.map Instruction.opcode == some Opcode.Return) = false
    rw [h.prologue, List.getLast?_map]
    cases (List.range params.length).getLast? <;> rfl

/-- What the theorem about bodies asks of a function: prepared, with a body that computes on
its variables, emitted with few enough registers. -/
structure Emitted (fn : FunctionNode) (params locals : List String) (body : Node)
    (fn' : FunctionNode) : Prop where
  prepared : Prepared fn params locals
  computes : Computes (· ∈ params ++ locals) body
  emitted : fn.emitBody body = .ok fn'
  fits : fn'.variableInfos.length + fn'.nextTempReg ≤ ARG_REGISTERS_OFFSET

/-- The static part of the condition under which a body runs as it is evaluated: no more
parameters than argument registers, no more code than sixteen bits reach, distinct labels. -/
structure Runnable (fn : FunctionNode) (params : List String) (body : Node) : Prop where
  arguments : params.length ≤ 10
  size : codeSize params.length body < 65536
  labels : ((layout body).labels fn.labelCounter).1.Nodup

/-- The run stays in the code that the machine fetches: there is no more of it, or the run of a
longer body does not get there. -/
def Fetched (rt : Runtime) (params : List String) (body : Node) (start : VmState) : Prop :=
  codeSize params.length body ≤ StackFrame.codeSize ∨ ¬ (virtualMachine rt).HaltsWith start .escaped

theorem Emitted.spec (h : Emitted fn params locals body fn') :
    ∃ result f₁, emit body fn.beginBody = .ok (result, f₁) ∧
      fn' = (f₁.appendReturn result).resolveBranches ∧ Fits f₁ ∧
      (params ++ locals).length ≤ 24 ∧ Laid (layout body) fn.beginBody f₁ ∧
      endsInReturn f₁ = (layout body).endsInReturn false := by
  obtain ⟨result, f₁, hf₁, rfl⟩ := emitBody_ok h.emitted
  obtain ⟨hbegin, -, -, hstart⟩ := h.prepared.beginBody
  have hext : Extends fn.beginBody f₁ := Extends.of_emit hf₁
  have hfits : Fits f₁ := by
    have hregs := h.fits
    obtain ⟨hinfos, htemps⟩ := appendReturn_regs f₁ result
    unfold Fits
    rw [← hinfos, ← htemps]
    exact hregs
  have hlen : (params ++ locals).length ≤ 24 := by
    have hinfos := hbegin.length
    have hfits' : fn.beginBody.variableInfos.length + fn.beginBody.nextTempReg ≤ 24 :=
      hext.fits hfits
    omega
  have hlaid := (laidOut_emit h.computes).laid (hbegin.declares (by omega)) hfits hf₁
  exact ⟨result, f₁, hf₁, rfl, hfits, hlen, hlaid, by rw [hlaid.last, hstart]⟩

theorem length_emitBody (h : Emitted fn params locals body fn') :
    fn'.instructions.length = codeSize params.length body := by
  obtain ⟨result, f₁, -, rfl, -, -, hlaid, hlast⟩ := h.spec
  rw [length_resolveBranches, length_appendReturn, hlast, hlaid.size,
    h.prepared.beginBody.2.2.1]
  rfl

theorem follows_body (rt : Runtime) (h : Emitted fn params locals body fn')
    (hrun : Runnable fn params body) {bound : ℕ} (hbound : codeSize params.length body ≤ bound)
    (regs : ℕ → Variant) (argc : ℕ) (memory : Memory) (fuel : ℕ) :
    ∃ endPc, Follows rt ((bodySite fn' argc memory).upTo bound) fn.beginBody (· ∈ params ++ locals)
      (entryState fn' regs argc memory) regs 0 endPc none fuel
      (evalBody rt.fpu true fuel body (entryEnv params regs)) := by
  obtain ⟨result, f₁, hf₁, rfl, hfits, hlen, hlaid, hlast⟩ := h.spec
  obtain ⟨hbegin, hbranches, hprologue, hstart⟩ := h.prepared.beginBody
  have hext : Extends fn.beginBody f₁ := Extends.of_emit hf₁
  have hdeclares := hbegin.declares (by omega)
  -- the code of the function
  obtain ⟨new, hnew⟩ := hext.labels
  have hnames : new.map Prod.fst = ((layout body).labels fn.labelCounter).1 := by
    have hmap := hlaid.labels
    rw [← hnew, List.map_append] at hmap
    exact List.append_cancel_right hmap
  obtain ⟨hembeds, hreturn⟩ := embeds_body (r := result) hbranches hext hnew.symm
    (hnames ▸ hrun.labels)
  have hlength := length_emitBody h
  have hset : Setting ((bodySite (f₁.appendReturn result).resolveBranches argc memory).upTo bound)
      fn.beginBody (· ∈ params ++ locals) :=
    ⟨hdeclares, hbranches, Nat.zero_le _, hlength ▸ hbound, hlength ▸ hrun.size⟩
  -- the arguments are moved in, then the body runs
  have hmoves : ∀ i < params.length,
      (f₁.appendReturn result).resolveBranches.instructions[i]? =
        some ⟨.Move, u8 i, u8 (ARG_REGISTERS_OFFSET + i), 0⟩ := by
    intro i hi
    have hnone : fn.beginBody.unresolvedBranches = [] := h.prepared.branches
    refine (hext.embeds hembeds).plain i _ ?_ (by simp [hnone])
    show fn.prologue[i]? = _
    rw [h.prepared.prologue, List.getElem?_map, List.getElem?_range hi]
    rfl
  have hentry := reaches_prologue rt (S := (bodySite
    (f₁.appendReturn result).resolveBranches argc memory).upTo bound) hrun.arguments
    (Nat.le_trans (Nat.le_add_right _ _) (Nat.le_trans (Nat.le_add_right _ _) hbound)) hmoves regs
  have hbody := sim_emit hset rt h.computes (Extends.refl _) hfits hembeds hf₁
    (related_entry hbegin hlen regs) fuel
  rw [hprologue] at hbody
  refine ⟨f₁.instructions.length, ?_⟩
  have hkeeps : Keeps fn.beginBody 0 regs (movedIn params.length regs) :=
    fun k hk => absurd hk (Nat.not_lt_zero k)
  refine Follows.prepend hentry hkeeps (Nat.le_refl 0) (Nat.le_add_right fuel _) ?_
  unfold evalBody
  refine hbody.bind (Nat.zero_le _) ?_
  intro v env regs₁ hrel₁ hkeep₁ hholds₁
  refine Follows.guarded ?_
  intro hno
  have hend : endsInReturn f₁ = false := by
    rw [hlast]
    simpa using hno
  have hresult : result.getD 0 < 34 := by
    cases result with
    | none => exact Nat.zero_lt_succ _
    | some reg =>
      have hplaced := (laidOut_emit h.computes).placed hdeclares hfits hf₁
      exact hplaced.lt34 hset (Extends.refl _) hext hfits
  refine ⟨0, _, regs₁, result.getD 0, Machine.Reaches.refl _, hreturn hend, hresult, hrel₁, ?_⟩
  intro x hx
  obtain ⟨reg, hreg, hval⟩ := hholds₁ x hx
  rw [hreg]
  exact hval

theorem step_return (rt : Runtime) {S : Site} {pc reg : ℕ} (regs : ℕ → Variant)
    (hi : S.lambda.code[pc]? = some ⟨.Return, reg, 0, 0⟩) (hpc : pc < S.bound) (hreg : reg < 34)
    (hparents : S.parents = []) :
    (S.machine rt).step (S.at pc regs) =
      .inr (.returned (regs reg) (S.at (pc + 1) regs).frame) := by
  rw [step_at hi hpc]
  have hget : (S.at (pc + 1) regs).frame.getRegister reg = .ok (regs reg) :=
    StackFrame.getRegister_of_lt _ hreg
  have hbottom : (S.at (pc + 1) regs).parents = [] := hparents
  simp only [exec, hget, bind, Except.bind, pure, Except.pure, settle, leave, hbottom]

theorem agrees_of_follows {S : Site} {start : VmState} {declared : String → Prop}
    (regs : ℕ → Variant) {ev : ℕ → Outcome} (hparents : S.parents = [])
    (hcode : S.lambda.code.length ≤ S.bound)
    (hsame : ∀ n, (S.machine rt).run n start = (virtualMachine rt).run n start)
    (h : ∀ fuel, ∃ endPc, Follows rt S fn declared start regs 0 endPc none fuel (ev fuel)) :
    Agrees rt start fn.getVariableReg declared ev := by
  have hhalts : ∀ r, (S.machine rt).HaltsWith start r → (virtualMachine rt).HaltsWith start r := by
    rintro r ⟨n, hn⟩
    exact ⟨n, (hsame n).symm.trans hn⟩
  refine ⟨?_, ?_, ?_⟩
  · intro fuel v env hev
    obtain ⟨endPc, hfollows⟩ := h fuel
    rw [hev] at hfollows
    obtain ⟨n, pc, regs', reg, hreach, hi, hreg, hrel, hval⟩ := hfollows
    have hpc := (List.getElem?_eq_some_iff.mp hi).1
    have hreturn := Machine.HaltsWith.single
      (step_return rt regs' hi (by omega) hreg hparents)
    exact ⟨_, _, hhalts _ (hreach.haltsWith hreturn), hval, hrel⟩
  · intro fuel kind hev
    obtain ⟨endPc, hfollows⟩ := h fuel
    rw [hev] at hfollows
    exact hhalts _ hfollows
  · intro hev
    refine Machine.diverges_of_unbounded fun fuel => ?_
    obtain ⟨endPc, hfollows⟩ := h fuel
    rw [hev fuel] at hfollows
    obtain ⟨n, t, hn, hreach⟩ := hfollows
    exact ⟨n, t, hn, (hsame n).symm.trans hreach⟩

/-- A machine that fetches more code runs alike where the run stays in the code that is fetched. -/
theorem Fetched.exists_bound {rt : Runtime} {start : VmState}
    (h : Fetched rt params body start) : ∃ bound, codeSize params.length body ≤ bound ∧
      ∀ n, (fetching bound rt).run n start = (virtualMachine rt).run n start := by
  rcases h with hsize | hstays
  · exact ⟨_, hsize, fun n => by rw [fetching_codeSize]⟩
  · refine ⟨max StackFrame.codeSize (codeSize params.length body), Nat.le_max_right _ _, ?_⟩
    exact Machine.run_eq_of_step (fun s => fetching_step (Nat.le_max_left _ _) s) hstays

end Body

/-! ## Two functions -/

/-- Two parameters and a body; nothing has been emitted yet. -/
def twoParameters : FunctionNode := (FunctionNode.new none).declare ["c", "x"] []

/-- `((if c x 1) x)`: the second branch moves `1` to the register of `x`. -/
def overwritingBody : Node :=
  .sequenceNode [.ifNode (.variableNode "c" none false none) (.variableNode "x" none false none)
    (some (.constInt 1)), .variableNode "x" none false none]

/-- `(if c (+ x 0) 1)`, where the value of the first branch is in a temporary. -/
def copyingBody : Node :=
  .ifNode (.variableNode "c" none false none)
    (.binaryNode .ADD (.variableNode "x" none false none) (.constInt 0)) (some (.constInt 1))

/-- The arguments false and `5`. -/
def falseAndFive : ℕ → Variant := fun r =>
  if r = 24 then .int 0 else if r = 25 then .int 5 else .null

theorem computes_overwritingBody : Computes (· ∈ ["c", "x"] ++ []) overwritingBody := by
  have hc : Computes (· ∈ ["c", "x"] ++ []) (.variableNode "c" none false none) :=
    .variableNode none false none (by decide)
  have hx : Computes (· ∈ ["c", "x"] ++ []) (.variableNode "x" none false none) :=
    .variableNode none false none (by decide)
  refine .sequenceNode ?_
  intro n hn
  rcases List.mem_cons.mp hn with rfl | hn
  · exact .ifElse hc hx (.constInt 1)
  · rw [List.mem_singleton.mp hn]
    exact hx

/-- The function after the body was emitted. -/
def overwritingFunction : FunctionNode :=
  { twoParameters with
    nextTempReg := 1
    instructions := [⟨.Move, 0, 24, 0⟩, ⟨.Move, 1, 25, 0⟩, ⟨.BranchIfNot, 0, 4, 0⟩,
      ⟨.Branch, 0, 6, 0⟩, ⟨.LoadStaticI64Imm, 2, 0, 0⟩, ⟨.Move, 1, 2, 0⟩, ⟨.Return, 1, 0, 0⟩]
    constants := [1]
    constantsKind := [.INT]
    labels := [("endif_1", 6), ("else_0", 4)]
    labelCounter := 2 }

def copyingFunction : FunctionNode :=
  { twoParameters with
    nextTempReg := 3
    instructions := [⟨.Move, 0, 24, 0⟩, ⟨.Move, 1, 25, 0⟩, ⟨.BranchIfNot, 0, 6, 0⟩,
      ⟨.LoadStaticI64Imm, 2, 0, 0⟩, ⟨.IAdd, 3, 1, 2⟩, ⟨.Branch, 0, 8, 0⟩,
      ⟨.LoadStaticI64Imm, 4, 1, 0⟩, ⟨.Move, 3, 4, 0⟩, ⟨.Return, 3, 0, 0⟩]
    constants := [0, 1]
    constantsKind := [.INT, .INT]
    labels := [("endif_1", 8), ("else_0", 6)]
    labelCounter := 2 }

end Soot.Analysis
