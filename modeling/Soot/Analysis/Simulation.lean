import Soot.Analysis.EmitLayout
import Soot.Analysis.Steps

/-!
# The emitted code simulates the guarded evaluation

Every tree that computes on variables is simulated by its code: from the state where its code
begins, with registers that hold the values of the variables, the machine runs to the end of
the code with the value in the register the tree reported, or to a return, or to the error of
the evaluation, and an evaluation that runs out of fuel is a run of at least that many steps.
Registers of temporaries that were allocated before are left alone, so a value survives the
code of the trees that are emitted after it. Where the guarded evaluation stops at a hazard
nothing is promised.
-/

set_option autoImplicit false

namespace Soot.Analysis

open Soot.Program Soot.Computation Soot.Model

variable {regs : ℕ → Variant} {res : Option ℕ} {s t : FunctionNode} {ev : ℕ → Evaluation}
  {env : Env} {o : Outcome}

/-! ## What a piece of code does -/

section Follows

variable (rt : Runtime) (S : Site) (fn : FunctionNode) (declared : String → Prop)

/-- The registers hold the values of the variables that have one. -/
def Related (env : Env) (regs : ℕ → Variant) : Prop :=
  ∀ x, declared x → ∀ v, env x = some v → regs (fn.getVariableReg x) = v

/-- The temporaries below `keep` are the same. -/
def Keeps (keep : ℕ) (regs regs' : ℕ → Variant) : Prop :=
  ∀ k, k < keep → regs' (fn.variableInfos.length + k) = regs (fn.variableInfos.length + k)

/-- A specified value is in the register that was reported for it. -/
def Holds (v : Val) (res : Option ℕ) (regs : ℕ → Variant) : Prop :=
  ∀ x, v = some x → ∃ reg, res = some reg ∧ regs reg = x

/-- From `start`, with registers `regs`, the machine does what the outcome says; code that is
run to its end is left at `endPc`. -/
def Follows (start : VmState) (regs : ℕ → Variant) (keep endPc : ℕ) (res : Option ℕ)
    (fuel : ℕ) : Outcome → Prop
  | .value v env => ∃ n regs', (S.machine rt).Reaches n start (S.at endPc regs') ∧
      Related fn declared env regs' ∧ Keeps fn keep regs regs' ∧ Holds v res regs'
  | .returned v env => ∃ n pc regs' reg,
      (S.machine rt).Reaches n start (S.at pc regs') ∧
      S.lambda.code[pc]? = some ⟨.Return, reg, 0, 0⟩ ∧ reg < 34 ∧
      Related fn declared env regs' ∧ ∀ x, v = some x → regs' reg = x
  | .error kind => (S.machine rt).HaltsWith start (.failed kind)
  | .outOfFuel => ∃ n t, fuel ≤ n ∧ (S.machine rt).Reaches n start t
  | .unspecified => True
  | .hazard => True

variable {rt S fn declared}

theorem Keeps.refl (keep : ℕ) (regs : ℕ → Variant) : Keeps fn keep regs regs := fun _ _ => rfl

theorem Keeps.trans {keep : ℕ} {r₁ r₂ r₃ : ℕ → Variant} (h₁ : Keeps fn keep r₁ r₂)
    (h₂ : Keeps fn keep r₂ r₃) : Keeps fn keep r₁ r₃ := by
  intro k hk
  rw [h₂ k hk, h₁ k hk]

theorem Keeps.mono {keep keep' : ℕ} {r₁ r₂ : ℕ → Variant} (h : Keeps fn keep' r₁ r₂)
    (hle : keep ≤ keep') : Keeps fn keep r₁ r₂ := fun k hk => h k (by omega)

theorem Follows.prepend {start mid : VmState} {regs regs₁ : ℕ → Variant} {keep keep₁ endPc : ℕ}
    {fuel fuel₁ n : ℕ}
    (hreach : (S.machine rt).Reaches n start mid) (hkeep : Keeps fn keep regs regs₁)
    (hle : keep ≤ keep₁) (hfuel : fuel ≤ fuel₁ + n)
    (h : Follows rt S fn declared mid regs₁ keep₁ endPc res fuel₁ o) :
    Follows rt S fn declared start regs keep endPc res fuel o := by
  cases o with
  | value v env =>
    obtain ⟨m, regs', hm, hrel, hkeep', hholds⟩ := h
    exact ⟨n + m, regs', hreach.trans hm, hrel, hkeep.trans (hkeep'.mono hle), hholds⟩
  | returned v env =>
    obtain ⟨m, pc, regs', reg, hm, hrest⟩ := h
    exact ⟨n + m, pc, regs', reg, hreach.trans hm, hrest⟩
  | error kind => exact hreach.haltsWith h
  | outOfFuel =>
    obtain ⟨m, t, hm, ht⟩ := h
    exact ⟨n + m, t, by omega, hreach.trans ht⟩
  | unspecified => trivial
  | hazard => trivial

theorem Follows.bind {pc mid endPc keep keep₁ fuel : ℕ}
    {r res : Option ℕ} {k : Val → Env → Outcome}
    (h : Follows rt S fn declared (S.at pc regs) regs keep₁ mid r fuel o) (hle : keep ≤ keep₁)
    (hk : ∀ v env regs₁, Related fn declared env regs₁ → Keeps fn keep₁ regs regs₁ →
      Holds v r regs₁ →
      Follows rt S fn declared (S.at mid regs₁) regs₁ keep endPc res fuel (k v env)) :
    Follows rt S fn declared (S.at pc regs) regs keep endPc res fuel (o.bind k) := by
  cases o with
  | value v env =>
    obtain ⟨n, regs₁, hn, hrel, hkeep, hholds⟩ := h
    exact (hk v env regs₁ hrel hkeep hholds).prepend hn (hkeep.mono hle) (Nat.le_refl _)
      (Nat.le_add_right _ _)
  | returned v env => exact h
  | error kind => exact h
  | outOfFuel => exact h
  | unspecified => trivial
  | hazard => trivial

theorem Follows.bindSpecified {pc mid endPc keep keep₁ fuel reg : ℕ}
    {k : Variant → Env → Outcome}
    (h : Follows rt S fn declared (S.at pc regs) regs keep₁ mid (some reg) fuel o)
    (hle : keep ≤ keep₁)
    (hk : ∀ v env regs₁, Related fn declared env regs₁ → Keeps fn keep₁ regs regs₁ →
      regs₁ reg = v →
      Follows rt S fn declared (S.at mid regs₁) regs₁ keep endPc res fuel (k v env)) :
    Follows rt S fn declared (S.at pc regs) regs keep endPc res fuel (o.bindSpecified k) := by
  refine h.bind hle ?_
  intro v env regs₁ hrel hkeep hholds
  cases v with
  | none => trivial
  | some x =>
    obtain ⟨reg', hreg, hval⟩ := hholds x rfl
    rw [Option.some.inj hreg] at hk
    exact hk x env regs₁ hrel hkeep hval

theorem Follows.guarded {start : VmState} {keep endPc fuel : ℕ}
    {P : Prop} [Decidable P]
    (h : ¬ P → Follows rt S fn declared start regs keep endPc res fuel o) :
    Follows rt S fn declared start regs keep endPc res fuel (.guarded true P o) := by
  unfold Outcome.guarded
  by_cases hP : P
  · rw [if_pos ⟨rfl, hP⟩]
    trivial
  · rw [if_neg fun hh => hP hh.2]
    exact h hP

theorem Follows.done {pc keep fuel : ℕ} {v : Val}
    (hrel : Related fn declared env regs) (hholds : Holds v res regs) :
    Follows rt S fn declared (S.at pc regs) regs keep pc res fuel (.value v env) :=
  ⟨0, regs, Machine.Reaches.refl _, hrel, Keeps.refl _ _, hholds⟩

theorem Follows.weaken {start : VmState} {keep keep₁ endPc fuel fuel₁ : ℕ}
    (h : Follows rt S fn declared start regs keep₁ endPc res fuel₁ o) (hle : keep ≤ keep₁)
    (hfuel : fuel ≤ fuel₁) : Follows rt S fn declared start regs keep endPc res fuel o :=
  h.prepend (Machine.Reaches.refl _) (Keeps.refl _ _) hle hfuel

/-! ## Writing registers -/

theorem Related.temp (hfn : Declares declared fn)
    (h : Related fn declared env regs) {reg : ℕ} (hreg : fn.variableInfos.length ≤ reg)
    (v : Variant) : Related fn declared env (Function.update regs reg v) := by
  intro x hx w hw
  have hbelow := hfn.below x hx
  rw [Function.update_of_ne (by omega)]
  exact h x hx w hw

theorem Related.assign (hfn : Declares declared fn)
    (h : Related fn declared env regs) {x : String} (hx : declared x) {v : Val} {w : Variant}
    (hv : ∀ y, v = some y → w = y) :
    Related fn declared (Function.update env x v)
      (Function.update regs (fn.getVariableReg x) w) := by
  intro y hy u hu
  by_cases hxy : y = x
  · subst hxy
    rw [Function.update_self] at hu ⊢
    exact hv u hu
  · rw [Function.update_of_ne hxy] at hu
    rw [Function.update_of_ne fun heq => hxy (hfn.inj y x hy hx heq)]
    exact h y hy u hu

theorem Keeps.temp {keep k : ℕ} (hk : keep ≤ k) (regs : ℕ → Variant) (v : Variant) :
    Keeps fn keep regs (Function.update regs (fn.variableInfos.length + k) v) := by
  intro j hj
  rw [Function.update_of_ne (by omega)]

theorem Keeps.variable (hfn : Declares declared fn) {x : String} (hx : declared x) (keep : ℕ)
    (regs : ℕ → Variant) (v : Variant) :
    Keeps fn keep regs (Function.update regs (fn.getVariableReg x) v) := by
  intro j hj
  have hbelow := hfn.below x hx
  rw [Function.update_of_ne (by omega)]

/-! ## Instructions -/

theorem follows_store (hfn : Declares declared fn) {pc keep k fuel : ℕ}
    {e : Except VmErrorKind Variant}
    (hrel : Related fn declared env regs) (hk : keep ≤ k)
    (hstep : (S.machine rt).step (S.at pc regs) =
      S.store (pc + 1) regs (fn.variableInfos.length + k) e) :
    Follows rt S fn declared (S.at pc regs) regs keep (pc + 1)
      (some (fn.variableInfos.length + k)) fuel (Outcome.ofExcept env e) := by
  cases e with
  | ok v =>
    refine ⟨1, _, Machine.Reaches.single hstep, hrel.temp hfn (Nat.le_add_right _ _) v,
      Keeps.temp hk regs v, ?_⟩
    intro x hx
    exact ⟨_, rfl, by rw [Function.update_self]; exact Option.some.inj hx⟩
  | error kind => exact Machine.HaltsWith.single hstep

theorem step_move {pc : ℕ} {dst src : ℕ}
    (hi : S.lambda.code[pc]? = some ⟨.Move, dst, src, 0⟩) (hpc : pc < S.bound) (hd : dst < 34)
    (hs : src < 34) :
    (S.machine rt).step (S.at pc regs) =
      .inl (S.at (pc + 1) (Function.update regs dst (regs src))) := by
  rw [step_at hi hpc, exec_move hd hs]
  rfl

theorem step_branchIfNot {pc : ℕ} {c target : ℕ}
    (hi : S.lambda.code[pc]? = some (Instruction.setImm16 ⟨.BranchIfNot, c, 0, 0⟩ target))
    (hpc : pc < S.bound) (hc : c < 34) :
    (S.machine rt).step (S.at pc regs) =
      .inl (S.at (if (regs c).toBool rt.fpu then pc + 1 else target) regs) := by
  rw [step_at hi hpc]
  have hget : (S.at (pc + 1) regs).frame.getRegister c = .ok (regs c) :=
    StackFrame.getRegister_of_lt _ hc
  simp only [exec, Instruction.setImm16_opcode, Instruction.setImm16_a, hget, bind, Except.bind,
    pure, Except.pure, Instruction.imm16_setImm16]
  split <;> rfl

theorem step_branch {pc : ℕ} {c target : ℕ}
    (hi : S.lambda.code[pc]? = some (Instruction.setImm16 ⟨.Branch, c, 0, 0⟩ target))
    (hpc : pc < S.bound) :
    (S.machine rt).step (S.at pc regs) = .inl (S.at target regs) := by
  rw [step_at hi hpc]
  simp only [exec, Instruction.setImm16_opcode, pure, Except.pure, Instruction.imm16_setImm16]
  rfl

theorem step_loadInt (rt : Runtime) {pc : ℕ} (regs : ℕ → Variant) {a idx : ℕ} {v : Word}
    (hi : S.lambda.code[pc]? = some (Instruction.setImm16 ⟨.LoadStaticI64Imm, a, 0, 0⟩ idx))
    (hpc : pc < S.bound) (ha : a < 34) (hidx : idx < 256)
    (hv : S.lambda.symbols[idx]? = some v) :
    (S.machine rt).step (S.at pc regs) =
      S.store (pc + 1) regs a (.ok (.int v)) := by
  refine step_store hi hpc ?_
  have hget : (S.at (pc + 1) regs).frame.getRegister a = .ok (regs a) :=
    StackFrame.getRegister_of_lt _ ha
  have hsymbol : (S.at (pc + 1) regs).frame.symbol (idx % 256) = some v := by
    rw [Nat.mod_eq_of_lt hidx]
    exact hv
  show execStatic S.memory (S.at (pc + 1) regs).frame
    (Instruction.setImm16 ⟨.LoadStaticI64Imm, a, 0, 0⟩ idx) .int = _
  unfold execStatic
  simp only [Instruction.setImm16, hget, hsymbol, bind, Except.bind, pure, Except.pure, Except.map]

end Follows

/-! ## Trees -/

section Sim

variable (rt : Runtime) (S : Site) (fn : FunctionNode) (declared : String → Prop)
  (resolved : List (String × ℕ))

/-- What the code of an emitter does is what the evaluation says, wherever that code is
embedded in the function. -/
def Sim (e : Emitter) (ev : ℕ → Evaluation) : Prop :=
  ∀ ⦃s t : FunctionNode⦄ ⦃res : Option ℕ⦄ ⦃env : Env⦄ ⦃regs : ℕ → Variant⦄,
    Extends fn s → Fits t → Embeds S.lambda fn.labels resolved t → e s = .ok (res, t) →
    Related fn declared env regs → ∀ fuel : ℕ,
    Follows rt S fn declared (S.at s.instructions.length regs) regs s.nextTempReg
      t.instructions.length res fuel (ev fuel env)

/-- What the simulation needs of the function: variables with registers of their own, no
branches left from before, a pool no larger than the temporaries, and code that the machine can
fetch and that the branches reach. -/
structure Setting : Prop where
  declares : Declares declared fn
  branches : BranchesOk fn
  pool : fn.constants.length ≤ fn.nextTempReg
  code : S.lambda.code.length ≤ S.bound
  reach : S.lambda.code.length < 65536

variable {rt S fn declared resolved} (hset : Setting S fn declared)

include hset

theorem Setting.fetch {pc : ℕ} {i : Instruction} (h : S.lambda.code[pc]? = some i) :
    pc < S.bound := by
  have hlt := (List.getElem?_eq_some_iff.mp h).1
  have hcode := hset.code
  omega

omit hset in
theorem Placed.spec {h : Option String} {reg : ℕ}
    (hp : Placed declared h s t reg) (hs : Extends fn s) :
    (∃ x, h = some x ∧ declared x ∧ reg = fn.getVariableReg x) ∨
      (h = none ∧ ∃ k, s.nextTempReg ≤ k ∧ k < t.nextTempReg ∧
        reg = fn.variableInfos.length + k) := by
  cases h with
  | some x =>
    obtain ⟨hx, rfl⟩ := hp
    exact Or.inl ⟨x, rfl, hx, hs.getVariableReg x⟩
  | none =>
    obtain ⟨k, hlo, hhi, rfl⟩ := hp
    exact Or.inr ⟨rfl, k, hlo, hhi, by rw [hs.variableInfos]⟩

omit hset in
theorem temp_spec {s : FunctionNode} (hs : Extends fn s) (hfits : Fits s.allocTempReg.2) :
    s.allocTempReg.1 = fn.variableInfos.length + s.nextTempReg ∧ s.allocTempReg.1 < 34 := by
  have hle : s.variableInfos.length + (s.nextTempReg + 1) ≤ 24 := hfits
  rw [allocTempReg_fst hfits, hs.variableInfos]
  rw [hs.variableInfos] at hle
  omega

theorem Placed.lt34 {h : Option String} {reg : ℕ}
    (hp : Placed declared h s t reg) (hs : Extends fn s) (hst : Extends s t) (ht : Fits t) :
    reg < 34 := by
  have hlt := hp.lt hst (hs.declares hset.declares) ht
  omega

omit hset in
theorem addConstant_spec (s : FunctionNode) (v : Word) (k : ConstKind)
    (hlt : s.constants.length < 256) :
    (s.addConstant v k).2.constants[(s.addConstant v k).1]? = some v ∧
      (s.addConstant v k).1 < 256 := by
  unfold FunctionNode.addConstant
  by_cases hmem : s.constants.contains v
  · have hidx : s.constants.idxOf v < s.constants.length :=
      List.idxOf_lt_length_iff.mpr (List.contains_iff_mem.mp hmem)
    rw [if_pos hmem]
    simp only [u16_of_lt (show s.constants.idxOf v < 65536 by omega)]
    refine ⟨?_, by omega⟩
    rw [List.getElem?_eq_getElem hidx, List.getElem_idxOf]
  · rw [if_neg hmem]
    simp only [u16_of_lt (show s.constants.length < 65536 by omega)]
    exact ⟨by simp, hlt⟩

theorem sim_const (v : I64) :
    Sim rt S fn declared resolved (emit (.constInt v))
      (fun _ env => .value (some (.int v)) env) := by
  intro s t res env regs hs hfits hemb h hrel fuel
  obtain ⟨reg, hload, rfl⟩ := map_eq_ok.mp h
  obtain ⟨rfl, rfl⟩ := loadConstant_eq_ok.mp hload
  have hsame : (s.addConstant v .INT).2.instructions = s.instructions ∧
      (s.addConstant v .INT).2.unresolvedBranches = s.unresolvedBranches ∧
      (s.addConstant v .INT).2.variableInfos = s.variableInfos ∧
      (s.addConstant v .INT).2.nextTempReg = s.nextTempReg := by
    unfold FunctionNode.addConstant
    split <;> exact ⟨rfl, rfl, rfl, rfl⟩
  obtain ⟨hcode, hbranches, hinfos, htemps⟩ := hsame
  have hle : (s.addConstant v .INT).2.variableInfos.length +
      ((s.addConstant v .INT).2.nextTempReg + 1) ≤ 24 := hfits
  have hreg := allocTempReg_fst (s := (s.addConstant v .INT).2) hfits
  rw [hinfos, htemps] at hle hreg
  have hpool : s.constants.length < 256 := by
    have h₁ := hs.pool
    have h₂ := hset.pool
    omega
  obtain ⟨hconst, hidx⟩ := addConstant_spec s v .INT hpool
  have hok : BranchesOk (s.addConstant v .INT).2.allocTempReg.2 := by
    have hbr := hs.branchesOk hset.branches
    refine ⟨?_, ?_⟩
    · show ∀ b ∈ (s.addConstant v .INT).2.unresolvedBranches,
        b.2 < (s.addConstant v .INT).2.instructions.length
      rw [hbranches, hcode]
      exact hbr.bound
    · show ((s.addConstant v .INT).2.unresolvedBranches.map Prod.snd).Nodup
      rw [hbranches]
      exact hbr.nodup
  have hi := Embeds.pushed (s := (s.addConstant v .INT).2.allocTempReg.2) hemb hok
  have hpos : (s.addConstant v .INT).2.allocTempReg.2.instructions.length =
      s.instructions.length := congrArg List.length hcode
  rw [hpos] at hi
  have hsymbol : S.lambda.symbols[(s.addConstant v .INT).1]? = some v := by
    obtain ⟨rest, hrest⟩ := hemb.constants
    rw [← hrest]
    exact (List.getElem?_append_left (List.getElem?_eq_some_iff.mp hconst).1).trans hconst
  have hstep := step_loadInt rt regs hi (hset.fetch hi) (by omega) hidx hsymbol
  have hend : (pushLoad s .LoadStaticI64Imm v .INT).instructions.length =
      s.instructions.length + 1 := by
    simp [pushLoad, FunctionNode.pushInstruction, hpos]
  rw [hreg, hs.variableInfos] at hstep ⊢
  rw [hend]
  exact follows_store (e := .ok (.int v)) hset.declares hrel (Nat.le_refl _) hstep

theorem sim_variable {x : String} (hx : declared x) (isHeap : Bool) :
    Sim rt S fn declared resolved (emitVariable x isHeap) (fun _ env => .value (env x) env) := by
  intro s t res env regs hs hfits hemb h hrel fuel
  obtain ⟨info, hinfo⟩ := (hs.declares hset.declares).lookup x hx
  obtain ⟨rfl, rfl⟩ := emitVariable_ok hinfo h
  refine Follows.done hrel ?_
  intro v hv
  refine ⟨_, rfl, ?_⟩
  have hreg : info.reg = fn.getVariableReg x := by
    rw [← hs.getVariableReg x]
    simp [FunctionNode.getVariableReg, hinfo]
  rw [hreg]
  exact hrel x hx v hv

theorem sim_binary {left : Node} {l r : Emitter} {evl evr : ℕ → Evaluation} {B : Layout}
    {op : Opcode} {value : Variant → Variant → Except VmErrorKind Variant}
    {isHazard : Variant → Variant → Bool}
    (hl : Sim rt S fn declared resolved l evl) (hr : Sim rt S fn declared resolved r evr)
    (hll : LaidOut declared (layout left) l) (hlr : LaidOut declared B r)
    (hexec : ∀ (f : StackFrame) (a b c : ℕ), a < 34 → b < 34 → c < 34 →
      isHazard (f.registers b) (f.registers c) = false →
      exec rt S.memory f ⟨op, a, b, c⟩ = (value (f.registers b) (f.registers c)).map
        fun v => .continue (f.put a v) S.memory) :
    Sim rt S fn declared resolved (emitBinary op l r)
      (fun fuel => evalOperands true left value isHazard (evl fuel) (evr fuel)) := by
  intro s t res env regs hs hfits hemb h hrel fuel
  obtain ⟨lr, s₁, rr, s₂, hel, her, rfl, rfl⟩ := emitBinary_ok h
  have hext₁ := hll.ext hel
  have hext₂ := hlr.ext her
  have hext₃ := Extends.allocPush s₂ ⟨op, s₂.allocTempReg.1, lr, rr⟩
  have hfits₂ := hext₃.fits hfits
  have hfits₁ := hext₂.fits hfits₂
  have hemb₂ := hext₃.embeds hemb
  have hds := hs.declares hset.declares
  refine (hl hs hfits₁ (hext₂.embeds hemb₂) hel hrel fuel).bind (Nat.le_refl _) ?_
  intro v env₁ regs₁ hrel₁ hkeep₁ hholds₁
  refine (hr (hs.trans hext₁) hfits₂ hemb₂ her hrel₁ fuel).bindSpecified hext₁.temps ?_
  intro y env₂ regs₂ hrel₂ hkeep₂ hy
  cases v with
  | none => trivial
  | some x =>
    refine Follows.guarded ?_
    intro hno
    obtain ⟨hover, hhaz⟩ := not_or.mp hno
    obtain ⟨reg, hreg, hx⟩ := hholds₁ x rfl
    obtain rfl := Option.some.inj hreg
    -- the left value is still there after the right operand
    have hleft : regs₂ lr = x := by
      have hplaced := hll.placed hds hfits₁ hel
      rcases hplaced.spec hs with ⟨z, hz, hdz, rfl⟩ | ⟨-, k, -, hk, rfl⟩
      · refine hrel₂ z hdz x ?_
        by_contra hne
        refine hover ?_
        unfold operandOverwritten home
        rw [hz]
        exact hne
      · rw [hkeep₂ k hk]
        exact hx
    have hlr34 := (hll.placed hds hfits₁ hel).lt34 hset hs hext₁ hfits₁
    have hrr34 := (hlr.placed (hext₁.declares hds) hfits₂ her).lt34 hset (hs.trans hext₁) hext₂
      hfits₂
    have hs₂ := hs.trans (hext₁.trans hext₂)
    obtain ⟨hdest, hdest34⟩ := temp_spec hs₂ hfits
    have hi := hemb.pushed ((hs₂.trans (Extends.alloc s₂)).branchesOk hset.branches)
    have hstep : (S.machine rt).step (S.at s₂.instructions.length regs₂) =
        S.store (s₂.instructions.length + 1) regs₂ s₂.allocTempReg.1 (value x y) := by
      refine step_store hi (hset.fetch hi) ?_
      have hhaz' : isHazard (regs₂ lr) (regs₂ rr) = false := by
        rw [hleft, hy]
        simpa using hhaz
      rw [hexec (S.at (s₂.instructions.length + 1) regs₂).frame _ lr rr hdest34 hlr34 hrr34 hhaz']
      show (value (regs₂ lr) (regs₂ rr)).map _ = _
      rw [hleft, hy]
    rw [hdest] at hstep ⊢
    have hend : (s₂.allocTempReg.2.pushInstruction
        ⟨op, fn.variableInfos.length + s₂.nextTempReg, lr, rr⟩).instructions.length =
        s₂.instructions.length + 1 := by
      simp [FunctionNode.pushInstruction, FunctionNode.allocTempReg]
    rw [hend]
    exact follows_store hset.declares hrel₂
      (Nat.le_trans hext₁.temps hext₂.temps) hstep

theorem sim_unary {e : Emitter} {A : Layout} {op : Opcode}
    {value : Variant → Except VmErrorKind Variant} (he : Sim rt S fn declared resolved e ev)
    (hle : LaidOut declared A e)
    (hexec : ∀ (f : StackFrame) (a b : ℕ), a < 34 → b < 34 →
      exec rt S.memory f ⟨op, a, b, 0⟩ = (value (f.registers b)).map
        fun v => .continue (f.put a v) S.memory) :
    Sim rt S fn declared resolved (emitUnary op e) (fun fuel => evalUnary value (ev fuel)) := by
  intro s t res env regs hs hfits hemb h hrel fuel
  obtain ⟨er, s₁, hee, rfl, rfl⟩ := emitUnary_ok h
  have hext₁ := hle.ext hee
  have hext₂ := Extends.allocPush s₁ ⟨op, s₁.allocTempReg.1, er, 0⟩
  have hfits₁ := hext₂.fits hfits
  refine (he hs hfits₁ (hext₂.embeds hemb) hee hrel fuel).bindSpecified (Nat.le_refl _) ?_
  intro x env₁ regs₁ hrel₁ hkeep₁ hx
  have her34 := (hle.placed (hs.declares hset.declares) hfits₁ hee).lt34 hset hs hext₁ hfits₁
  have hs₁ := hs.trans hext₁
  obtain ⟨hdest, hdest34⟩ := temp_spec hs₁ hfits
  have hi := hemb.pushed ((hs₁.trans (Extends.alloc s₁)).branchesOk hset.branches)
  have hstep : (S.machine rt).step (S.at s₁.instructions.length regs₁) =
      S.store (s₁.instructions.length + 1) regs₁ s₁.allocTempReg.1 (value x) := by
    refine step_store hi (hset.fetch hi) ?_
    rw [hexec (S.at (s₁.instructions.length + 1) regs₁).frame _ er hdest34 her34]
    show (value (regs₁ er)).map _ = _
    rw [hx]
  rw [hdest] at hstep ⊢
  have hend : (s₁.allocTempReg.2.pushInstruction
      ⟨op, fn.variableInfos.length + s₁.nextTempReg, er, 0⟩).instructions.length =
      s₁.instructions.length + 1 := by
    simp [FunctionNode.pushInstruction, FunctionNode.allocTempReg]
  rw [hend]
  exact follows_store hset.declares hrel₁ hext₁.temps hstep

theorem reaches_move (rt : Runtime) {dst src : ℕ} {u : Unit}
    (regs : ℕ → Variant)
    (hs : Extends fn s) (hemb : Embeds S.lambda fn.labels resolved t)
    (h : moveUnlessSame dst src s = .ok (u, t)) (hd : dst < 34) (hsrc : src < 34) :
    ∃ n, (S.machine rt).Reaches n (S.at s.instructions.length regs)
      (S.at t.instructions.length (Function.update regs dst (regs src))) := by
  rcases moveUnlessSame_ok h with ⟨rfl, rfl⟩ | ⟨hne, rfl⟩
  · refine ⟨0, ?_⟩
    rw [Function.update_eq_self]
    exact Machine.Reaches.refl _
  · have hi := hemb.pushed (hs.branchesOk hset.branches)
    refine ⟨1, Machine.Reaches.single ?_⟩
    rw [step_move hi (hset.fetch hi) hd hsrc]
    simp [FunctionNode.pushInstruction]

theorem variable_lt34 {x : String} (hx : declared x) (hfits : Fits fn) :
    fn.getVariableReg x < 34 := by
  have hbelow := hset.declares.below x hx
  have hle : fn.variableInfos.length + fn.nextTempReg ≤ 24 := hfits
  omega

theorem follows_assign {e : Emitter} {A : Layout}
    (he : Sim rt S fn declared resolved e ev) (hle : LaidOut declared A e) {x : String}
    (hx : declared x) {s s₁ t : FunctionNode} {er fuel keep endPc : ℕ} {u : Unit}
    {k : Val → Env → Outcome} (hs : Extends fn s)
    (hfits : Fits t) (hemb : Embeds S.lambda fn.labels resolved t)
    (hee : e s = .ok (some er, s₁))
    (hmove : moveUnlessSame (s₁.getVariableReg x) er s₁ = .ok (u, t))
    (hrel : Related fn declared env regs) (hkeep : keep ≤ s.nextTempReg)
    (hk : ∀ v env₁ regs₁, Related fn declared (Function.update env₁ x v) regs₁ →
      Keeps fn s.nextTempReg regs regs₁ → Holds v (some er) regs₁ →
      Follows rt S fn declared (S.at t.instructions.length regs₁) regs₁ keep endPc res fuel
        (k v env₁)) :
    Follows rt S fn declared (S.at s.instructions.length regs) regs keep endPc res fuel
      ((ev fuel env).bind k) := by
  have hext₁ := hle.ext hee
  have hext₂ := Extends.move hmove
  have hfits₁ := hext₂.fits hfits
  have hs₁ := hs.trans hext₁
  refine (he hs hfits₁ (hext₂.embeds hemb) hee hrel fuel).bind hkeep ?_
  intro v env₁ regs₁ hrel₁ hkeep₁ hholds₁
  have her34 := (hle.placed (hs.declares hset.declares) hfits₁ hee).lt34 hset hs hext₁ hfits₁
  have hx34 := variable_lt34 hset hx (hs₁.fits hfits₁)
  rw [hs₁.getVariableReg] at hmove
  obtain ⟨n, hreach⟩ := reaches_move hset rt regs₁ hs₁ hemb hmove hx34 her34
  have hvalue : ∀ y, v = some y → regs₁ er = y := by
    intro y hy
    obtain ⟨reg, hreg, hval⟩ := hholds₁ y hy
    rw [Option.some.inj hreg]
    exact hval
  have hkeep₂ := Keeps.variable hset.declares hx s.nextTempReg regs₁ (regs₁ er)
  refine (hk v env₁ _ (hrel₁.assign hset.declares hx hvalue) (hkeep₁.trans hkeep₂) ?_).prepend
    hreach (hkeep₂.mono hkeep) (Nat.le_refl _) (Nat.le_add_right _ _)
  intro y hy
  refine ⟨er, rfl, ?_⟩
  by_cases heq : er = fn.getVariableReg x
  · rw [← heq, Function.update_self]
    exact hvalue y hy
  · rw [Function.update_of_ne heq]
    exact hvalue y hy

theorem sim_assign {e : Emitter} {A : Layout}
    (he : Sim rt S fn declared resolved e ev) (hle : LaidOut declared A e) {x : String}
    (hx : declared x) :
    Sim rt S fn declared resolved (emitSetVariable x e)
      (fun fuel env => (ev fuel env).bind fun v env₁ => .value v (Function.update env₁ x v)) := by
  intro s t res env regs hs hfits hemb h hrel fuel
  obtain ⟨er, s₁, hee, rfl, hmove⟩ := emitSetVariable_ok h
  refine follows_assign hset he hle hx hs hfits hemb hee hmove hrel (Nat.le_refl _) ?_
  intro v env₁ regs₁ hrel₁ hkeep₁ hholds₁
  exact Follows.done hrel₁ hholds₁

theorem follows_bindings {bs : List (String × Node)} {guard : Bool}
    (hsim : ∀ p ∈ bs, Sim rt S fn declared resolved (emit p.2)
      (fun fuel => eval rt.fpu guard fuel p.2))
    (hlaid : ∀ p ∈ bs, LaidOut declared (layout p.2) (emit p.2))
    (hnames : ∀ p ∈ bs, declared p.1) {u : Unit} {fuel keep endPc : ℕ}
    {k : Env → Outcome} (hs : Extends fn s)
    (hfits : Fits t) (hemb : Embeds S.lambda fn.labels resolved t)
    (h : emitBindings (emitters₂ bs) s = .ok (u, t)) (hrel : Related fn declared env regs)
    (hkeep : keep ≤ s.nextTempReg)
    (hk : ∀ env₁ regs₁, Related fn declared env₁ regs₁ →
      Follows rt S fn declared (S.at t.instructions.length regs₁) regs₁ keep endPc res fuel
        (k env₁)) :
    Follows rt S fn declared (S.at s.instructions.length regs) regs keep endPc res fuel
      (evalBindings (evals₂ rt.fpu guard fuel bs) k env) := by
  induction bs generalizing s env regs with
  | nil =>
    obtain ⟨-, rfl⟩ := pure_eq_ok.mp h
    exact hk env regs hrel
  | cons p bs ih =>
    obtain ⟨x, n⟩ := p
    obtain ⟨hn, hsims⟩ := List.forall_mem_cons.mp hsim
    obtain ⟨hln, hlaids⟩ := List.forall_mem_cons.mp hlaid
    obtain ⟨hx, hxs⟩ := List.forall_mem_cons.mp hnames
    obtain ⟨er, s₁, s₂, hee, hmove, hes⟩ := emitBindings_cons_ok h
    have hext₁ := (hln.ext hee).trans (Extends.move hmove)
    have hext₂ : Extends s₂ t :=
      Extends.stable.emitBindings (Stable.emitters₂_preserve fun q hq => (hlaids q hq).ext) hes
    refine follows_assign hset hn hln hx hs (hext₂.fits hfits) (hext₂.embeds hemb) hee hmove
      hrel hkeep ?_
    intro v env₁ regs₁ hrel₁ hkeep₁ hholds₁
    exact ih hsims hlaids hxs (hs.trans hext₁) hes hrel₁ (Nat.le_trans hkeep hext₁.temps)

theorem sim_let {bs : List (String × Node)} {b : Node} {guard : Bool}
    (hsim : ∀ p ∈ bs, Sim rt S fn declared resolved (emit p.2)
      (fun fuel => eval rt.fpu guard fuel p.2))
    (hlaid : ∀ p ∈ bs, LaidOut declared (layout p.2) (emit p.2))
    (hnames : ∀ p ∈ bs, declared p.1)
    (hb : Sim rt S fn declared resolved (emit b) (fun fuel => eval rt.fpu guard fuel b))
    (hlb : LaidOut declared (layout b) (emit b)) :
    Sim rt S fn declared resolved (emitLet (emitters₂ bs) (emit b))
      (fun fuel => evalBindings (evals₂ rt.fpu guard fuel bs) (eval rt.fpu guard fuel b)) := by
  intro s t res env regs hs hfits hemb h hrel fuel
  obtain ⟨s₁, br, hes, heb, rfl⟩ := emitLet_ok h
  have hext₁ : Extends s s₁ :=
    Extends.stable.emitBindings (Stable.emitters₂_preserve fun q hq => (hlaid q hq).ext) hes
  have hext₂ := hlb.ext heb
  refine follows_bindings hset hsim hlaid hnames hs (hext₂.fits hfits) (hext₂.embeds hemb) hes
    hrel (Nat.le_refl _) ?_
  intro env₁ regs₁ hrel₁
  exact (hb (hs.trans hext₁) hfits hemb heb hrel₁ fuel).weaken hext₁.temps (Nat.le_refl _)

omit hset in
theorem follows_sequence {ns : List Node} {guard : Bool}
    (hsim : ∀ n ∈ ns, Sim rt S fn declared resolved (emit n)
      (fun fuel => eval rt.fpu guard fuel n))
    (hlaid : ∀ n ∈ ns, LaidOut declared (layout n) (emit n))
    {r : Option ℕ} {rs : List (Option ℕ)} {fuel keep : ℕ} {v : Val}
    (hs : Extends fn s) (hfits : Fits t)
    (hemb : Embeds S.lambda fn.labels resolved t) (h : emitEach (emitters ns) s = .ok (rs, t))
    (hrel : Related fn declared env regs) (hholds : Holds v r regs)
    (hkeep : keep ≤ s.nextTempReg) :
    Follows rt S fn declared (S.at s.instructions.length regs) regs keep t.instructions.length
      (r :: rs).getLast?.join fuel (evalSequence (evals rt.fpu guard fuel ns) v env) := by
  induction ns generalizing s r rs v env regs with
  | nil =>
    obtain ⟨rfl, rfl⟩ := pure_eq_ok.mp h
    exact Follows.done hrel hholds
  | cons n ns ih =>
    obtain ⟨hn, hsims⟩ := List.forall_mem_cons.mp hsim
    obtain ⟨hln, hlaids⟩ := List.forall_mem_cons.mp hlaid
    obtain ⟨r', s₁, rs', hen, hes, rfl⟩ := emitEach_cons_ok h
    have hext₁ := hln.ext hen
    have hext₂ : Extends s₁ t :=
      Extends.stable.emitEach (Stable.emitters_preserve fun q hq => (hlaids q hq).ext) hes
    rw [List.getLast?_cons_cons]
    refine (hn hs (hext₂.fits hfits) (hext₂.embeds hemb) hen hrel fuel).bind hkeep ?_
    intro v₁ env₁ regs₁ hrel₁ hkeep₁ hholds₁
    exact ih hsims hlaids (hs.trans hext₁) hes hrel₁ hholds₁ (Nat.le_trans hkeep hext₁.temps)

omit hset in
theorem sim_sequence {ns : List Node} {guard : Bool}
    (hsim : ∀ n ∈ ns, Sim rt S fn declared resolved (emit n)
      (fun fuel => eval rt.fpu guard fuel n))
    (hlaid : ∀ n ∈ ns, LaidOut declared (layout n) (emit n)) :
    Sim rt S fn declared resolved (emitSequence (emitters ns))
      (fun fuel => evalSequence (evals rt.fpu guard fuel ns) none) := by
  intro s t res env regs hs hfits hemb h hrel fuel
  obtain ⟨rs, hes, rfl⟩ := emitSequence_ok h
  have hnone : Holds none none regs := fun x hx => by cases hx
  have hfollows : Follows rt S fn declared (S.at s.instructions.length regs) regs s.nextTempReg
      t.instructions.length (none :: rs).getLast?.join fuel
      (evalSequence (evals rt.fpu guard fuel ns) none env) :=
    follows_sequence hsim hlaid hs hfits hemb hes hrel hnone (Nat.le_refl _)
  have hlast : (none :: rs).getLast?.join = rs.getLast?.join := by
    cases rs with
    | nil => rfl
    | cons r rs => rw [List.getLast?_cons_cons]
  rwa [hlast] at hfollows

theorem sim_return {e : Emitter} {A : Layout}
    (he : Sim rt S fn declared resolved e ev) (hle : LaidOut declared A e) :
    Sim rt S fn declared resolved (emitReturn (some e))
      (fun fuel env => (ev fuel env).bind .returned) := by
  intro s t res env regs hs hfits hemb h hrel fuel
  obtain ⟨er, s₁, hee, rfl, rfl⟩ := emitReturn_some_ok h
  have hext₁ := hle.ext hee
  have hext₂ := Extends.push s₁ ⟨.Return, er, 0, 0⟩
  have hfits₁ := hext₂.fits hfits
  refine (he hs hfits₁ (hext₂.embeds hemb) hee hrel fuel).bind (Nat.le_refl _) ?_
  intro v env₁ regs₁ hrel₁ hkeep₁ hholds₁
  have her34 := (hle.placed (hs.declares hset.declares) hfits₁ hee).lt34 hset hs hext₁ hfits₁
  have hi := hemb.pushed ((hs.trans hext₁).branchesOk hset.branches)
  refine ⟨0, _, regs₁, er, Machine.Reaches.refl _, hi, her34, hrel₁, ?_⟩
  intro x hx
  obtain ⟨reg, hreg, hval⟩ := hholds₁ x hx
  rw [Option.some.inj hreg]
  exact hval

theorem sim_returnVoid :
    Sim rt S fn declared resolved (emitReturn none) (fun _ env => .returned none env) := by
  intro s t res env regs hs hfits hemb h hrel fuel
  obtain ⟨rfl, rfl⟩ := emitReturn_none_ok h
  have hi := hemb.pushed (hs.branchesOk hset.branches)
  exact ⟨0, _, regs, 0, Machine.Reaches.refl _, hi, by omega, hrel, fun x hx => by cases hx⟩

theorem Follows.thenBranch {s : FunctionNode} {start : VmState}
    {keep fuel target : ℕ} {label : String} {c : ℕ}
    (h : Follows rt S fn declared start regs keep s.instructions.length res fuel o)
    (hemb : Embeds S.lambda fn.labels resolved (pushBranch s .Branch c label))
    (htarget : resolved.lookup label = some target) (hle : target < 65536) :
    Follows rt S fn declared start regs keep target res fuel o := by
  have hi := hemb.branched htarget
  rw [u16_of_lt hle] at hi
  cases o with
  | value v env =>
    obtain ⟨n, regs', hn, hrel, hkeep, hholds⟩ := h
    exact ⟨n + 1, regs', hn.tail (step_branch hi (hset.fetch hi)), hrel, hkeep, hholds⟩
  | returned v env => exact h
  | error kind => exact h
  | outOfFuel => exact h
  | unspecified => trivial
  | hazard => trivial

theorem label_spec {s : FunctionNode} {name : String} (hs : Extends fn s)
    (hemb : Embeds S.lambda fn.labels resolved (s.addLabel name)) :
    resolved.lookup name = some s.instructions.length ∧ s.instructions.length < 65536 := by
  refine ⟨hemb.labelled hs.labels, ?_⟩
  have hlen : s.instructions.length ≤ S.lambda.code.length := hemb.length
  have hreach := hset.reach
  omega

theorem step_condition (rt : Runtime) {s : FunctionNode} {c target : ℕ} {label : String}
    {x : Variant} (hemb : Embeds S.lambda fn.labels resolved (pushBranch s .BranchIfNot c label))
    (htarget : resolved.lookup label = some target) (hle : target < 65536) (hc : c < 34)
    (hx : regs c = x) :
    (S.machine rt).step (S.at s.instructions.length regs) =
      .inl (S.at (if x.toBool rt.fpu then s.instructions.length + 1 else target) regs) := by
  have hi := hemb.branched htarget
  rw [u16_of_lt hle] at hi
  rw [step_branchIfNot hi (hset.fetch hi) hc, hx]

/-- After the `else` branch its value is moved to where the value of the first branch
lives; where that is the register of a variable, the variable had that value already. -/
theorem follows_join {th e : Node} {s s' s₁ t : FunctionNode} {tr er keep fuel : ℕ} {u : Unit}
    {v : Val} (hs : Extends fn s₁)
    (hemb : Embeds S.lambda fn.labels resolved t) (hmove : moveUnlessSame tr er s₁ = .ok (u, t))
    (hthen : (∃ x, home th = some x ∧ declared x ∧ tr = fn.getVariableReg x) ∨
      (home th = none ∧ ∃ k, keep ≤ k ∧ k < s.nextTempReg ∧
        tr = fn.variableInfos.length + k))
    (helse : (∃ x, home e = some x ∧ declared x ∧ er = fn.getVariableReg x) ∨
      (home e = none ∧ ∃ k, s'.nextTempReg ≤ k ∧ k < s₁.nextTempReg ∧
        er = fn.variableInfos.length + k))
    (htr : tr < 34) (her : er < 34) (hrel : Related fn declared env regs)
    (hholds : Holds v (some er) regs) (hno : ¬ branchOverwrites th e v env) :
    Follows rt S fn declared (S.at s₁.instructions.length regs) regs keep t.instructions.length
      (some tr) fuel (.value v env) := by
  obtain ⟨n, hreach⟩ := reaches_move hset rt regs hs hemb hmove htr her
  have hvalue : ∀ y, v = some y → regs er = y := by
    intro y hy
    obtain ⟨reg, hreg, hval⟩ := hholds y hy
    rw [Option.some.inj hreg]
    exact hval
  refine ⟨n, _, hreach, ?_, ?_, ?_⟩
  · rcases hthen with ⟨x, hhome, hx, rfl⟩ | ⟨-, k, -, -, rfl⟩
    · by_cases heq : er = fn.getVariableReg x
      · rw [heq, Function.update_eq_self]
        exact hrel
      · have helsewhere : home e ≠ some x := by
          intro hhx
          rcases helse with ⟨y, hy, -, rfl⟩ | ⟨hnone, -⟩
          · rw [hhx] at hy
            exact heq (by rw [Option.some.inj hy])
          · rw [hhx] at hnone
            cases hnone
        have hsame : env x = none ∨ env x = v := by
          unfold branchOverwrites at hno
          rw [hhome] at hno
          by_contra hcontra
          obtain ⟨h₁, h₂⟩ := not_or.mp hcontra
          exact hno ⟨helsewhere, h₁, h₂⟩
        intro y hy w hw
        by_cases hyx : y = x
        · subst hyx
          rw [Function.update_self]
          rcases hsame with hn | hv
          · rw [hn] at hw
            cases hw
          · exact hvalue w (hv.symm.trans hw)
        · rw [Function.update_of_ne fun hh => hyx (hset.declares.inj y x hy hx hh)]
          exact hrel y hy w hw
    · exact hrel.temp hset.declares (Nat.le_add_right _ _) _
  · rcases hthen with ⟨x, -, hx, rfl⟩ | ⟨-, k, hk, -, rfl⟩
    · exact Keeps.variable hset.declares hx keep regs _
    · exact Keeps.temp hk regs _
  · intro y hy
    exact ⟨tr, rfl, by rw [Function.update_self]; exact hvalue y hy⟩

theorem sim_if {th : Node} {c t : Emitter} {evc evt : ℕ → Evaluation} {A : Layout}
    (hc : Sim rt S fn declared resolved c evc) (ht : Sim rt S fn declared resolved t evt)
    (hlc : LaidOut declared A c) (hlt : LaidOut declared (layout th) t)
    {en : Option Node} {e : Option Emitter} {eve : Option (ℕ → Evaluation)}
    (hnone : en = none → e = none ∧ eve = none)
    (hsome : ∀ n ∈ en, ∃ x ∈ e, ∃ ev ∈ eve, Sim rt S fn declared resolved x ev ∧
      LaidOut declared (layout n) x) :
    Sim rt S fn declared resolved (emitIf c t e)
      (fun fuel => evalIf rt.fpu true th en (evc fuel) (evt fuel) (eve.map fun ev => ev fuel)) := by
  intro s u res env regs hs hfits hemb h hrel fuel
  obtain ⟨cr, s₁, tr, s₂, s₃, hec, het, hels, rfl, rfl⟩ := emitIf_ok h
  -- the states of the emission, each an extension of the one before
  have hext₁ := hlc.ext hec
  have hext₁' := Extends.afterCondition s₁ cr
  have hext₂ := hlt.ext het
  have hext₂' := Extends.branchLabel s₂ (endifLabel s₁) (s₁.createUniqueLabel "else").1
  have hext₃ : Extends ((pushBranch s₂ .Branch 0 (endifLabel s₁)).addLabel
      (s₁.createUniqueLabel "else").1) s₃ := by
    cases en with
    | none =>
      obtain ⟨rfl, -⟩ := hnone rfl
      obtain rfl := hels
      exact Extends.refl _
    | some n =>
      obtain ⟨x, hx, ev, -, -, hlx⟩ := hsome n rfl
      obtain rfl := Option.mem_def.mp hx
      obtain ⟨er, s₄, hee, hmove⟩ := hels
      exact (hlx.ext hee).trans (Extends.move hmove)
  have hext₃' := Extends.stable.label s₃ (endifLabel s₁)
  have hs₁ := hs.trans hext₁
  have hs₁' := hs₁.trans hext₁'
  have hs₂ := hs₁'.trans hext₂
  have hs₂' := hs₂.trans hext₂'
  have hs₃ := hs₂'.trans hext₃
  have hfits₃ : Fits s₃ := hfits
  have hfits₂' := hext₃.fits hfits₃
  have hfits₂ := hext₂'.fits hfits₂'
  have hfits₁ := hext₁'.fits (hext₂.fits hfits₂)
  have hemb₃ := hext₃'.embeds hemb
  have hemb₂' := hext₃.embeds hemb₃
  have hemb₂ := hext₂'.embeds hemb₂'
  have hemb₁' := hext₂.embeds hemb₂
  have hds := hs.declares hset.declares
  -- the targets of the two branches
  have hlen₂ : (pushBranch s₂ .Branch 0 (endifLabel s₁)).instructions.length =
      s₂.instructions.length + 1 := by
    simp [pushBranch, FunctionNode.pushInstruction]
  obtain ⟨helse, helseLe⟩ := label_spec hset
    (hs₂.trans (Extends.stable.branch s₂ .Branch 0 (endifLabel s₁))) hemb₂'
  obtain ⟨hend, hendLe⟩ := label_spec hset hs₃ hemb
  have hcr := (hlc.placed hds hfits₁ hec).lt34 hset hs hext₁ hfits₁
  refine (hc hs hfits₁ (hext₁'.embeds hemb₁') hec hrel fuel).bindSpecified (Nat.le_refl _) ?_
  intro x env₁ regs₁ hrel₁ hkeep₁ hx
  have hstep := step_condition hset rt
    (s := { s₁ with labelCounter := s₁.labelCounter + 2 }) hemb₁' helse helseLe hcr hx
  have hlen₁ : (afterCondition s₁ cr).instructions.length = s₁.instructions.length + 1 := by
    simp [afterCondition, pushBranch, FunctionNode.pushInstruction]
  show Follows rt S fn declared (S.at s₁.instructions.length regs₁) regs₁ s.nextTempReg
    s₃.instructions.length (some tr) fuel _
  by_cases hcond : x.toBool rt.fpu = true
  · rw [if_pos hcond] at hstep ⊢
    have hthen := ht hs₁' hfits₂ hemb₂ het hrel₁ fuel
    rw [hlen₁] at hthen
    have hthen' := hthen.thenBranch hset
      ((Extends.stable.label _ _).embeds hemb₂') hend hendLe
    exact hthen'.prepend (Machine.Reaches.single hstep) (Keeps.refl _ _)
      (Nat.le_trans hext₁.temps hext₁'.temps) (Nat.le_add_right _ _)
  · rw [if_neg hcond] at hstep ⊢
    cases en with
    | none =>
      obtain ⟨rfl, rfl⟩ := hnone rfl
      obtain rfl := hels
      have hdone : Follows rt S fn declared
          (S.at (pushBranch s₂ .Branch 0 (endifLabel s₁)).instructions.length regs₁) regs₁
          s.nextTempReg (pushBranch s₂ .Branch 0 (endifLabel s₁)).instructions.length (some tr)
          fuel (.value none env₁) :=
        Follows.done hrel₁ (fun y hy => by cases hy)
      exact hdone.prepend (Machine.Reaches.single hstep) (Keeps.refl _ _) (Nat.le_refl _)
        (Nat.le_add_right _ _)
    | some n =>
      obtain ⟨e', he', ev, hev, hsim, hle⟩ := hsome n rfl
      obtain rfl := Option.mem_def.mp he'
      obtain rfl := Option.mem_def.mp hev
      obtain ⟨er, s₄, hee, hmove⟩ := hels
      have hext₄ := hle.ext hee
      have hext₄' := Extends.move hmove
      have hfits₄ := hext₄'.fits hfits₃
      have hels := hsim hs₂' hfits₄ (hext₄'.embeds hemb₃) hee hrel₁ fuel
      have htemps : s.nextTempReg ≤ ((pushBranch s₂ .Branch 0 (endifLabel s₁)).addLabel
          (s₁.createUniqueLabel "else").1).nextTempReg :=
        ((hext₁.trans hext₁').trans (hext₂.trans hext₂')).temps
      refine Follows.prepend (Machine.Reaches.single hstep) (Keeps.refl _ _) (Nat.le_refl _)
        (Nat.le_add_right _ _) (hels.bind htemps ?_)
      intro v env₂ regs₂ hrel₂ hkeep₂ hholds₂
      refine Follows.guarded ?_
      intro hno
      have hthenPlaced := (hlt.placed (hs₁'.declares hset.declares) hfits₂ het).mono
        (hext₁.trans hext₁') (Extends.refl _)
      have hthenSpec := hthenPlaced.spec hs
      have helsePlaced := hle.placed (hs₂'.declares hset.declares) hfits₄ hee
      have helseSpec := helsePlaced.spec hs₂'
      have htr := hthenPlaced.lt34 hset hs ((hext₁.trans hext₁').trans hext₂) hfits₂
      have her := helsePlaced.lt34 hset hs₂' hext₄ hfits₄
      exact follows_join hset (hs₂'.trans hext₄) hemb₃ hmove hthenSpec helseSpec htr her hrel₂
        hholds₂ hno

theorem sim_while {c b : Emitter} {evc evb : ℕ → Evaluation} {A B : Layout}
    (label : Option String) (hc : Sim rt S fn declared resolved c evc)
    (hb : Sim rt S fn declared resolved b evb) (hlc : LaidOut declared A c)
    (hlb : LaidOut declared B b) :
    Sim rt S fn declared resolved (emitWhile c b label)
      (fun fuel => evalLoop rt.fpu (evc fuel) (evb fuel) fuel) := by
  intro s u res env regs hs hfits hemb h hrel fuel
  obtain ⟨s₀, cr, s₁, br, s₂, rfl, hec, heb, rfl, rfl⟩ := emitWhile_ok h
  have hext₀ := Extends.loopEntry s label
  have hext₁ := hlc.ext hec
  have hext₁' := Extends.stable.branch s₁ .BranchIfNot cr
    (Layout.whileLabels label s.labelCounter).1.2
  have hext₂ := hlb.ext heb
  have hext₂' := Extends.stable.branch s₂ .Branch 0
    (Layout.whileLabels label s.labelCounter).1.1
  have hext₂'' := Extends.stable.label (pushBranch s₂ .Branch 0
    (Layout.whileLabels label s.labelCounter).1.1) (Layout.whileLabels label s.labelCounter).1.2
  have hs₀ := hs.trans hext₀
  have hs₁ := hs₀.trans hext₁
  have hs₁' := hs₁.trans hext₁'
  have hs₂ := hs₁'.trans hext₂
  have hfits₂ : Fits s₂ := (hext₂'.trans hext₂'').fits hfits
  have hfits₁ : Fits s₁ := hext₁'.fits (hext₂.fits hfits₂)
  have hemb₂' := hext₂''.embeds hemb
  have hemb₂ := hext₂'.embeds hemb₂'
  have hemb₁' := hext₂.embeds hemb₂
  have hemb₁ := hext₁'.embeds hemb₁'
  have hemb₀ := hext₁.embeds hemb₁
  -- the targets of the two branches
  obtain ⟨hstart, hstartLe⟩ := label_spec hset
    (s := { s with labelCounter := (Layout.whileLabels label s.labelCounter).2 })
    (hs.trans (Extends.of_eq rfl rfl rfl (Nat.le_refl _) List.prefix_rfl rfl List.suffix_rfl rfl))
    hemb₀
  obtain ⟨hend, hendLe⟩ := label_spec hset (hs₂.trans hext₂') hemb
  have hcr := (hlc.placed (hs₀.declares hset.declares) hfits₁ hec).lt34 hset hs₀ hext₁ hfits₁
  -- iterations, by induction on their number
  have hloop : ∀ n, n ≤ fuel → ∀ env regs, Related fn declared env regs →
      Follows rt S fn declared (S.at s.instructions.length regs) regs s.nextTempReg
        (pushBranch s₂ .Branch 0
          (Layout.whileLabels label s.labelCounter).1.1).instructions.length (some cr) n
        (evalLoop rt.fpu (evc fuel) (evb fuel) n env) := by
    intro n
    induction n with
    | zero =>
      intro _ env regs hrel
      exact ⟨0, _, Nat.le_refl _, Machine.Reaches.refl _⟩
    | succ n ih =>
      intro hn env regs hrel
      have hcond := (hc hs₀ hfits₁ hemb₁ hec hrel fuel).weaken (Nat.le_refl _) hn
      refine hcond.bindSpecified hext₀.temps ?_
      intro x env₁ regs₁ hrel₁ hkeep₁ hx
      have hstep := step_condition hset rt hemb₁' hend hendLe hcr hx
      by_cases hcond : x.toBool rt.fpu = true
      · rw [if_pos hcond] at hstep ⊢
        have hlen₁ : (pushBranch s₁ .BranchIfNot cr
            (Layout.whileLabels label s.labelCounter).1.2).instructions.length =
            s₁.instructions.length + 1 := by
          simp [pushBranch, FunctionNode.pushInstruction]
        -- the branch is the step that pays for this iteration
        have hbody : Follows rt S fn declared _ regs₁ _ _ br n _ :=
          (hb hs₁' hfits₂ hemb₂ heb hrel₁ fuel).weaken (Nat.le_refl _) (by omega)
        rw [hlen₁] at hbody
        have hbody' := hbody.thenBranch hset hemb₂' hstart hstartLe
        have hiteration := hbody'.bind (hext₀.trans (hext₁.trans hext₁')).temps
          fun v env₂ regs₂ hrel₂ hkeep₂ hholds₂ => ih (by omega) env₂ regs₂ hrel₂
        exact hiteration.prepend (Machine.Reaches.single hstep) (Keeps.refl _ _) (Nat.le_refl _)
          (Nat.le_refl _)
      · rw [if_neg hcond] at hstep ⊢
        have hdone : Follows rt S fn declared
            (S.at (pushBranch s₂ .Branch 0
              (Layout.whileLabels label s.labelCounter).1.1).instructions.length regs₁) regs₁
            s.nextTempReg (pushBranch s₂ .Branch 0
              (Layout.whileLabels label s.labelCounter).1.1).instructions.length (some cr)
            (n + 1) (.value none env₁) :=
          Follows.done hrel₁ (fun y hy => by cases hy)
        exact hdone.prepend (Machine.Reaches.single hstep) (Keeps.refl _ _) (Nat.le_refl _)
          (Nat.le_add_right _ _)
  exact hloop fuel (Nat.le_refl _) env regs hrel

theorem sim_emit (rt : Runtime) {n : Node} (hn : Computes declared n) :
    Sim rt S fn declared resolved (emit n) (fun fuel => eval rt.fpu true fuel n) := by
  induction hn with
  | constInt v => exact sim_const hset v
  | variableNode type isHeap elemType hx => exact sim_variable hset hx isHeap
  | @binaryNode op l r hl hr ihl ihr =>
    refine sim_binary hset ihl ihr (laidOut_emit hl) (laidOut_emit hr) ?_
    intro f a b c ha hb hc hhaz
    exact exec_binary l.isFloat op ha hb hc hhaz
  | @compareNode op l r hl hr ihl ihr =>
    refine sim_binary hset ihl ihr (laidOut_emit hl) (laidOut_emit hr) ?_
    intro f a b c ha hb hc hhaz
    exact exec_compare l.isFloat op ha hb hc hhaz
  | @unaryNode op e he ihe =>
    refine sim_unary hset ihe (laidOut_emit he) ?_
    intro f a b ha hb
    exact exec_unary e.isFloat op ha hb
  | ifThen hc ht ihc iht =>
    have hnone : (none : Option Node) = none →
        (none : Option Emitter) = none ∧ (none : Option (ℕ → Evaluation)) = none :=
      fun _ => ⟨rfl, rfl⟩
    exact sim_if hset ihc iht (laidOut_emit hc) (laidOut_emit ht) hnone (by simp)
  | @ifElse c t e hc ht he ihc iht ihe =>
    have hsome : ∀ n ∈ some e, ∃ x ∈ some (emit e),
        ∃ ev ∈ some (fun fuel => eval rt.fpu true fuel e),
        Sim rt S fn declared resolved x ev ∧ LaidOut declared (layout n) x := by
      intro n hn
      obtain rfl := Option.mem_some.mp hn
      exact ⟨_, rfl, _, rfl, ihe, laidOut_emit he⟩
    exact sim_if hset ihc iht (laidOut_emit hc) (laidOut_emit ht) (by simp) hsome
  | whileNode label hc hb ihc ihb =>
    exact sim_while hset label ihc ihb (laidOut_emit hc) (laidOut_emit hb)
  | letNode hnames hbs hb ihbs ihb =>
    exact sim_let hset ihbs (fun p hp => laidOut_emit (hbs p hp)) hnames ihb (laidOut_emit hb)
  | setVariable hx hv ihv => exact sim_assign hset ihv (laidOut_emit hv) hx
  | sequenceNode hexprs ih => exact sim_sequence ih fun n hn => laidOut_emit (hexprs n hn)
  | returnVoid => exact sim_returnVoid hset
  | returnValue hv ihv => exact sim_return hset ihv (laidOut_emit hv)

end Sim

end Soot.Analysis
