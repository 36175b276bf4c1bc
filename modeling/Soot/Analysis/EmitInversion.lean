import Soot.Analysis.Resolve
import Soot.Model.Layout

/-!
# What a successful emission did

For each emitter of the trees that compute on variables: the states a successful emission
went through and the instructions it appended.
-/

set_option autoImplicit false

namespace Soot.Analysis

open Soot.Program Soot.Computation

variable {s t : FunctionNode} {res : Option ℕ}

theorem getTempReg_eq_ok {r : Option ℕ} {reg : ℕ} :
    getTempReg r s = .ok (reg, t) ↔ r = some reg ∧ s = t := by
  cases r with
  | none =>
    constructor
    · intro h
      exact absurd h throw_ne_ok
    · rintro ⟨h, -⟩
      cases h
  | some q =>
    show (pure q : EmitM ℕ) s = _ ↔ _
    rw [pure_eq_ok, Option.some.injEq]

theorem allocTempReg_eq_ok {reg : ℕ} :
    allocTempReg s = .ok (reg, t) ↔ s.allocTempReg.1 = reg ∧ s.allocTempReg.2 = t := by
  unfold Soot.Program.allocTempReg
  simp [Prod.ext_iff]

theorem addInstruction_eq_ok {op : Opcode} {a b c : ℕ} {u : Unit} :
    addInstruction op a b c s = .ok (u, t) ↔ s.pushInstruction ⟨op, a, b, c⟩ = t :=
  modify_eq_ok

theorem addLabel_eq_ok {l : String} {u : Unit} :
    addLabel l s = .ok (u, t) ↔ s.addLabel l = t := modify_eq_ok

theorem createUniqueLabel_eq_ok {p l : String} :
    createUniqueLabel p s = .ok (l, t) ↔
      (s.createUniqueLabel p).1 = l ∧ (s.createUniqueLabel p).2 = t := by
  unfold Soot.Program.createUniqueLabel
  simp [Prod.ext_iff]

theorem moveUnlessSame_ok {dst src : ℕ} {u : Unit} (h : moveUnlessSame dst src s = .ok (u, t)) :
    (src = dst ∧ t = s) ∨ (src ≠ dst ∧ t = s.pushInstruction ⟨.Move, dst, src, 0⟩) := by
  unfold moveUnlessSame at h
  split at h
  · obtain ⟨-, rfl⟩ := pure_eq_ok.mp h
    exact Or.inl ⟨by assumption, rfl⟩
  · exact Or.inr ⟨by assumption, (addInstruction_eq_ok.mp h).symm⟩

theorem emitVariable_ok {x : String} {isHeap : Bool} {info : VariableInfo}
    (hx : s.lookupVariable x = some info) (h : emitVariable x isHeap s = .ok (res, t)) :
    res = some info.reg ∧ t = s := by
  unfold emitVariable at h
  simp only [bind_eq_ok, get_eq_ok] at h
  obtain ⟨fn, s₁, ⟨rfl, rfl⟩, h⟩ := h
  rw [hx] at h
  obtain ⟨rfl, rfl⟩ := pure_eq_ok.mp h
  exact ⟨rfl, rfl⟩

theorem emitBinary_ok {op : Opcode} {l r : Emitter} (h : emitBinary op l r s = .ok (res, t)) :
    ∃ lr s₁ rr s₂, l s = .ok (some lr, s₁) ∧ r s₁ = .ok (some rr, s₂) ∧
      res = some s₂.allocTempReg.1 ∧
      t = s₂.allocTempReg.2.pushInstruction ⟨op, s₂.allocTempReg.1, lr, rr⟩ := by
  unfold emitBinary at h
  simp only [bind_eq_ok, getTempReg_eq_ok, allocTempReg_eq_ok, addInstruction_eq_ok,
    pure_eq_ok] at h
  obtain ⟨lt, s₁, hl, rt, s₂, hr, lr, _, ⟨rfl, rfl⟩, rr, _, ⟨rfl, rfl⟩, d, _, ⟨rfl, rfl⟩, u, _,
    rfl, rfl, rfl⟩ := h
  exact ⟨lr, s₁, rr, s₂, hl, hr, rfl, rfl⟩

theorem emitUnary_ok {op : Opcode} {e : Emitter} (h : emitUnary op e s = .ok (res, t)) :
    ∃ er s₁, e s = .ok (some er, s₁) ∧ res = some s₁.allocTempReg.1 ∧
      t = s₁.allocTempReg.2.pushInstruction ⟨op, s₁.allocTempReg.1, er, 0⟩ := by
  unfold emitUnary at h
  simp only [bind_eq_ok, getTempReg_eq_ok, allocTempReg_eq_ok, addInstruction_eq_ok,
    pure_eq_ok] at h
  obtain ⟨et, s₁, he, er, _, ⟨rfl, rfl⟩, d, _, ⟨rfl, rfl⟩, u, _, rfl, rfl, rfl⟩ := h
  exact ⟨er, s₁, he, rfl, rfl⟩

/-- The state in which an `if` emits its first branch, after its condition in state `s`. -/
def afterCondition (s : FunctionNode) (condReg : ℕ) : FunctionNode :=
  pushBranch { s with labelCounter := s.labelCounter + 2 } .BranchIfNot condReg
    (s.createUniqueLabel "else").1

/-- The exit label of an `if` whose condition ended in state `s`. -/
def endifLabel (s : FunctionNode) : String :=
  ((s.createUniqueLabel "else").2.createUniqueLabel "endif").1

/-- What an `if` emits after the label `else`: nothing, or the other branch and the move that
joins it with the first. -/
def EmitsElse (e : Option Emitter) (thenReg : ℕ) (s t : FunctionNode) : Prop :=
  match e with
  | none => t = s
  | some e => ∃ er s₁, e s = .ok (some er, s₁) ∧ moveUnlessSame thenReg er s₁ = .ok ((), t)

/-- An `if`: condition, branch to `else`, first branch, branch to `endif`, the label
`else`, the other branch joined by a move, the label `endif`. -/
theorem emitIf_ok {c th : Emitter} {e : Option Emitter}
    (h : emitIf c th e s = .ok (res, t)) :
    ∃ cr s₁ tr s₂ s₃, c s = .ok (some cr, s₁) ∧
      th (afterCondition s₁ cr) = .ok (some tr, s₂) ∧
      EmitsElse e tr ((pushBranch s₂ .Branch 0 (endifLabel s₁)).addLabel
        (s₁.createUniqueLabel "else").1) s₃ ∧
      res = some tr ∧ t = s₃.addLabel (endifLabel s₁) := by
  unfold emitIf at h
  simp only [bind_eq_ok, getTempReg_eq_ok, createUniqueLabel_eq_ok, addBranch_eq_ok,
    addLabel_eq_ok] at h
  obtain ⟨ct, s₁, hc, cr, _, ⟨rfl, rfl⟩, elseLabel, _, ⟨rfl, rfl⟩, endLabel, _, ⟨rfl, rfl⟩, _, _,
    rfl, tt, s₂, hth, tr, _, ⟨rfl, rfl⟩, _, _, rfl, _, _, rfl, h⟩ := h
  cases e with
  | none =>
    simp only [bind_eq_ok, addLabel_eq_ok, pure_eq_ok] at h
    obtain ⟨_, _, rfl, rfl, rfl⟩ := h
    exact ⟨cr, s₁, tr, s₂, _, hc, hth, rfl, rfl, rfl⟩
  | some e =>
    simp only [bind_eq_ok, getTempReg_eq_ok, addLabel_eq_ok, pure_eq_ok] at h
    obtain ⟨et, s₄, he, er, _, ⟨rfl, rfl⟩, u, s₃, hmove, _, _, rfl, rfl, rfl⟩ := h
    exact ⟨cr, s₁, tr, s₂, s₃, hc, hth, ⟨er, s₄, he, hmove⟩, rfl, rfl⟩

theorem whileLabels_ok {label : Option String} {names : String × String}
    (h : whileLabels label s = .ok (names, t)) :
    names = (Model.Layout.whileLabels label s.labelCounter).1 ∧
      t = { s with labelCounter := (Model.Layout.whileLabels label s.labelCounter).2 } := by
  unfold Soot.Program.whileLabels at h
  unfold Model.Layout.whileLabels
  cases label with
  | none =>
    simp only [bind_eq_ok, createUniqueLabel_eq_ok, pure_eq_ok] at h
    obtain ⟨l₁, _, ⟨rfl, rfl⟩, l₂, _, ⟨rfl, rfl⟩, rfl, rfl⟩ := h
    exact ⟨rfl, rfl⟩
  | some l =>
    simp only at h ⊢
    split at h
    · simp only [bind_eq_ok, createUniqueLabel_eq_ok, pure_eq_ok] at h
      obtain ⟨l₁, _, ⟨rfl, rfl⟩, l₂, _, ⟨rfl, rfl⟩, rfl, rfl⟩ := h
      simp only [if_pos (by assumption : l = "")]
      exact ⟨rfl, rfl⟩
    · obtain ⟨rfl, rfl⟩ := pure_eq_ok.mp h
      rw [if_neg (by assumption)]
      exact ⟨rfl, rfl⟩

theorem emitWhile_ok {c b : Emitter} {label : Option String}
    (h : emitWhile c b label s = .ok (res, t)) :
    ∃ s₀ cr s₁ br s₂,
      s₀ = { s with labelCounter := (Model.Layout.whileLabels label s.labelCounter).2 } ∧
      c (s₀.addLabel (Model.Layout.whileLabels label s.labelCounter).1.1) =
        .ok (some cr, s₁) ∧
      b (pushBranch s₁ .BranchIfNot cr (Model.Layout.whileLabels label s.labelCounter).1.2) =
        .ok (br, s₂) ∧
      res = some cr ∧
      t = (pushBranch s₂ .Branch 0 (Model.Layout.whileLabels label s.labelCounter).1.1).addLabel
        (Model.Layout.whileLabels label s.labelCounter).1.2 := by
  unfold emitWhile at h
  simp only [bind_eq_ok, getTempReg_eq_ok, addBranch_eq_ok, addLabel_eq_ok, pure_eq_ok] at h
  obtain ⟨names, s₀, hnames, _, _, rfl, ct, s₁, hc, cr, _, ⟨rfl, rfl⟩, _, _, rfl, br, s₂, hb, _, _,
    rfl, _, _, rfl, rfl, rfl⟩ := h
  obtain ⟨rfl, rfl⟩ := whileLabels_ok hnames
  exact ⟨_, cr, s₁, br, s₂, rfl, hc, hb, rfl, rfl⟩

theorem emitSetVariable_ok {x : String} {e : Emitter}
    (h : emitSetVariable x e s = .ok (res, t)) :
    ∃ er s₁, e s = .ok (some er, s₁) ∧ res = some er ∧
      moveUnlessSame (s₁.getVariableReg x) er s₁ = .ok ((), t) := by
  unfold emitSetVariable at h
  simp only [bind_eq_ok, getTempReg_eq_ok, get_eq_ok] at h
  obtain ⟨et, s₁, he, er, _, ⟨rfl, rfl⟩, fn, _, ⟨rfl, rfl⟩, h⟩ := h
  cases hinfo : s₁.lookupVariable x with
  | none =>
    rw [hinfo] at h
    exact absurd h throw_ne_ok
  | some info =>
    rw [hinfo] at h
    simp only [bind_eq_ok, pure_eq_ok] at h
    obtain ⟨u, _, hmove, rfl, rfl⟩ := h
    refine ⟨er, s₁, he, rfl, ?_⟩
    unfold FunctionNode.getVariableReg
    rw [hinfo]
    exact hmove

theorem emitBindings_cons_ok {x : String} {e : Emitter} {bs : List (String × Emitter)} {u : Unit}
    (h : emitBindings ((x, e) :: bs) s = .ok (u, t)) :
    ∃ er s₁ s₂, e s = .ok (some er, s₁) ∧
      moveUnlessSame (s₁.getVariableReg x) er s₁ = .ok ((), s₂) ∧
      emitBindings bs s₂ = .ok (u, t) := by
  unfold emitBindings emitBinding at h
  simp only [bind_eq_ok, getTempReg_eq_ok, get_eq_ok] at h
  obtain ⟨_, s₂, ⟨et, s₁, he, er, _, ⟨rfl, rfl⟩, fn, _, ⟨rfl, rfl⟩, hmove⟩, hrest⟩ := h
  exact ⟨er, s₁, s₂, he, hmove, hrest⟩

theorem emitLet_ok {bs : List (String × Emitter)} {b : Emitter}
    (h : emitLet bs b s = .ok (res, t)) :
    ∃ s₁ br, emitBindings bs s = .ok ((), s₁) ∧ b s₁ = .ok (some br, t) ∧ res = some br := by
  unfold emitLet at h
  simp only [bind_eq_ok, getTempReg_eq_ok, pure_eq_ok] at h
  obtain ⟨_, s₁, hbs, bt, s₂, hb, br, _, ⟨rfl, rfl⟩, rfl, rfl⟩ := h
  exact ⟨s₁, br, hbs, hb, rfl⟩

theorem emitReturn_some_ok {e : Emitter} (h : emitReturn (some e) s = .ok (res, t)) :
    ∃ er s₁, e s = .ok (some er, s₁) ∧ res = none ∧
      t = s₁.pushInstruction ⟨.Return, er, 0, 0⟩ := by
  unfold emitReturn at h
  simp only [bind_eq_ok, getTempReg_eq_ok, addInstruction_eq_ok, pure_eq_ok] at h
  obtain ⟨et, s₁, he, er, _, ⟨rfl, rfl⟩, _, _, rfl, rfl, rfl⟩ := h
  exact ⟨er, s₁, he, rfl, rfl⟩

theorem emitReturn_none_ok (h : emitReturn none s = .ok (res, t)) :
    res = none ∧ t = s.pushInstruction ⟨.Return, 0, 0, 0⟩ := by
  unfold emitReturn at h
  simp only [bind_eq_ok, addInstruction_eq_ok, pure_eq_ok] at h
  obtain ⟨_, _, rfl, rfl, rfl⟩ := h
  exact ⟨rfl, rfl⟩

theorem emitEach_cons_ok {e : Emitter} {es : List Emitter} {rs : List (Option ℕ)}
    (h : emitEach (e :: es) s = .ok (rs, t)) :
    ∃ r s₁ rs', e s = .ok (r, s₁) ∧ emitEach es s₁ = .ok (rs', t) ∧ rs = r :: rs' := by
  unfold emitEach at h
  simp only [bind_eq_ok, pure_eq_ok] at h
  obtain ⟨r, s₁, he, rs', _, hes, rfl, rfl⟩ := h
  exact ⟨r, s₁, rs', he, hes, rfl⟩

theorem emitSequence_ok {es : List Emitter} (h : emitSequence es s = .ok (res, t)) :
    ∃ rs, emitEach es s = .ok (rs, t) ∧ res = rs.getLast?.join := by
  unfold emitSequence at h
  simp only [bind_eq_ok, pure_eq_ok] at h
  obtain ⟨rs, _, hes, rfl, rfl⟩ := h
  exact ⟨rs, hes, rfl⟩

theorem emitBody_ok {fn fn' : FunctionNode} {body : Node} (h : fn.emitBody body = .ok fn') :
    ∃ result f₁, emit body fn.beginBody = .ok (result, f₁) ∧
      fn' = (f₁.appendReturn result).resolveBranches := by
  unfold FunctionNode.emitBody at h
  cases hemit : emit body fn.beginBody with
  | error e =>
    rw [hemit] at h
    cases h
  | ok p =>
    rw [hemit] at h
    exact ⟨p.1, p.2, rfl, (Except.ok.inj h).symm⟩

end Soot.Analysis
