import Soot.Analysis.EmitInversion
import Soot.Model.Source

/-!
# Emission follows the layout

The code emitted for a tree that computes on variables has the size, the labels and the end
its layout says, and its value is in the register of the variable the layout names, or in a
temporary that was allocated on the way. This needs the variables to have distinct registers
and the registers not to wrap.
-/

set_option autoImplicit false

namespace Soot.Analysis

open Soot.Program Soot.Computation Soot.Model

variable {A : Layout}

/-- The declared names are variables of the function, each with a register of its own. -/
structure Declares (declared : String → Prop) (s : FunctionNode) : Prop where
  lookup : ∀ x, declared x → ∃ info, s.lookupVariable x = some info
  below : ∀ x, declared x → s.getVariableReg x < s.variableInfos.length
  inj : ∀ x y, declared x → declared y → s.getVariableReg x = s.getVariableReg y → x = y

/-- The registers allocated so far are below the argument registers. -/
def Fits (s : FunctionNode) : Prop :=
  s.variableInfos.length + s.nextTempReg ≤ ARG_REGISTERS_OFFSET

/-- Whether the last instruction so far is a return. -/
def endsInReturn (s : FunctionNode) : Bool :=
  s.instructions.getLast?.map Instruction.opcode == some .Return

/-- The register `reg` is the one the layout promises for a value emitted between `s` and
`t`. -/
def Placed (declared : String → Prop) (h : Option String) (s t : FunctionNode) (reg : ℕ) :
    Prop :=
  match h with
  | some x => declared x ∧ reg = s.getVariableReg x
  | none => ∃ k, s.nextTempReg ≤ k ∧ k < t.nextTempReg ∧ reg = s.variableInfos.length + k

/-- The code emitted between `s` and `t` has the layout `L`. -/
structure Laid (L : Layout) (s t : FunctionNode) : Prop where
  size : t.instructions.length = s.instructions.length + L.size
  labels : t.labels.map Prod.fst = (L.labels s.labelCounter).1 ++ s.labels.map Prod.fst
  counter : t.labelCounter = (L.labels s.labelCounter).2
  last : endsInReturn t = L.endsInReturn (endsInReturn s)

variable {declared : String → Prop} {s t u : FunctionNode}

/-! ## Registers -/

theorem Extends.declares (h : Extends s t) (hs : Declares declared s) : Declares declared t := by
  refine ⟨?_, ?_, ?_⟩
  · intro x hx
    rw [h.lookupVariable]
    exact hs.lookup x hx
  · intro x hx
    rw [h.getVariableReg, h.variableInfos]
    exact hs.below x hx
  · intro x y hx hy hxy
    rw [h.getVariableReg, h.getVariableReg] at hxy
    exact hs.inj x y hx hy hxy

theorem Extends.fits (h : Extends s t) (ht : Fits t) : Fits s := by
  have htemps := h.temps
  unfold Fits at ht ⊢
  rw [h.variableInfos] at ht
  omega

theorem allocTempReg_fst (hs : Fits s.allocTempReg.2) :
    s.allocTempReg.1 = s.variableInfos.length + s.nextTempReg := by
  have hle : s.variableInfos.length + (s.nextTempReg + 1) ≤ 24 := hs
  show u8 (u8 s.variableInfos.length + s.nextTempReg) = _
  rw [u8_of_lt (n := s.variableInfos.length) (by omega), u8_of_lt (by omega)]

theorem Extends.alloc (s : FunctionNode) : Extends s s.allocTempReg.2 := Extends.stable.alloc s

theorem Extends.push (s : FunctionNode) (i : Instruction) : Extends s (s.pushInstruction i) :=
  Extends.stable.instruction s i

theorem Extends.move {dst src : ℕ} {v : Unit} (h : moveUnlessSame dst src s = .ok (v, t)) :
    Extends s t := by
  rcases moveUnlessSame_ok h with ⟨-, rfl⟩ | ⟨-, rfl⟩
  · exact Extends.refl _
  · exact Extends.push _ _

theorem Placed.mono {s' t' : FunctionNode} {h : Option String} {reg : ℕ}
    (hp : Placed declared h s t reg) (hs : Extends s' s) (ht : Extends t t') :
    Placed declared h s' t' reg := by
  unfold Placed at hp ⊢
  cases h with
  | some x =>
    obtain ⟨hx, hreg⟩ := hp
    refine ⟨hx, ?_⟩
    rw [hreg, hs.getVariableReg]
  | none =>
    obtain ⟨k, hlo, hhi, hreg⟩ := hp
    have hlo' := hs.temps
    have hhi' := ht.temps
    refine ⟨k, by omega, by omega, ?_⟩
    rw [hreg, hs.variableInfos]

theorem Placed.lt {h : Option String} {reg : ℕ} (hp : Placed declared h s t reg)
    (hst : Extends s t) (hs : Declares declared s) (ht : Fits t) : reg < 24 := by
  have hfits : s.variableInfos.length + t.nextTempReg ≤ 24 := by
    rw [← hst.variableInfos]
    exact ht
  cases h with
  | some x =>
    obtain ⟨hx, rfl⟩ := hp
    have := hs.below x hx
    omega
  | none =>
    obtain ⟨k, -, hhi, rfl⟩ := hp
    omega

/-- Two placed values share a register exactly when the same variable holds both,
provided the second was emitted after the first. -/
theorem Placed.reg_eq_iff {h h' : Option String} {reg reg' : ℕ}
    (hp : Placed declared h s t reg) (hp' : Placed declared h' t u reg')
    (hst : Extends s t) (hs : Declares declared s) :
    reg' = reg ↔ h' = h ∧ h.isSome := by
  cases h with
  | some x =>
    obtain ⟨hx, rfl⟩ := hp
    cases h' with
    | some y =>
      obtain ⟨hy, rfl⟩ := hp'
      rw [hst.getVariableReg]
      constructor
      · intro heq
        exact ⟨congrArg some (hs.inj y x hy hx heq), rfl⟩
      · rintro ⟨heq, -⟩
        rw [Option.some.inj heq]
    | none =>
      obtain ⟨k, hlo, hhi, rfl⟩ := hp'
      have hbelow := hs.below x hx
      rw [hst.variableInfos]
      constructor
      · intro heq
        omega
      · rintro ⟨heq, -⟩
        cases heq
  | none =>
    obtain ⟨k, hlo, hhi, rfl⟩ := hp
    cases h' with
    | some y =>
      obtain ⟨hy, rfl⟩ := hp'
      have hbelow := hs.below y hy
      rw [hst.getVariableReg]
      constructor
      · intro heq
        omega
      · rintro ⟨heq, -⟩
        cases heq
    | none =>
      obtain ⟨k', hlo', hhi', rfl⟩ := hp'
      rw [hst.variableInfos]
      constructor
      · intro heq
        omega
      · rintro ⟨-, hsome⟩
        cases hsome

/-! ## Composing layouts -/

theorem Laid.nothing (h : Option String) (s : FunctionNode) : Laid (.nothing h) s s :=
  ⟨rfl, rfl, rfl, rfl⟩

theorem Laid.seq {A B : Layout} (h₁ : Laid A s t) (h₂ : Laid B t u) : Laid (A.seq B) s u := by
  refine ⟨?_, ?_, ?_, ?_⟩
  · rw [h₂.size, h₁.size, Nat.add_assoc]
    rfl
  · rw [h₂.labels, h₁.labels, h₁.counter, ← List.append_assoc]
    rfl
  · rw [h₂.counter, h₁.counter]
    rfl
  · rw [h₂.last, h₁.last]
    rfl

theorem Laid.withHome (h : Laid A s t) (x : Option String) :
    Laid (A.withHome x) s t := ⟨h.size, h.labels, h.counter, h.last⟩

theorem endsInReturn_pushInstruction (s : FunctionNode) (i : Instruction) :
    endsInReturn (s.pushInstruction i) = (i.opcode == .Return) := by
  simp [endsInReturn, FunctionNode.pushInstruction]

theorem Laid.push {i : Instruction} (hcode : t.instructions = s.instructions)
    (hlabels : t.labels = s.labels) (hcounter : t.labelCounter = s.labelCounter)
    (hi : i.opcode ≠ .Return) : Laid .instruction s (t.pushInstruction i) := by
  refine ⟨?_, ?_, ?_, ?_⟩
  · simp [FunctionNode.pushInstruction, hcode, Layout.instruction]
  · simp [FunctionNode.pushInstruction, hlabels, Layout.instruction]
  · simp [FunctionNode.pushInstruction, hcounter, Layout.instruction]
  · rw [endsInReturn_pushInstruction]
    simpa [Layout.instruction] using hi

theorem Laid.ret (a : ℕ) (s : FunctionNode) :
    Laid .ret s (s.pushInstruction ⟨.Return, a, 0, 0⟩) := by
  refine ⟨?_, rfl, rfl, ?_⟩
  · simp [FunctionNode.pushInstruction, Layout.ret]
  · rw [endsInReturn_pushInstruction]
    simp [Layout.ret]

theorem Laid.move {dst src : ℕ} {h h' : Option String} {v : Unit}
    (hmove : moveUnlessSame dst src s = .ok (v, t))
    (hiff : src = dst ↔ h' = h ∧ h.isSome) : Laid (.move h' h) s t := by
  unfold Layout.move
  rcases moveUnlessSame_ok hmove with ⟨heq, rfl⟩ | ⟨hne, rfl⟩
  · rw [if_pos (hiff.mp heq)]
    exact Laid.nothing none _
  · rw [if_neg fun hh => hne (hiff.mpr hh)]
    exact Laid.push rfl rfl rfl (by simp)

/-! ## The layout of every tree -/

/-- What emitting a tree establishes. -/
structure LaidOut (declared : String → Prop) (L : Layout) (e : Emitter) : Prop where
  ext : Preserves Extends e
  laid : ∀ ⦃s t : FunctionNode⦄ ⦃res : Option ℕ⦄, Declares declared s → Fits t →
    e s = .ok (res, t) → Laid L s t
  placed : ∀ ⦃s t : FunctionNode⦄ ⦃reg : ℕ⦄, Declares declared s → Fits t →
    e s = .ok (some reg, t) → Placed declared L.home s t reg

theorem placed_temp (hst : Extends s t) {i : Instruction}
    (hfits : Fits (t.allocTempReg.2.pushInstruction i)) :
    Placed declared none s (t.allocTempReg.2.pushInstruction i) t.allocTempReg.1 := by
  refine ⟨t.nextTempReg, hst.temps, Nat.lt_succ_self _, ?_⟩
  rw [allocTempReg_fst (s := t) hfits, hst.variableInfos]

theorem Extends.allocPush (s : FunctionNode) (i : Instruction) :
    Extends s (s.allocTempReg.2.pushInstruction i) := (Extends.alloc s).trans (Extends.push _ _)

theorem laidOut_const (v : I64) : LaidOut declared .instruction (emit (.constInt v)) := by
  have hsame : ∀ s : FunctionNode, (s.addConstant v .INT).2.instructions = s.instructions ∧
      (s.addConstant v .INT).2.labels = s.labels ∧
      (s.addConstant v .INT).2.labelCounter = s.labelCounter ∧
      (s.addConstant v .INT).2.variableInfos = s.variableInfos ∧
      (s.addConstant v .INT).2.nextTempReg = s.nextTempReg := by
    intro s
    unfold FunctionNode.addConstant
    split <;> exact ⟨rfl, rfl, rfl, rfl, rfl⟩
  refine ⟨fun _ _ _ h => Extends.of_emit h, ?_, ?_⟩
  · intro s t res hs hfits h
    obtain ⟨reg, hload, rfl⟩ := map_eq_ok.mp h
    obtain ⟨rfl, rfl⟩ := loadConstant_eq_ok.mp hload
    exact Laid.push (hsame s).1 (hsame s).2.1 (hsame s).2.2.1 (by simp)
  · intro s t reg hs hfits h
    obtain ⟨reg, hload, hreg⟩ := map_eq_ok.mp h
    obtain ⟨rfl, rfl⟩ := loadConstant_eq_ok.mp hload
    obtain rfl := Option.some.inj hreg
    refine ⟨s.nextTempReg, Nat.le_refl _, ?_, ?_⟩
    · show s.nextTempReg < (s.addConstant v .INT).2.nextTempReg + 1
      rw [(hsame s).2.2.2.2]
      omega
    · rw [allocTempReg_fst (s := (s.addConstant v .INT).2) hfits, (hsame s).2.2.2.1,
        (hsame s).2.2.2.2]

theorem laidOut_variable {x : String} (hx : declared x) (isHeap : Bool) :
    LaidOut declared (.nothing (some x)) (emitVariable x isHeap) := by
  have hrun : ∀ ⦃s t : FunctionNode⦄ ⦃res : Option ℕ⦄, Declares declared s →
      emitVariable x isHeap s = .ok (res, t) → res = some (s.getVariableReg x) ∧ t = s := by
    intro s t res hs h
    obtain ⟨info, hinfo⟩ := hs.lookup x hx
    obtain ⟨rfl, rfl⟩ := emitVariable_ok hinfo h
    simp [FunctionNode.getVariableReg, hinfo]
  refine ⟨Extends.stable.emitVariable x isHeap, ?_, ?_⟩
  · intro s t res hs hfits h
    obtain ⟨rfl, rfl⟩ := hrun hs h
    exact Laid.nothing _ _
  · intro s t reg hs hfits h
    obtain ⟨hreg, rfl⟩ := hrun hs h
    exact ⟨hx, Option.some.inj hreg⟩

theorem laidOut_binary {A B : Layout} {l r : Emitter} {op : Opcode} (hop : op ≠ .Return)
    (hl : LaidOut declared A l) (hr : LaidOut declared B r) :
    LaidOut declared ((A.seq B).seq .instruction) (emitBinary op l r) := by
  refine ⟨Extends.stable.emitBinary op hl.ext hr.ext, ?_, ?_⟩
  · intro s t res hs hfits h
    obtain ⟨lr, s₁, rr, s₂, hel, her, rfl, rfl⟩ := emitBinary_ok h
    have hfits₂ : Fits s₂ := (Extends.allocPush s₂ _).fits hfits
    have hfits₁ : Fits s₁ := (hr.ext her).fits hfits₂
    have hs₁ := (hl.ext hel).declares hs
    exact ((hl.laid hs hfits₁ hel).seq (hr.laid hs₁ hfits₂ her)).seq (Laid.push rfl rfl rfl hop)
  · intro s t reg hs hfits h
    obtain ⟨lr, s₁, rr, s₂, hel, her, hreg, rfl⟩ := emitBinary_ok h
    obtain rfl := Option.some.inj hreg
    exact placed_temp ((hl.ext hel).trans (hr.ext her)) hfits

theorem laidOut_unary {e : Emitter} {op : Opcode} (hop : op ≠ .Return)
    (he : LaidOut declared A e) : LaidOut declared (A.seq .instruction) (emitUnary op e) := by
  refine ⟨Extends.stable.emitUnary op he.ext, ?_, ?_⟩
  · intro s t res hs hfits h
    obtain ⟨er, s₁, hee, rfl, rfl⟩ := emitUnary_ok h
    have hfits₁ : Fits s₁ := (Extends.allocPush s₁ _).fits hfits
    exact (he.laid hs hfits₁ hee).seq (Laid.push rfl rfl rfl hop)
  · intro s t reg hs hfits h
    obtain ⟨er, s₁, hee, hreg, rfl⟩ := emitUnary_ok h
    obtain rfl := Option.some.inj hreg
    exact placed_temp (he.ext hee) hfits

theorem laid_assign {e : Emitter} (he : LaidOut declared A e) {x : String}
    (hx : declared x) (hs : Declares declared s) {er : ℕ} {v : Unit} (hfits : Fits u)
    (hee : e s = .ok (some er, t))
    (hmove : moveUnlessSame (t.getVariableReg x) er t = .ok (v, u)) :
    Laid (A.assign x) s u := by
  have hst := he.ext hee
  have hfits₁ : Fits t := (Extends.move hmove).fits hfits
  have hplaced := he.placed hs hfits₁ hee
  refine ((he.laid hs hfits₁ hee).seq (Laid.move hmove ?_)).withHome _
  -- the register of the value is the variable's exactly when the value lives there
  unfold Placed at hplaced
  rw [hst.getVariableReg]
  cases hh : A.home with
  | some y =>
    rw [hh] at hplaced
    obtain ⟨hy, rfl⟩ := hplaced
    constructor
    · intro heq
      exact ⟨congrArg some (hs.inj y x hy hx heq), rfl⟩
    · rintro ⟨heq, -⟩
      rw [Option.some.inj heq]
  | none =>
    rw [hh] at hplaced
    obtain ⟨k, -, -, rfl⟩ := hplaced
    have hbelow := hs.below x hx
    constructor
    · intro heq
      omega
    · rintro ⟨heq, -⟩
      cases heq

theorem laidOut_assign {e : Emitter} (he : LaidOut declared A e) {x : String}
    (hx : declared x) : LaidOut declared (A.assign x) (emitSetVariable x e) := by
  refine ⟨Extends.stable.emitSetVariable x he.ext, ?_, ?_⟩
  · intro s t res hs hfits h
    obtain ⟨er, s₁, hee, rfl, hmove⟩ := emitSetVariable_ok h
    exact laid_assign he hx hs hfits hee hmove
  · intro s t reg hs hfits h
    obtain ⟨er, s₁, hee, hreg, hmove⟩ := emitSetVariable_ok h
    obtain rfl := Option.some.inj hreg
    have hext := Extends.move hmove
    exact (he.placed hs (hext.fits hfits) hee).mono (Extends.refl s) hext

theorem laid_elsePart {th : Emitter} {s' : FunctionNode} {tr : ℕ}
    {e : Option Emitter} {L : Option Layout} (hth : LaidOut declared A th)
    (helse : ∀ x ∈ e, ∃ C ∈ L, LaidOut declared C x) (hnone : e = none → L = none)
    (hs : Declares declared s) (het : th s = .ok (some tr, s'))
    (hext : Extends s' t) (hfits : Fits u) (h : EmitsElse e tr t u) :
    Extends t u ∧ Laid (.elsePart A L) t u := by
  cases e with
  | none =>
    rw [hnone rfl]
    obtain rfl := h
    exact ⟨Extends.refl _, Laid.nothing none _⟩
  | some e =>
    obtain ⟨C, hC, he⟩ := helse e rfl
    obtain rfl := Option.mem_def.mp hC
    obtain ⟨er, s₁, hee, hmove⟩ := h
    have hext₁ := he.ext hee
    have hmove' := Extends.move hmove
    have hs' : Declares declared t := hext.declares ((hth.ext het).declares hs)
    have hfits₁ : Fits s₁ := hmove'.fits hfits
    have hfitst : Fits t := hext₁.fits hfits₁
    have hthen : Placed declared A.home s t tr :=
      (hth.placed hs (hext.fits hfitst) het).mono (Extends.refl s) hext
    have hplaced := he.placed hs' hfits₁ hee
    refine ⟨hext₁.trans hmove', (he.laid hs' hfits₁ hee).seq (Laid.move hmove ?_)⟩
    exact hthen.reg_eq_iff hplaced ((hth.ext het).trans hext) hs

theorem Extends.afterCondition (s : FunctionNode) (cr : ℕ) : Extends s (afterCondition s cr) :=
  (Extends.stable.trans (Extends.stable.unique s "else") (Extends.stable.unique _ "endif")).trans
    (Extends.stable.branch _ _ _ _)

theorem Extends.branchLabel (s : FunctionNode) (l l' : String) :
    Extends s ((pushBranch s .Branch 0 l).addLabel l') :=
  (Extends.stable.branch _ _ _ _).trans (Extends.stable.label _ _)

theorem laidOut_if {A B : Layout} {c th : Emitter} {e : Option Emitter} {L : Option Layout}
    (hc : LaidOut declared A c) (hth : LaidOut declared B th)
    (helse : ∀ x ∈ e, ∃ C ∈ L, LaidOut declared C x) (hnone : e = none → L = none) :
    LaidOut declared (.ifLayout A B L) (emitIf c th e) := by
  have hext : Preserves Extends (emitIf c th e) := by
    refine Extends.stable.emitIf hc.ext hth.ext ?_
    intro x hx
    obtain ⟨C, -, hx⟩ := helse x hx
    exact hx.ext
  refine ⟨hext, ?_, ?_⟩
  · intro s t res hs hfits h
    obtain ⟨cr, s₁, tr, s₂, s₃, hec, heth, hels, rfl, rfl⟩ := emitIf_ok h
    have hext₁ := Extends.afterCondition s₁ cr
    have hext₂ := Extends.branchLabel s₂ (endifLabel s₁) (s₁.createUniqueLabel "else").1
    have hs₁ := hext₁.declares ((hc.ext hec).declares hs)
    have hfits₃ : Fits s₃ := hfits
    obtain ⟨hext₃, hlaid₃⟩ := laid_elsePart hth helse hnone hs₁ heth hext₂ hfits₃ hels
    have hfits₂ : Fits s₂ := hext₂.fits (hext₃.fits hfits₃)
    have hfits₁ : Fits s₁ := hext₁.fits ((hth.ext heth).fits hfits₂)
    have hlaid₁ := hc.laid hs hfits₁ hec
    have hlaid₂ := hth.laid hs₁ hfits₂ heth
    have hcounter₁ : (afterCondition s₁ cr).labelCounter = (A.labels s.labelCounter).2 + 2 :=
      congrArg (· + 2) hlaid₁.counter
    have hcounter₂ := hlaid₂.counter
    rw [hcounter₁] at hcounter₂
    refine ⟨?_, ?_, ?_, ?_⟩
    · have h₁ := hlaid₁.size
      have h₂ := hlaid₂.size
      have h₃ := hlaid₃.size
      have hb₁ : (afterCondition s₁ cr).instructions.length = s₁.instructions.length + 1 := by
        simp [afterCondition, pushBranch, FunctionNode.pushInstruction]
      have hb₂ : ((pushBranch s₂ .Branch 0 (endifLabel s₁)).addLabel
          (s₁.createUniqueLabel "else").1).instructions.length = s₂.instructions.length + 1 := by
        simp [pushBranch, FunctionNode.pushInstruction, FunctionNode.addLabel]
      have ht : (s₃.addLabel (endifLabel s₁)).instructions.length = s₃.instructions.length := rfl
      simp only [Layout.ifLayout]
      omega
    · have h₁ := hlaid₁.labels
      have h₂ := hlaid₂.labels
      have h₃ := hlaid₃.labels
      have hend : endifLabel s₁ =
          Layout.uniqueLabel "endif" ((A.labels s.labelCounter).2 + 1) := by
        rw [← hlaid₁.counter]
        rfl
      have helse : (s₁.createUniqueLabel "else").1 =
          Layout.uniqueLabel "else" (A.labels s.labelCounter).2 := by
        rw [← hlaid₁.counter]
        rfl
      rw [hcounter₁] at h₂
      have hmid : ((pushBranch s₂ .Branch 0 (endifLabel s₁)).addLabel
          (s₁.createUniqueLabel "else").1).labels.map Prod.fst =
          Layout.uniqueLabel "else" (A.labels s.labelCounter).2 ::
            s₂.labels.map Prod.fst := by
        rw [← helse]
        rfl
      have hcounter : ((pushBranch s₂ .Branch 0 (endifLabel s₁)).addLabel
          (s₁.createUniqueLabel "else").1).labelCounter =
          (B.labels ((A.labels s.labelCounter).2 + 2)).2 := hcounter₂
      rw [hmid, hcounter] at h₃
      have hs₁labels : (afterCondition s₁ cr).labels = s₁.labels := rfl
      show endifLabel s₁ :: s₃.labels.map Prod.fst = _
      rw [h₃, h₂, hs₁labels, h₁, hend]
      simp [Layout.ifLayout]
    · have h₃ := hlaid₃.counter
      show s₃.labelCounter = _
      rw [h₃]
      show ((Layout.elsePart B L).labels s₂.labelCounter).2 = _
      rw [hcounter₂]
      rfl
    · have h₃ := hlaid₃.last
      have hbranch : endsInReturn ((pushBranch s₂ .Branch 0 (endifLabel s₁)).addLabel
          (s₁.createUniqueLabel "else").1) = false := by
        simp [endsInReturn, pushBranch, FunctionNode.addLabel, FunctionNode.pushInstruction]
      rw [hbranch] at h₃
      exact h₃
  · intro s t reg hs hfits h
    obtain ⟨cr, s₁, tr, s₂, s₃, hec, heth, hels, hreg, rfl⟩ := emitIf_ok h
    obtain rfl := Option.some.inj hreg
    have hext₁ := Extends.afterCondition s₁ cr
    have hext₂ := Extends.branchLabel s₂ (endifLabel s₁) (s₁.createUniqueLabel "else").1
    have hs₁ := hext₁.declares ((hc.ext hec).declares hs)
    have hfits₃ : Fits s₃ := hfits
    obtain ⟨hext₃, -⟩ := laid_elsePart hth helse hnone hs₁ heth hext₂ hfits₃ hels
    have hext₂₃ := hext₂.trans hext₃
    have hplaced := hth.placed hs₁ (hext₂₃.fits hfits₃) heth
    exact hplaced.mono ((hc.ext hec).trans hext₁)
      (hext₂₃.trans (Extends.stable.label _ _))

/-- The state in which a loop emits its condition. -/
def loopEntry (s : FunctionNode) (label : Option String) : FunctionNode :=
  FunctionNode.addLabel
    { s with labelCounter := (Layout.whileLabels label s.labelCounter).2 }
    (Layout.whileLabels label s.labelCounter).1.1

theorem Extends.loopEntry (s : FunctionNode) (label : Option String) :
    Extends s (loopEntry s label) := by
  refine Extends.trans ?_ (Extends.stable.label _ _)
  exact Extends.of_eq rfl rfl rfl (Nat.le_refl _) List.prefix_rfl rfl List.suffix_rfl rfl

theorem laidOut_while {A B : Layout} {c b : Emitter} (label : Option String)
    (hc : LaidOut declared A c) (hb : LaidOut declared B b) :
    LaidOut declared (.whileLayout A B label) (emitWhile c b label) := by
  refine ⟨Extends.stable.emitWhile label hc.ext hb.ext, ?_, ?_⟩
  · intro s t res hs hfits h
    obtain ⟨s₀, cr, s₁, br, s₂, rfl, hec, heb, rfl, rfl⟩ := emitWhile_ok h
    have hext₀ := Extends.loopEntry s label
    have hs₀ := hext₀.declares hs
    have hext₁ := Extends.stable.branch s₁ .BranchIfNot cr
      (Layout.whileLabels label s.labelCounter).1.2
    have hs₁ := hext₁.declares ((hc.ext hec).declares hs₀)
    have hfits₂ : Fits s₂ := (Extends.branchLabel s₂ _ _).fits hfits
    have hfits₁ : Fits s₁ := hext₁.fits ((hb.ext heb).fits hfits₂)
    have hlaid₁ := hc.laid hs₀ hfits₁ hec
    have hlaid₂ := hb.laid hs₁ hfits₂ heb
    have hcounter₁ : (pushBranch s₁ .BranchIfNot cr
        (Layout.whileLabels label s.labelCounter).1.2).labelCounter =
        (A.labels (Layout.whileLabels label s.labelCounter).2).2 := hlaid₁.counter
    refine ⟨?_, ?_, ?_, ?_⟩
    · have h₁ := hlaid₁.size
      have h₂ := hlaid₂.size
      have h₀ : (loopEntry s label).instructions.length = s.instructions.length := rfl
      have hb₁ : (pushBranch s₁ .BranchIfNot cr
          (Layout.whileLabels label s.labelCounter).1.2).instructions.length =
          s₁.instructions.length + 1 := by
        simp [pushBranch, FunctionNode.pushInstruction]
      have hb₂ : ((pushBranch s₂ .Branch 0
          (Layout.whileLabels label s.labelCounter).1.1).addLabel
          (Layout.whileLabels label s.labelCounter).1.2).instructions.length =
          s₂.instructions.length + 1 := by
        simp [pushBranch, FunctionNode.pushInstruction, FunctionNode.addLabel]
      change s₁.instructions.length = (loopEntry s label).instructions.length + A.size at h₁
      simp only [Layout.whileLayout]
      omega
    · have h₁ : s₁.labels.map Prod.fst =
          (A.labels (Layout.whileLabels label s.labelCounter).2).1 ++
            (Layout.whileLabels label s.labelCounter).1.1 :: s.labels.map Prod.fst :=
        hlaid₁.labels
      have h₂ := hlaid₂.labels
      rw [hcounter₁] at h₂
      show (Layout.whileLabels label s.labelCounter).1.2 :: s₂.labels.map Prod.fst = _
      rw [h₂]
      show _ :: (_ ++ s₁.labels.map Prod.fst) = _
      rw [h₁]
      simp [Layout.whileLayout]
    · show s₂.labelCounter = _
      rw [hlaid₂.counter, hcounter₁]
      rfl
    · simp [endsInReturn, pushBranch, FunctionNode.addLabel, FunctionNode.pushInstruction,
        Layout.whileLayout]
  · intro s t reg hs hfits h
    obtain ⟨s₀, cr, s₁, br, s₂, rfl, hec, heb, hreg, rfl⟩ := emitWhile_ok h
    obtain rfl := Option.some.inj hreg
    have hext₀ := Extends.loopEntry s label
    have hext₁ := (Extends.stable.branch s₁ .BranchIfNot reg
      (Layout.whileLabels label s.labelCounter).1.2).trans ((hb.ext heb).trans
        (Extends.branchLabel s₂ (Layout.whileLabels label s.labelCounter).1.1
          (Layout.whileLabels label s.labelCounter).1.2))
    have hplaced := hc.placed (hext₀.declares hs) (hext₁.fits hfits) hec
    exact hplaced.mono hext₀ hext₁

theorem laid_bindings {bs : List (String × Node)}
    (hbs : ∀ p ∈ bs, LaidOut declared (layout p.2) (emit p.2)) (hnames : ∀ p ∈ bs, declared p.1)
    {v : Unit} (hs : Declares declared s) (hfits : Fits t)
    (h : emitBindings (emitters₂ bs) s = .ok (v, t)) :
    Extends s t ∧ Laid (bindingsLayout bs) s t := by
  induction bs generalizing s with
  | nil =>
    obtain ⟨-, rfl⟩ := pure_eq_ok.mp h
    exact ⟨Extends.refl _, Laid.nothing none _⟩
  | cons p bs ih =>
    obtain ⟨x, n⟩ := p
    obtain ⟨hn, hrest⟩ := List.forall_mem_cons.mp hbs
    obtain ⟨hx, hxs⟩ := List.forall_mem_cons.mp hnames
    obtain ⟨er, s₁, s₂, hee, hmove, hes⟩ := emitBindings_cons_ok h
    have hext₁ := (hn.ext hee).trans (Extends.move hmove)
    obtain ⟨hext₂, hlaid⟩ := ih hrest hxs (hext₁.declares hs) hes
    exact ⟨hext₁.trans hext₂, (laid_assign hn hx hs (hext₂.fits hfits) hee hmove).seq hlaid⟩

theorem laidOut_let {bs : List (String × Node)} {b : Node}
    (hbs : ∀ p ∈ bs, LaidOut declared (layout p.2) (emit p.2)) (hnames : ∀ p ∈ bs, declared p.1)
    (hb : LaidOut declared (layout b) (emit b)) :
    LaidOut declared ((bindingsLayout bs).seq (layout b)) (emitLet (emitters₂ bs) (emit b)) := by
  refine ⟨Extends.stable.emitLet (Stable.emitters₂_preserve fun p hp => (hbs p hp).ext) hb.ext,
    ?_, ?_⟩
  · intro s t res hs hfits h
    obtain ⟨s₁, br, hes, heb, rfl⟩ := emitLet_ok h
    obtain ⟨hext, hlaid⟩ := laid_bindings hbs hnames hs ((hb.ext heb).fits hfits) hes
    exact hlaid.seq (hb.laid (hext.declares hs) hfits heb)
  · intro s t reg hs hfits h
    obtain ⟨s₁, br, hes, heb, hreg⟩ := emitLet_ok h
    obtain rfl := Option.some.inj hreg
    obtain ⟨hext, -⟩ := laid_bindings hbs hnames hs ((hb.ext heb).fits hfits) hes
    exact (hb.placed (hext.declares hs) hfits heb).mono hext (Extends.refl _)

theorem laid_sequence {ns : List Node} (hns : ∀ n ∈ ns, LaidOut declared (layout n) (emit n))
    {rs : List (Option ℕ)} (hs : Declares declared s) (hst : Extends s t)
    (hfits : Fits u) (hA : Fits t → Laid A s t) (h : emitEach (emitters ns) t = .ok (rs, u)) :
    Extends t u ∧ Laid (sequenceLayout A ns) s u ∧
      ∀ reg, rs.getLast?.join = some reg →
        Placed declared (sequenceLayout A ns).home s u reg := by
  induction ns generalizing s t A rs with
  | nil =>
    obtain ⟨rfl, rfl⟩ := pure_eq_ok.mp h
    exact ⟨Extends.refl _, hA hfits, by simp⟩
  | cons n ns ih =>
    obtain ⟨hn, hns⟩ := List.forall_mem_cons.mp hns
    obtain ⟨r, t₁, rs', hen, hes, rfl⟩ := emitEach_cons_ok h
    have hext := hn.ext hen
    have ht := hst.declares hs
    obtain ⟨hext₁, hlaid, hplaced⟩ := ih hns ht hext (fun hf => hn.laid ht hf hen) hes
    have hfits₁ : Fits t₁ := hext₁.fits hfits
    refine ⟨hext.trans hext₁, (hA (hext.fits hfits₁)).seq hlaid, ?_⟩
    intro reg hreg
    cases rs' with
    | cons r' rs' =>
      rw [List.getLast?_cons_cons] at hreg
      exact (hplaced reg hreg).mono hst (Extends.refl _)
    | nil =>
      obtain rfl : r = some reg := by simpa using hreg
      -- only the last tree has no successor, and its register is the sequence's
      cases ns with
      | nil =>
        obtain ⟨-, rfl⟩ := pure_eq_ok.mp hes
        exact (hn.placed ht hfits hen).mono hst (Extends.refl _)
      | cons n' ns =>
        obtain ⟨r', t₂, rs', -, -, hrs⟩ := emitEach_cons_ok hes
        cases hrs

theorem laidOut_sequence {ns : List Node}
    (hns : ∀ n ∈ ns, LaidOut declared (layout n) (emit n)) :
    LaidOut declared (sequenceLayout (.nothing none) ns) (emitSequence (emitters ns)) := by
  have hext : Preserves Extends (emitSequence (emitters ns)) :=
    Extends.stable.bind
      (Extends.stable.emitEach (Stable.emitters_preserve fun n hn => (hns n hn).ext))
      fun _ => Extends.stable.pure _
  refine ⟨hext, ?_, ?_⟩
  · intro s t res hs hfits h
    obtain ⟨rs, hes, rfl⟩ := emitSequence_ok h
    exact (laid_sequence hns hs (Extends.refl s) hfits (fun _ => Laid.nothing none s) hes).2.1
  · intro s t reg hs hfits h
    obtain ⟨rs, hes, hreg⟩ := emitSequence_ok h
    exact (laid_sequence hns hs (Extends.refl s) hfits (fun _ => Laid.nothing none s) hes).2.2
      reg hreg.symm

theorem laidOut_return {e : Emitter} (he : LaidOut declared A e) :
    LaidOut declared (A.seq .ret) (emitReturn (some e)) := by
  refine ⟨Extends.stable.emitReturn (by simpa using he.ext), ?_, ?_⟩
  · intro s t res hs hfits h
    obtain ⟨er, s₁, hee, rfl, rfl⟩ := emitReturn_some_ok h
    have hfits₁ : Fits s₁ := hfits
    exact (he.laid hs hfits₁ hee).seq (Laid.ret er s₁)
  · intro s t reg hs hfits h
    obtain ⟨er, s₁, hee, hreg, rfl⟩ := emitReturn_some_ok h
    cases hreg

theorem laidOut_returnVoid : LaidOut declared .ret (emitReturn none) := by
  refine ⟨Extends.stable.emitReturn (by simp), ?_, ?_⟩
  · intro s t res hs hfits h
    obtain ⟨rfl, rfl⟩ := emitReturn_none_ok h
    exact Laid.ret 0 s
  · intro s t reg hs hfits h
    cases (emitReturn_none_ok h).1

theorem opcode_ne_return (isFloat : Bool) :
    (∀ op : BinaryOp, op.opcode isFloat ≠ .Return) ∧
      (∀ op : UnaryOp, op.opcode isFloat ≠ .Return) ∧
      ∀ op : CompareOp, op.opcode isFloat ≠ .Return := by
  refine ⟨?_, ?_, ?_⟩ <;> intro op <;> cases op <;> cases isFloat <;> decide

theorem laidOut_emit {n : Node} (hn : Computes declared n) :
    LaidOut declared (layout n) (emit n) := by
  induction hn with
  | constInt v => exact laidOut_const v
  | variableNode type isHeap elemType hx => exact laidOut_variable hx isHeap
  | binaryNode op _ _ ihl ihr => exact laidOut_binary ((opcode_ne_return _).1 op) ihl ihr
  | compareNode op _ _ ihl ihr => exact laidOut_binary ((opcode_ne_return _).2.2 op) ihl ihr
  | unaryNode op _ ihe => exact laidOut_unary ((opcode_ne_return _).2.1 op) ihe
  | ifThen _ _ ihc iht => exact laidOut_if ihc iht (by simp) (fun _ => rfl)
  | ifElse _ _ _ ihc iht ihe =>
    refine laidOut_if ihc iht ?_ (by simp)
    rintro x hx
    obtain rfl := Option.mem_some.mp hx
    exact ⟨_, rfl, ihe⟩
  | whileNode label _ _ ihc ihb => exact laidOut_while label ihc ihb
  | letNode hnames _ _ ihbs ihb => exact laidOut_let ihbs hnames ihb
  | setVariable hx _ ihv => exact laidOut_assign ihv hx
  | sequenceNode _ ih => exact laidOut_sequence ih
  | returnVoid => exact laidOut_returnVoid
  | returnValue _ ihv => exact laidOut_return ihv

end Soot.Analysis
