import Soot.Program.Emit
import Soot.Computation.StateExcept

/-!
# What every emitter respects

A relation between function states that is reflexive, transitive and respected by the
primitive operations of emission (a temporary, a constant load, an instruction, a branch with its
reference, a label, a new string) is respected by the emission of every tree. The whole case
analysis over the node classes is made here, once.
-/

set_option autoImplicit false

namespace Soot.Analysis

open Soot.Program Soot.Computation

variable {es : List Emitter} {e : Emitter}

/-- A branch instruction appended together with its reference to a label. -/
def pushBranch (fn : FunctionNode) (op : Opcode) (condition : ℕ) (label : String) :
    FunctionNode :=
  { fn.pushInstruction ⟨op, condition, 0, 0⟩ with
    unresolvedBranches := fn.unresolvedBranches ++ [(label, fn.instructions.length)] }

theorem addBranch_eq_ok {op : Opcode} {condition : ℕ} {label : String} {s t : FunctionNode}
    {u : Unit} :
    addBranch op condition label s = .ok (u, t) ↔ pushBranch s op condition label = t := by
  have hne : (s.pushInstruction ⟨op, condition, 0, 0⟩).instructions.isEmpty = false := by
    simp [FunctionNode.pushInstruction]
  have hrun : addBranch op condition label s = .ok ((), pushBranch s op condition label) := by
    show (addBranchReference label (s.pushInstruction ⟨op, condition, 0, 0⟩)) = _
    unfold addBranchReference FunctionNode.addBranchReference
    rw [hne]
    simp [pushBranch, FunctionNode.pushInstruction]
  rw [hrun]
  simp

/-- A constant, a temporary and the instruction that loads the one into the other. -/
def pushLoad (fn : FunctionNode) (op : Opcode) (value : Word) (kind : ConstKind) :
    FunctionNode :=
  (fn.addConstant value kind).2.allocTempReg.2.pushInstruction
    (Instruction.setImm16 ⟨op, (fn.addConstant value kind).2.allocTempReg.1, 0, 0⟩
      (fn.addConstant value kind).1)

theorem loadConstant_eq_ok {op : Opcode} {value : Word} {kind : ConstKind} {reg : ℕ}
    {s t : FunctionNode} :
    loadConstant op value kind s = .ok (reg, t) ↔
      (s.addConstant value kind).2.allocTempReg.1 = reg ∧ pushLoad s op value kind = t := by
  have hrun : loadConstant op value kind s =
      .ok ((s.addConstant value kind).2.allocTempReg.1, pushLoad s op value kind) := rfl
  rw [hrun]
  simp

/-- A relation between function states that the primitives of emission respect. -/
structure Stable (R : FunctionNode → FunctionNode → Prop) : Prop where
  refl : ∀ s, R s s
  trans : ∀ ⦃s t u⦄, R s t → R t u → R s u
  alloc : ∀ s : FunctionNode, R s s.allocTempReg.2
  load : ∀ (s : FunctionNode) op v k, R s (pushLoad s op v k)
  instruction : ∀ (s : FunctionNode) i, R s (s.pushInstruction i)
  branch : ∀ (s : FunctionNode) op c l, R s (pushBranch s op c l)
  label : ∀ (s : FunctionNode) l, R s (s.addLabel l)
  unique : ∀ (s : FunctionNode) p, R s (s.createUniqueLabel p).2
  string : ∀ (s : FunctionNode) p, R s { s with strings := some p }

namespace Stable

variable {R : FunctionNode → FunctionNode → Prop} (hR : Stable R)

include hR

theorem bind {α β : Type} {x : EmitM α} {f : α → EmitM β} (hx : Preserves R x)
    (hf : ∀ a, Preserves R (f a)) : Preserves R (x >>= f) := Preserves.bind hR.trans hx hf

theorem pure {α : Type} (a : α) : Preserves R (Pure.pure a : EmitM α) := Preserves.pure hR.refl a

theorem get : Preserves R (MonadState.get : EmitM FunctionNode) := Preserves.get hR.refl

theorem getTempReg (r : Option ℕ) : Preserves R (getTempReg r) := by
  cases r with
  | none => exact Preserves.throw _
  | some reg => exact hR.pure reg

theorem require (p : Prop) [Decidable p] (e : EmitError) : Preserves R (require p e) := by
  unfold Soot.Program.require
  split
  · exact hR.pure ()
  · exact Preserves.throw e

theorem allocTempReg : Preserves R allocTempReg := by
  intro s a t h
  cases h
  exact hR.alloc s

theorem addInstruction (op : Opcode) (a b c : ℕ) : Preserves R (addInstruction op a b c) :=
  Preserves.modify fun s => hR.instruction s _

theorem addLabel (l : String) : Preserves R (addLabel l) :=
  Preserves.modify fun s => hR.label s l

theorem createUniqueLabel (p : String) : Preserves R (createUniqueLabel p) := by
  intro s a t h
  cases h
  exact hR.unique s p

theorem addBranch (op : Opcode) (c : ℕ) (l : String) : Preserves R (addBranch op c l) := by
  intro s a t h
  obtain rfl := addBranch_eq_ok.mp h
  exact hR.branch s op c l

theorem loadConstant (op : Opcode) (v : Word) (k : ConstKind) :
    Preserves R (loadConstant op v k) := by
  intro s a t h
  obtain ⟨-, rfl⟩ := loadConstant_eq_ok.mp h
  exact hR.load s op v k

theorem lookupName (x : String) : Preserves R (lookupName x) := hR.loadConstant _ _ _

theorem emitEach (hes : ∀ e ∈ es, Preserves R e) :
    Preserves R (emitEach es) := by
  induction es with
  | nil => exact hR.pure []
  | cons e es ih =>
    obtain ⟨he, hes⟩ := List.forall_mem_cons.mp hes
    exact hR.bind he fun r => hR.bind (ih hes) fun rs => hR.pure _

theorem emitRegs (hes : ∀ e ∈ es, Preserves R e) :
    Preserves R (emitRegs es) := by
  induction es with
  | nil => exact hR.pure []
  | cons e es ih =>
    obtain ⟨he, hes⟩ := List.forall_mem_cons.mp hes
    exact hR.bind he fun r => hR.bind (hR.getTempReg r) fun _ =>
      hR.bind (ih hes) fun rs => hR.pure _

theorem moveArguments (regs : List ℕ) (i : ℕ) : Preserves R (moveArguments i regs) := by
  induction regs generalizing i with
  | nil => exact hR.pure ()
  | cons reg regs ih => exact hR.bind (hR.addInstruction _ _ _ _) fun _ => ih (i + 1)

theorem getTempRegs (rs : List (Option ℕ)) : Preserves R (rs.mapM Soot.Program.getTempReg) := by
  induction rs with
  | nil =>
    rw [List.mapM_nil]
    exact hR.pure []
  | cons r rs ih =>
    rw [List.mapM_cons]
    exact hR.bind (hR.getTempReg r) fun _ => hR.bind ih fun _ => hR.pure _

theorem offsetInto (addr base offset : ℕ) : Preserves R (offsetInto addr base offset) := by
  unfold Soot.Program.offsetInto
  split
  · exact hR.addInstruction _ _ _ _
  · exact hR.bind (hR.loadConstant _ _ _) fun _ => hR.addInstruction _ _ _ _

theorem addOffset (base offset : ℕ) : Preserves R (addOffset base offset) :=
  hR.bind hR.allocTempReg fun _ => hR.bind (hR.offsetInto _ _ _) fun _ => hR.pure _

theorem scaleIndex (offset index size : ℕ) : Preserves R (scaleIndex offset index size) := by
  unfold Soot.Program.scaleIndex
  split
  · exact hR.addInstruction _ _ _ _
  · exact hR.bind (hR.loadConstant _ _ _) fun _ => hR.addInstruction _ _ _ _

theorem loadOpcode (t : TypeDesc) : Preserves R (loadOpcode t) := by
  unfold Soot.Program.loadOpcode
  split
  · exact hR.pure _
  · split <;> first | exact hR.pure _ | exact Preserves.throw _

theorem storeOpFor (t : TypeDesc) : Preserves R (storeOpFor t) := by
  unfold Soot.Program.storeOpFor
  split
  · exact hR.pure _
  · split <;> first | exact hR.pure _ | exact Preserves.throw _

theorem setStoreOpcode (t : TypeDesc) : Preserves R (setStoreOpcode t) := by
  unfold Soot.Program.setStoreOpcode
  split
  · exact hR.pure _
  · exact hR.storeOpFor t

theorem moveUnlessSame (dst src : ℕ) : Preserves R (moveUnlessSame dst src) := by
  unfold Soot.Program.moveUnlessSame
  split
  · exact hR.pure ()
  · exact hR.addInstruction _ _ _ _

theorem value {β : Type} {f : ℕ → EmitM β} (he : Preserves R e)
    (hf : ∀ reg, Preserves R (f reg)) :
    Preserves R (e >>= fun r => Soot.Program.getTempReg r >>= f) :=
  hR.bind he fun r => hR.bind (hR.getTempReg r) hf

theorem fresh {β : Type} {f : ℕ → EmitM β} (hf : ∀ reg, Preserves R (f reg)) :
    Preserves R (Soot.Program.allocTempReg >>= f) := hR.bind hR.allocTempReg hf

theorem push {op : Opcode} {a b c : ℕ} {β : Type} {f : Unit → EmitM β}
    (hf : ∀ u, Preserves R (f u)) :
    Preserves R (Soot.Program.addInstruction op a b c >>= f) :=
  hR.bind (hR.addInstruction op a b c) hf

theorem emitConstString (text : String) : Preserves R (emitConstString text) := by
  unfold Soot.Program.emitConstString
  refine hR.bind hR.get fun _ => ?_
  split
  · exact Preserves.throw _
  · refine hR.bind (Preserves.modify fun s => hR.string s _) fun _ => ?_
    exact hR.bind (hR.loadConstant _ _ _) fun _ => hR.pure _

theorem emitVariable (x : String) (isHeap : Bool) : Preserves R (emitVariable x isHeap) := by
  unfold Soot.Program.emitVariable
  refine hR.bind hR.get fun _ => ?_
  split
  · exact hR.pure _
  · refine hR.bind (hR.lookupName x) fun _ => ?_
    split
    · exact hR.fresh fun _ => hR.push fun _ => hR.pure _
    · exact hR.pure _

theorem emitBinary (op : Opcode) {l r : Emitter} (hl : Preserves R l) (hr : Preserves R r) :
    Preserves R (emitBinary op l r) := by
  refine hR.bind hl fun lt => hR.bind hr fun rt => ?_
  refine hR.bind (hR.getTempReg lt) fun _ => hR.bind (hR.getTempReg rt) fun _ => ?_
  exact hR.fresh fun _ => hR.push fun _ => hR.pure _

theorem emitUnary (op : Opcode) (he : Preserves R e) :
    Preserves R (emitUnary op e) :=
  hR.value he fun _ => hR.fresh fun _ => hR.push fun _ => hR.pure _

theorem emitIf {c t : Emitter} {e : Option Emitter} (hc : Preserves R c) (ht : Preserves R t)
    (he : ∀ x ∈ e, Preserves R x) : Preserves R (emitIf c t e) := by
  refine hR.value hc fun _ => ?_
  refine hR.bind (hR.createUniqueLabel _) fun elseLabel => ?_
  refine hR.bind (hR.createUniqueLabel _) fun endLabel => ?_
  refine hR.bind (hR.addBranch _ _ _) fun _ => ?_
  refine hR.value ht fun thenReg => ?_
  refine hR.bind (hR.addBranch _ _ _) fun _ => ?_
  refine hR.bind (hR.addLabel _) fun _ => ?_
  have hend : Preserves R (do Soot.Program.addLabel endLabel; return some thenReg : Emitter) :=
    hR.bind (hR.addLabel _) fun _ => hR.pure _
  cases e with
  | none => exact hend
  | some x =>
    exact hR.value (he x rfl) fun _ => hR.bind (hR.moveUnlessSame _ _) fun _ => hend

theorem whileLabels (l : Option String) : Preserves R (whileLabels l) := by
  have hfresh : Preserves R (do
      return (← Soot.Program.createUniqueLabel "while_start",
        ← Soot.Program.createUniqueLabel "while_end") : EmitM (String × String)) :=
    hR.bind (hR.createUniqueLabel _) fun _ => hR.bind (hR.createUniqueLabel _) fun _ => hR.pure _
  unfold Soot.Program.whileLabels
  split
  · split
    · exact hfresh
    · exact hR.pure _
  · exact hfresh

theorem emitWhile {c b : Emitter} (l : Option String) (hc : Preserves R c)
    (hb : Preserves R b) : Preserves R (emitWhile c b l) := by
  refine hR.bind (hR.whileLabels l) fun labels => ?_
  refine hR.bind (hR.addLabel _) fun _ => ?_
  refine hR.value hc fun _ => ?_
  refine hR.bind (hR.addBranch _ _ _) fun _ => ?_
  refine hR.bind hb fun _ => ?_
  refine hR.bind (hR.addBranch _ _ _) fun _ => ?_
  exact hR.bind (hR.addLabel _) fun _ => hR.pure _

theorem emitBindings {bs : List (String × Emitter)} (hbs : ∀ b ∈ bs, Preserves R b.2) :
    Preserves R (emitBindings bs) := by
  induction bs with
  | nil => exact hR.pure ()
  | cons b bs ih =>
    obtain ⟨hb, hbs⟩ := List.forall_mem_cons.mp hbs
    refine hR.bind ?_ fun _ => ih hbs
    exact hR.value hb fun _ => hR.bind hR.get fun _ => hR.moveUnlessSame _ _

theorem emitLet {bs : List (String × Emitter)} {b : Emitter} (hbs : ∀ b ∈ bs, Preserves R b.2)
    (hb : Preserves R b) : Preserves R (emitLet bs b) :=
  hR.bind (hR.emitBindings hbs) fun _ => hR.value hb fun _ => hR.pure _

theorem emitSetVariable (x : String) (he : Preserves R e) :
    Preserves R (emitSetVariable x e) := by
  refine hR.value he fun _ => hR.bind hR.get fun _ => ?_
  split
  · exact Preserves.throw _
  · exact hR.bind (hR.moveUnlessSame _ _) fun _ => hR.pure _

theorem emitReturn {e : Option Emitter} (he : ∀ x ∈ e, Preserves R x) :
    Preserves R (emitReturn e) := by
  cases e with
  | none => exact hR.push fun _ => hR.pure _
  | some x => exact hR.value (he x rfl) fun _ => hR.push fun _ => hR.pure _

theorem emitCall (x : String) {args : List Emitter} (native : Bool)
    (hargs : ∀ e ∈ args, Preserves R e) : Preserves R (emitCall x args native) := by
  refine hR.bind (hR.emitEach hargs) fun temps => hR.bind (hR.lookupName x) fun _ => ?_
  refine hR.bind (hR.getTempRegs temps) fun regs => hR.bind (hR.moveArguments _ _) fun _ => ?_
  exact hR.fresh fun _ => hR.push fun _ => hR.pure _

theorem emitMethodCall (x : String) {o : Emitter} {args : List Emitter} (id : Option ℕ)
    (native : Bool) (ho : Preserves R o) (hargs : ∀ e ∈ args, Preserves R e) :
    Preserves R (emitMethodCall x o args id native) := by
  have hall : ∀ e ∈ o :: args, Preserves R e := List.forall_mem_cons.mpr ⟨ho, hargs⟩
  cases id with
  | some id =>
    refine hR.bind (hR.emitRegs hall) fun regs => hR.bind (hR.moveArguments _ _) fun _ => ?_
    refine hR.bind (hR.loadConstant _ _ _) fun _ => ?_
    exact hR.fresh fun _ => hR.push fun _ => hR.pure _
  | none =>
    refine hR.bind (hR.lookupName x) fun _ => hR.bind (hR.emitRegs hall) fun regs => ?_
    refine hR.bind (hR.moveArguments _ _) fun _ => ?_
    exact hR.fresh fun _ => hR.push fun _ => hR.pure _

theorem emitDerefLvalue (offset : ℕ) (he : Preserves R e) :
    Preserves R (emitDerefLvalue e offset) :=
  hR.value he fun _ => hR.fresh fun _ => hR.push fun _ => hR.pure _

theorem emitDeref (offset : ℕ) (t : Option TypeDesc) (isInline : Bool)
    (he : Preserves R e) : Preserves R (emitDeref e offset t isInline) := by
  refine hR.bind (hR.emitDerefLvalue offset he) fun _ => ?_
  split
  · exact Preserves.throw _
  · split
    · exact Preserves.throw _
    · exact hR.fresh fun _ => hR.bind (hR.loadOpcode _) fun _ => hR.push fun _ => hR.pure _
    · split
      · exact hR.pure _
      · exact hR.fresh fun _ => hR.push fun _ => hR.pure _

theorem emitAtLvalue {b i : Emitter} (idx : Option I64) (t : TypeDesc) (hb : Preserves R b)
    (hi : Preserves R i) : Preserves R (emitAtLvalue b i idx t) := by
  refine hR.value hb fun _ => hR.bind (hR.require _ _) fun _ => ?_
  cases idx with
  | some v => exact hR.bind (hR.require _ _) fun _ => hR.addOffset _ _
  | none =>
    refine hR.value hi fun _ => hR.fresh fun _ => hR.bind (hR.scaleIndex _ _ _) fun _ => ?_
    exact hR.fresh fun _ => hR.push fun _ => hR.pure _

theorem emitAt {b i : Emitter} (idx : Option I64) (t : Option TypeDesc) (hb : Preserves R b)
    (hi : Preserves R i) : Preserves R (emitAt b i idx t) := by
  cases t with
  | none => exact Preserves.throw _
  | some t =>
    refine hR.bind (hR.emitAtLvalue idx t hb hi) fun _ => ?_
    split
    · exact hR.pure _
    · exact hR.bind (hR.loadOpcode t) fun _ => hR.fresh fun _ => hR.push fun _ => hR.pure _

theorem emitSetField {b v : Emitter} (offset : ℕ) (t : Option TypeDesc) (hb : Preserves R b)
    (hv : Preserves R v) : Preserves R (emitSetField b offset t v) := by
  refine hR.value hv fun _ => ?_
  cases t with
  | none => exact Preserves.throw _
  | some t =>
    refine hR.bind (hR.emitDerefLvalue offset hb) fun _ => ?_
    exact hR.bind (hR.setStoreOpcode t) fun _ => hR.push fun _ => hR.pure _

theorem emitSetAt {b i v : Emitter} (idx : Option I64) (t : Option TypeDesc)
    (hb : Preserves R b) (hi : Preserves R i) (hv : Preserves R v) :
    Preserves R (emitSetAt b i idx t v) := by
  refine hR.value hv fun _ => ?_
  cases t with
  | none => exact Preserves.throw _
  | some t =>
    refine hR.bind (hR.emitAtLvalue idx t hb hi) fun _ => ?_
    exact hR.bind (hR.setStoreOpcode t) fun _ => hR.push fun _ => hR.pure _

theorem emitAllocate (x : String) (a b : Word) (k : ConstKind) :
    Preserves R (emitAllocate x a b k) := by
  refine hR.bind (hR.lookupName x) fun _ => ?_
  refine hR.bind (hR.loadConstant _ _ _) fun _ => hR.push fun _ => ?_
  refine hR.bind (hR.loadConstant _ _ _) fun _ => hR.push fun _ => ?_
  exact hR.fresh fun _ => hR.push fun _ => hR.pure _

theorem emitFieldInit (nt : NewType) (ptr : ℕ) (field : FieldDesc)
    (he : Preserves R e) : Preserves R (emitFieldInit nt ptr field e) := by
  unfold Soot.Program.emitFieldInit
  split
  · exact hR.pure ()
  · split
    · exact hR.pure ()
    · split
      · exact hR.pure ()
      · refine hR.fresh fun _ => hR.push fun _ => ?_
        exact hR.value he fun _ => hR.bind (hR.storeOpFor _) fun _ =>
          hR.addInstruction _ _ _ _

theorem emitKeywordInits (nt : NewType) (ptr : ℕ) (fields : List FieldDesc)
    {inits : List (String × Emitter)} (h : ∀ p ∈ inits, Preserves R p.2) :
    Preserves R (emitKeywordInits nt ptr fields inits) := by
  induction inits with
  | nil => exact hR.pure ()
  | cons p inits ih =>
    obtain ⟨hp, hinits⟩ := List.forall_mem_cons.mp h
    unfold Soot.Program.emitKeywordInits
    split
    · exact hR.bind (hR.pure ()) fun _ => ih hinits
    · exact hR.bind (hR.emitFieldInit nt ptr _ hp) fun _ => ih hinits

theorem emitPositionalInits (nt : NewType) (ptr : ℕ) (fields : List FieldDesc)
    {inits : List Emitter} (h : ∀ e ∈ inits, Preserves R e) :
    Preserves R (emitPositionalInits nt ptr fields inits) := by
  induction inits generalizing fields with
  | nil => cases fields <;> exact hR.pure ()
  | cons e inits ih =>
    obtain ⟨he, hinits⟩ := List.forall_mem_cons.mp h
    cases fields with
    | nil => exact hR.pure ()
    | cons field fields =>
      exact hR.bind (hR.emitFieldInit nt ptr field he) fun _ => ih fields hinits

theorem emitNewObject (a x : String) (t : Option NewType) {fs : List (String × Emitter)}
    (hfs : ∀ p ∈ fs, Preserves R p.2) (hes : ∀ e ∈ es, Preserves R e) :
    Preserves R (emitNewObject a x t fs es) := by
  refine hR.bind (hR.require _ _) fun _ => ?_
  cases t with
  | none => exact Preserves.throw _
  | some t =>
    refine hR.bind (hR.emitAllocate _ _ _ _) fun ptr => ?_
    have htag : Preserves R (emitTypeTag t ptr x) := by
      unfold emitTypeTag
      split
      · exact hR.bind (hR.loadConstant _ _ _) fun _ => hR.addInstruction _ _ _ _
      · exact hR.pure ()
    refine hR.bind htag fun _ => ?_
    split
    · have hinits : ∀ e ∈ (if fs.isEmpty then es else fs.map Prod.snd), Preserves R e := by
        split
        · exact hes
        · intro e he
          obtain ⟨p, hp, rfl⟩ := List.mem_map.mp he
          exact hfs p hp
      refine hR.bind (hR.lookupName _) fun _ => hR.bind (hR.loadConstant _ _ _) fun _ => ?_
      refine hR.bind (hR.emitRegs hinits) fun _ => hR.bind (hR.moveArguments _ _) fun _ => ?_
      exact hR.fresh fun _ => hR.push fun _ => hR.pure _
    · refine hR.bind ?_ fun _ => hR.pure _
      unfold emitFieldInitStores
      split
      · exact hR.pure ()
      · split
        · exact hR.emitPositionalInits _ _ _ hes
        · exact hR.emitKeywordInits _ _ _ hfs

theorem emitElementFields (ptr start : ℕ) (fields : List FieldDesc)
    {inits : List (String × Emitter)} (h : ∀ p ∈ inits, Preserves R p.2) :
    Preserves R (emitElementFields ptr start inits fields) := by
  induction fields with
  | nil => exact hR.pure ()
  | cons field fields ih =>
    refine hR.bind ?_ fun _ => ih
    unfold emitElementField
    split
    · rename_i e t he ht
      refine hR.bind (hR.require _ _) fun _ => hR.value ?_ fun _ => ?_
      · obtain ⟨l₁, l₂, hl, -⟩ := List.lookup_eq_some_iff.mp he
        exact h (field.name, e) (by rw [hl]; simp)
      · exact hR.bind (hR.addOffset _ _) fun _ => hR.bind (hR.storeOpFor _) fun _ =>
          hR.addInstruction _ _ _ _
    · exact hR.pure ()

theorem emitStructElements (ptr size : ℕ) (fields : List FieldDesc)
    {inits : List (Option (List (String × Emitter)))}
    (h : ∀ fs, some fs ∈ inits → ∀ p ∈ fs, Preserves R p.2) (i : ℕ) :
    Preserves R (emitStructElements ptr size fields i inits) := by
  induction inits generalizing i with
  | nil => exact hR.pure ()
  | cons o inits ih =>
    cases o with
    | none => exact Preserves.throw _
    | some fs =>
      have hfs : ∀ p ∈ fs, Preserves R p.2 := h fs List.mem_cons_self
      refine hR.bind (hR.emitElementFields _ _ _ hfs) fun _ => ih ?_ (i + 1)
      exact fun gs hgs => h gs (List.mem_cons_of_mem _ hgs)

theorem emitScalarElements (ptr size : ℕ) (op : Opcode)
    (h : ∀ e ∈ es, Preserves R e) (i : ℕ) :
    Preserves R (emitScalarElements ptr size op i es) := by
  induction es generalizing i with
  | nil => exact hR.pure ()
  | cons e es ih =>
    obtain ⟨he, hes⟩ := List.forall_mem_cons.mp h
    refine hR.value he fun _ => hR.bind (hR.addOffset _ _) fun _ => ?_
    exact hR.push fun _ => ih hes (i + 1)

theorem emitNewArray (a x : String) (t : Option NewType) (k : ℕ)
    {inits : List (Option (List (String × Emitter)))} (hes : ∀ e ∈ es, Preserves R e)
    (hinits : ∀ fs, some fs ∈ inits → ∀ p ∈ fs, Preserves R p.2) :
    Preserves R (emitNewArray a x t k es inits) := by
  refine hR.bind (hR.require _ _) fun _ => ?_
  cases t with
  | none => exact Preserves.throw _
  | some t =>
    refine hR.bind (hR.require _ _) fun _ => hR.bind (hR.emitAllocate _ _ _ _) fun ptr => ?_
    refine hR.bind ?_ fun _ => hR.pure _
    unfold emitElements
    split
    · split
      · exact Preserves.throw _
      · exact hR.emitStructElements _ _ _ hinits 0
    · exact hR.bind (hR.storeOpFor _) fun _ => hR.emitScalarElements _ _ _ hes 0

omit hR in
theorem emitters_eq_map (ns : List Node) : emitters ns = ns.map emit := by
  induction ns with
  | nil => rfl
  | cons n ns ih => simp [emitters, ih]

omit hR in
theorem emitters₂_eq_map (ps : List (String × Node)) :
    emitters₂ ps = ps.map fun p => (p.1, emit p.2) := by
  induction ps with
  | nil => rfl
  | cons p ps ih => simp [emitters₂, ih]

omit hR in
theorem emitters_preserve {ns : List Node} (h : ∀ n ∈ ns, Preserves R (emit n)) :
    ∀ e ∈ emitters ns, Preserves R e := by
  rw [emitters_eq_map]
  intro e he
  obtain ⟨n, hn, rfl⟩ := List.mem_map.mp he
  exact h n hn

omit hR in
theorem emitters₂_preserve {ps : List (String × Node)} (h : ∀ p ∈ ps, Preserves R (emit p.2)) :
    ∀ e ∈ emitters₂ ps, Preserves R e.2 := by
  rw [emitters₂_eq_map]
  intro e he
  obtain ⟨p, hp, rfl⟩ := List.mem_map.mp he
  exact h p hp

omit hR in
theorem mem_elementInits {ns : List Node} {fs : List (String × Emitter)}
    (h : some fs ∈ elementInits ns) :
    fs = [] ∨ ∃ a x t ps as, Node.newObject a x t ps as ∈ ns ∧ fs = emitters₂ ps := by
  induction ns with
  | nil => cases h
  | cons n ns ih =>
    have hrest : some fs ∈ elementInits ns →
        fs = [] ∨ ∃ a x t ps as, Node.newObject a x t ps as ∈ n :: ns ∧ fs = emitters₂ ps := by
      intro hmem
      rcases ih hmem with hnil | ⟨a, x, t, ps, as, hn, hfs⟩
      · exact Or.inl hnil
      · exact Or.inr ⟨a, x, t, ps, as, List.mem_cons_of_mem _ hn, hfs⟩
    cases n with
    | newObject a x t ps as =>
      rcases List.mem_cons.mp h with heq | hmem
      · exact Or.inr ⟨a, x, t, ps, as, List.mem_cons_self, Option.some.inj heq⟩
      · exact hrest hmem
    | newArray a x t k es =>
      rcases List.mem_cons.mp h with heq | hmem
      · exact Or.inl (Option.some.inj heq)
      · exact hrest hmem
    | _ =>
      rcases List.mem_cons.mp h with heq | hmem
      · cases heq
      · exact hrest hmem

/-- **every tree's emission respects a stable relation.** The statement carries the
initialisers of an object along, because an inline array emits those of its elements without
emitting the elements. -/
theorem emit_and_inits (n : Node) :
    Preserves R (emit n) ∧
      ∀ a x t ps as, n = .newObject a x t ps as → ∀ p ∈ ps, Preserves R (emit p.2) := by
  induction n using Node.induct with
  | constInt v => exact ⟨Preserves.map _ (hR.loadConstant _ _ _), by rintro _ _ _ _ _ ⟨⟩⟩
  | constFloat b => exact ⟨Preserves.map _ (hR.loadConstant _ _ _), by rintro _ _ _ _ _ ⟨⟩⟩
  | constString t => exact ⟨hR.emitConstString t, by rintro _ _ _ _ _ ⟨⟩⟩
  | variableNode x t h e => exact ⟨hR.emitVariable x h, by rintro _ _ _ _ _ ⟨⟩⟩
  | binaryNode op l r hl hr => exact ⟨hR.emitBinary _ hl.1 hr.1, by rintro _ _ _ _ _ ⟨⟩⟩
  | unaryNode op e he => exact ⟨hR.emitUnary _ he.1, by rintro _ _ _ _ _ ⟨⟩⟩
  | compareNode op l r hl hr => exact ⟨hR.emitBinary _ hl.1 hr.1, by rintro _ _ _ _ _ ⟨⟩⟩
  | ifNode c t e hc ht he =>
    refine ⟨?_, by rintro _ _ _ _ _ ⟨⟩⟩
    cases e with
    | none => exact hR.emitIf hc.1 ht.1 (by simp)
    | some e => exact hR.emitIf hc.1 ht.1 (by simpa using (he e rfl).1)
  | whileNode c b l hc hb => exact ⟨hR.emitWhile l hc.1 hb.1, by rintro _ _ _ _ _ ⟨⟩⟩
  | letNode bs b hbs hb =>
    refine ⟨?_, by rintro _ _ _ _ _ ⟨⟩⟩
    exact hR.emitLet (emitters₂_preserve fun p hp => (hbs p hp).1) hb.1
  | setVariable x v hv => exact ⟨hR.emitSetVariable x hv.1, by rintro _ _ _ _ _ ⟨⟩⟩
  | setField b o t v hb hv => exact ⟨hR.emitSetField o t hb.1 hv.1, by rintro _ _ _ _ _ ⟨⟩⟩
  | setAt b i t v hb hi hv =>
    exact ⟨hR.emitSetAt _ t hb.1 hi.1 hv.1, by rintro _ _ _ _ _ ⟨⟩⟩
  | sequenceNode es hes =>
    refine ⟨?_, by rintro _ _ _ _ _ ⟨⟩⟩
    exact hR.bind (hR.emitEach (emitters_preserve fun n hn => (hes n hn).1)) fun _ => hR.pure _
  | returnNode v hv =>
    refine ⟨?_, by rintro _ _ _ _ _ ⟨⟩⟩
    cases v with
    | none => exact hR.emitReturn (by simp)
    | some e => exact hR.emitReturn (by simpa using (hv e rfl).1)
  | callNode x as k t has =>
    refine ⟨?_, by rintro _ _ _ _ _ ⟨⟩⟩
    exact hR.emitCall x k (emitters_preserve fun n hn => (has n hn).1)
  | methodCallNode x o as m k t ho has =>
    refine ⟨?_, by rintro _ _ _ _ _ ⟨⟩⟩
    exact hR.emitMethodCall x m k ho.1 (emitters_preserve fun n hn => (has n hn).1)
  | castNode e t he => exact ⟨hR.emitUnary _ he.1, by rintro _ _ _ _ _ ⟨⟩⟩
  | derefNode e o t i he => exact ⟨hR.emitDeref o t i he.1, by rintro _ _ _ _ _ ⟨⟩⟩
  | atNode b i t hb hi => exact ⟨hR.emitAt _ t hb.1 hi.1, by rintro _ _ _ _ _ ⟨⟩⟩
  | newObject a x t fs as hfs has =>
    refine ⟨?_, ?_⟩
    · exact hR.emitNewObject a x t (emitters₂_preserve fun p hp => (hfs p hp).1)
        (emitters_preserve fun n hn => (has n hn).1)
    · rintro _ _ _ _ _ ⟨⟩ p hp
      exact (hfs p hp).1
  | newArray a x t k es hes =>
    refine ⟨?_, by rintro _ _ _ _ _ ⟨⟩⟩
    refine hR.emitNewArray a x t k (emitters_preserve fun n hn => (hes n hn).1) ?_
    intro inits hinits
    rcases mem_elementInits hinits with rfl | ⟨a', x', t', ps, as, hmem, rfl⟩
    · simp
    · exact emitters₂_preserve fun p hp => (hes _ hmem).2 a' x' t' ps as rfl p hp
  | storeGlobalNode x v hv =>
    refine ⟨?_, by rintro _ _ _ _ _ ⟨⟩⟩
    exact hR.value hv.1 fun _ => hR.bind (hR.lookupName _) fun _ => hR.push fun _ => hR.pure _
  | storeFieldNode x o v hv =>
    refine ⟨?_, by rintro _ _ _ _ _ ⟨⟩⟩
    refine hR.bind (hR.lookupName _) fun _ => hR.bind (hR.addOffset _ _) fun _ => ?_
    exact hR.value hv.1 fun _ => hR.push fun _ => hR.pure _

theorem emit {n : Node} {s t : FunctionNode} {r : Option ℕ}
    (h : Soot.Program.emit n s = .ok (r, t)) : R s t := (hR.emit_and_inits n).1 h

end Stable

end Soot.Analysis
