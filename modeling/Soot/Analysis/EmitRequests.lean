import Mathlib.Data.List.Forall2
import Soot.Analysis.EmitStable
import Soot.Model.Requests

/-!
# Emission loads what the tree asks for

The load instructions of the emitted code are, in order, those of the requests of the tree, each
with the index of its value in the pool, and the pool grows by the values that were not in it.
The rules below follow the emitters like those of a stable relation, but keep the account of
what was asked for.
-/

set_option autoImplicit false

namespace Soot.Analysis

open Soot.Program Soot.Computation Soot.Model

variable {ρ : Asking} {ρs : List (String × Asking)} {op : Opcode} {es : List Emitter}
  {e : Emitter}

/-! ## Requests and the code that answers them -/

/-- The instruction loads the requested constant from its first place in the pool. -/
def Loads (constants : List Word) (i : Instruction) (q : Request) : Prop :=
  q.value ∈ constants ∧
    ∃ reg, i = Instruction.setImm16 ⟨q.op, reg, 0, 0⟩ (u16 (constants.idxOf q.value))

/-- The branches that are to be patched are not loads. -/
def BranchesPlain (s : FunctionNode) : Prop :=
  ∀ b ∈ s.unresolvedBranches, ∃ i, s.instructions[b.2]? = some i ∧ readsPool i.opcode = false

/-- Between `s` and `t` the emission answered these requests. -/
structure Asked (s t : FunctionNode) (reqs : List Request) : Prop where
  lookup : t.lookupVariable = s.lookupVariable
  pool : (t.constants, t.constantsKind) = reqs.foldl askPool (s.constants, s.constantsKind)
  code : ∃ code, t.instructions = s.instructions ++ code ∧
    List.Forall₂ (Loads t.constants) (code.filter fun i => readsPool i.opcode) reqs
  branches : BranchesPlain s → BranchesPlain t

theorem prefix_foldl_askPool (reqs : List Request) (pool : List Word × List ConstKind) :
    pool.1 <+: (reqs.foldl askPool pool).1 := by
  induction reqs generalizing pool with
  | nil => exact List.prefix_rfl
  | cons q reqs ih =>
    refine List.IsPrefix.trans ?_ (ih (askPool pool q))
    unfold askPool
    split
    · exact List.prefix_rfl
    · exact List.prefix_append _ _

theorem Loads.mono {cs cs' : List Word} {i : Instruction} {q : Request} (h : Loads cs i q)
    (hle : cs <+: cs') : Loads cs' i q := by
  obtain ⟨hmem, reg, rfl⟩ := h
  obtain ⟨rest, rfl⟩ := hle
  refine ⟨List.mem_append_left _ hmem, reg, ?_⟩
  rw [List.idxOf_append, if_pos hmem]

theorem Asked.refl (s : FunctionNode) : Asked s s [] :=
  ⟨rfl, rfl, ⟨[], by simp, List.Forall₂.nil⟩, id⟩

theorem Asked.trans {s t u : FunctionNode} {rs rs' : List Request} (h₁ : Asked s t rs)
    (h₂ : Asked t u rs') : Asked s u (rs ++ rs') := by
  obtain ⟨code₁, hcode₁, hloads₁⟩ := h₁.code
  obtain ⟨code₂, hcode₂, hloads₂⟩ := h₂.code
  have hkeep : t.constants <+: u.constants := by
    have hpool : u.constants = (rs'.foldl askPool (t.constants, t.constantsKind)).1 :=
      congrArg Prod.fst h₂.pool
    rw [hpool]
    exact prefix_foldl_askPool rs' (t.constants, t.constantsKind)
  refine ⟨h₂.lookup.trans h₁.lookup, ?_, ?_, fun hs => h₂.branches (h₁.branches hs)⟩
  · rw [h₂.pool, h₁.pool, List.foldl_append]
  · refine ⟨code₁ ++ code₂, by rw [hcode₂, hcode₁, List.append_assoc], ?_⟩
    rw [List.filter_append]
    exact List.rel_append (hloads₁.imp fun _ _ h => h.mono hkeep) hloads₂

theorem asked_push (s : FunctionNode) {i : Instruction} (hi : readsPool i.opcode = false) :
    Asked s (s.pushInstruction i) [] := by
  refine ⟨rfl, rfl, ⟨[i], rfl, ?_⟩, ?_⟩
  · rw [List.filter_cons_of_neg (by simp [hi])]
    exact List.Forall₂.nil
  · intro hs b hb
    obtain ⟨j, hj, hplain⟩ := hs b hb
    refine ⟨j, ?_, hplain⟩
    rw [← hj]
    exact List.getElem?_append_left (List.getElem?_eq_some_iff.mp hj).1

theorem asked_branch (s : FunctionNode) (hop : readsPool op = false) (c : ℕ)
    (l : String) : Asked s (pushBranch s op c l) [] := by
  have hpush := asked_push s (i := ⟨op, c, 0, 0⟩) hop
  refine ⟨hpush.lookup, hpush.pool, hpush.code, ?_⟩
  intro hs b hb
  rcases List.mem_append.mp hb with hb | hb
  · exact hpush.branches hs b hb
  · rw [List.mem_singleton.mp hb]
    exact ⟨⟨op, c, 0, 0⟩, by simp [pushBranch, FunctionNode.pushInstruction], hop⟩

theorem asked_load (s : FunctionNode) (hop : readsPool op = true) (v : Word)
    (k : ConstKind) : Asked s (pushLoad s op v k) [⟨op, v, k⟩] := by
  have hmem : v ∈ (s.addConstant v k).2.constants ∧
      (s.addConstant v k).1 = u16 ((s.addConstant v k).2.constants.idxOf v) ∧
      ((s.addConstant v k).2.constants, (s.addConstant v k).2.constantsKind) =
        askPool (s.constants, s.constantsKind) ⟨op, v, k⟩ ∧
      (s.addConstant v k).2.instructions = s.instructions ∧
      (s.addConstant v k).2.unresolvedBranches = s.unresolvedBranches ∧
      (s.addConstant v k).2.lookupVariable = s.lookupVariable := by
    unfold FunctionNode.addConstant askPool
    by_cases hv : s.constants.contains v = true
    · rw [if_pos hv, if_pos hv]
      exact ⟨List.contains_iff_mem.mp hv, rfl, rfl, rfl, rfl, rfl⟩
    · have hnot : v ∉ s.constants := fun h => hv (List.contains_iff_mem.mpr h)
      rw [if_neg hv, if_neg hv]
      refine ⟨List.mem_append_right _ (List.mem_singleton_self v), ?_, rfl, rfl, rfl, rfl⟩
      rw [List.idxOf_append, if_neg hnot, List.idxOf_cons_self, Nat.zero_add]
  obtain ⟨hin, hidx, hpool, hcode, hbranches, hvariables⟩ := hmem
  refine ⟨hvariables, hpool, ?_, ?_⟩
  · refine ⟨[_], congrArg (· ++ _) hcode, ?_⟩
    rw [List.filter_cons_of_pos (by exact hop)]
    refine List.Forall₂.cons ⟨hin, (s.addConstant v k).2.allocTempReg.1, ?_⟩ List.Forall₂.nil
    rw [hidx]
    rfl
  · intro hs b hb
    have hb' : b ∈ s.unresolvedBranches := hbranches ▸ hb
    obtain ⟨j, hj, hplain⟩ := hs b hb'
    refine ⟨j, ?_, hplain⟩
    have hlt := (List.getElem?_eq_some_iff.mp hj).1
    show ((s.addConstant v k).2.instructions ++ _)[b.2]? = some j
    rw [hcode, List.getElem?_append_left hlt, hj]

/-! ## Emitters -/

section Asks

variable {look : String → Option VariableInfo}

/-- A successful emission answers what is asked for, in a function with these variables. -/
def Asks {α : Type} (look : String → Option VariableInfo) (x : EmitM α) (ρ : Asking) : Prop :=
  ∀ ⦃s a t⦄, x s = .ok (a, t) → s.lookupVariable = look →
    Asked s t (ρ s.strings).1 ∧ t.strings = (ρ s.strings).2

namespace Asks

theorem and_nothing (ρ : Asking) : ρ.and .nothing = ρ := by
  funext p
  simp [Asking.and, Asking.nothing]

theorem nothing_and (ρ : Asking) : Asking.nothing.and ρ = ρ := by
  funext p
  simp [Asking.and, Asking.nothing]

theorem bind {α β : Type} {x : EmitM α} {f : α → EmitM β} {ρ ρ' : Asking}
    (hx : Asks look x ρ) (hf : ∀ a, Asks look (f a) ρ') : Asks look (x >>= f) (ρ.and ρ') := by
  intro s b u h hs
  obtain ⟨a, t, hxs, hft⟩ := bind_eq_ok.mp h
  obtain ⟨hasked, hstrings⟩ := hx hxs hs
  obtain ⟨hasked', hstrings'⟩ := hf a hft (hasked.lookup.trans hs)
  rw [hstrings] at hasked' hstrings'
  exact ⟨hasked.trans hasked', hstrings'⟩

theorem first {α β : Type} {x : EmitM α} {f : α → EmitM β}
    (hx : Asks look x .nothing) (hf : ∀ a, Asks look (f a) ρ) : Asks look (x >>= f) ρ := by
  have h := hx.bind hf
  rwa [nothing_and] at h

theorem last {α β : Type} {x : EmitM α} {f : α → EmitM β} (hx : Asks look x ρ)
    (hf : ∀ a, Asks look (f a) .nothing) : Asks look (x >>= f) ρ := by
  have h := hx.bind hf
  rwa [and_nothing] at h

theorem pure {α : Type} (a : α) : Asks look (Pure.pure a : EmitM α) .nothing := by
  intro s b t h _
  obtain ⟨-, rfl⟩ := pure_eq_ok.mp h
  exact ⟨Asked.refl s, rfl⟩

theorem throw {α : Type} (e : EmitError) (ρ : Asking) :
    Asks look (MonadExcept.throw e : EmitM α) ρ := by
  intro s b t h
  exact absurd h throw_ne_ok

theorem get {β : Type} {f : FunctionNode → EmitM β}
    (hf : ∀ s, s.lookupVariable = look → Asks look (f s) ρ) :
    Asks look (MonadState.get >>= f) ρ := by
  intro s b u h hs
  obtain ⟨a, t, hget, hft⟩ := bind_eq_ok.mp h
  obtain ⟨rfl, rfl⟩ := get_eq_ok.mp hget
  exact hf s hs hft hs

theorem map {α β : Type} {x : EmitM α} (f : α → β) (hx : Asks look x ρ) :
    Asks look (f <$> x) ρ := by
  intro s b t h hs
  obtain ⟨a, hxs, -⟩ := map_eq_ok.mp h
  exact hx hxs hs

/-! ### Primitives -/

theorem getTempReg (r : Option ℕ) : Asks look (getTempReg r) .nothing := by
  cases r with
  | none => exact throw _ _
  | some reg => exact pure reg

theorem require (p : Prop) [Decidable p] (e : EmitError) : Asks look (require p e) .nothing := by
  unfold Soot.Program.require
  split
  · exact pure ()
  · exact throw e _

theorem allocTempReg : Asks look allocTempReg .nothing := by
  intro s a t h _
  cases h
  exact ⟨⟨rfl, rfl, ⟨[], (List.append_nil _).symm, List.Forall₂.nil⟩, id⟩, rfl⟩

theorem addInstruction (hop : readsPool op = false) (a b c : ℕ) :
    Asks look (addInstruction op a b c) .nothing := by
  intro s u t h _
  obtain rfl := modify_eq_ok.mp h
  exact ⟨asked_push s hop, rfl⟩

theorem addLabel (l : String) : Asks look (addLabel l) .nothing := by
  intro s u t h _
  obtain rfl := modify_eq_ok.mp h
  exact ⟨⟨rfl, rfl, ⟨[], (List.append_nil _).symm, List.Forall₂.nil⟩, id⟩, rfl⟩

theorem createUniqueLabel (p : String) : Asks look (createUniqueLabel p) .nothing := by
  intro s a t h _
  cases h
  exact ⟨⟨rfl, rfl, ⟨[], (List.append_nil _).symm, List.Forall₂.nil⟩, id⟩, rfl⟩

theorem addBranch (hop : readsPool op = false) (c : ℕ) (l : String) :
    Asks look (addBranch op c l) .nothing := by
  intro s a t h _
  obtain rfl := addBranch_eq_ok.mp h
  exact ⟨asked_branch s hop c l, rfl⟩

theorem loadConstant (hop : readsPool op = true) (v : Word) (k : ConstKind) :
    Asks look (loadConstant op v k) (.ask op v k) := by
  intro s a t h _
  obtain ⟨-, rfl⟩ := loadConstant_eq_ok.mp h
  refine ⟨asked_load s hop v k, ?_⟩
  show (s.addConstant v k).2.strings = s.strings
  unfold FunctionNode.addConstant
  split <;> rfl

theorem lookupName (x : String) : Asks look (lookupName x) (.name x) := loadConstant rfl _ _

/-! ### Parts of emitters -/

theorem value {β : Type} {f : ℕ → EmitM β} {ρ ρ' : Asking} (he : Asks look e ρ)
    (hf : ∀ reg, Asks look (f reg) ρ') :
    Asks look (e >>= fun r => Soot.Program.getTempReg r >>= f) (ρ.and ρ') :=
  he.bind fun r => (getTempReg r).first hf

theorem valueLast {β : Type} {f : ℕ → EmitM β} (he : Asks look e ρ)
    (hf : ∀ reg, Asks look (f reg) .nothing) :
    Asks look (e >>= fun r => Soot.Program.getTempReg r >>= f) ρ :=
  he.last fun r => (getTempReg r).first hf

theorem result (hop : readsPool op = false) (b c : ℕ) :
    Asks look (do
      let reg ← Soot.Program.allocTempReg
      Soot.Program.addInstruction op reg b c
      return some reg : Emitter) .nothing :=
  allocTempReg.first fun _ => (addInstruction hop _ _ _).first fun _ => pure _

theorem moveArguments (regs : List ℕ) (i : ℕ) : Asks look (moveArguments i regs) .nothing := by
  induction regs generalizing i with
  | nil => exact pure ()
  | cons reg regs ih => exact (addInstruction rfl _ _ _).first fun _ => ih (i + 1)

theorem getTempRegs (rs : List (Option ℕ)) :
    Asks look (rs.mapM Soot.Program.getTempReg) .nothing := by
  induction rs with
  | nil =>
    rw [List.mapM_nil]
    exact pure []
  | cons r rs ih =>
    rw [List.mapM_cons]
    exact (getTempReg r).first fun _ => ih.first fun _ => pure _

theorem emitEach {ρs : List Asking} (h : List.Forall₂ (Asks look) es ρs) :
    Asks look (emitEach es) (.each ρs) := by
  induction h with
  | nil => exact pure []
  | cons he _ ih => exact he.bind fun r => ih.last fun rs => pure _

theorem emitRegs {ρs : List Asking} (h : List.Forall₂ (Asks look) es ρs) :
    Asks look (emitRegs es) (.each ρs) := by
  induction h with
  | nil => exact pure []
  | cons he _ ih => exact he.value fun _ => ih.last fun _ => pure _

theorem addOffset (base offset : ℕ) : Asks look (addOffset base offset) (.large offset) := by
  refine allocTempReg.first fun addr => last ?_ fun _ => pure _
  unfold Soot.Program.offsetInto Asking.large
  split
  · exact addInstruction rfl _ _ _
  · exact (loadConstant rfl _ _).last fun _ => addInstruction rfl _ _ _

theorem scaleIndex (offset index size : ℕ) :
    Asks look (scaleIndex offset index size) (.large size) := by
  unfold Soot.Program.scaleIndex Asking.large
  split
  · exact addInstruction rfl _ _ _
  · exact (loadConstant rfl _ _).last fun _ => addInstruction rfl _ _ _

/-- The choice of an opcode that does not read the pool, and nothing else. -/
def Chooses (x : EmitM Opcode) : Prop :=
  ∀ ⦃s op t⦄, x s = .ok (op, t) → readsPool op = false ∧ s = t

theorem chooses_pure (hop : readsPool op = false) : Chooses (Pure.pure op) := by
  intro s a t h
  obtain ⟨rfl, rfl⟩ := pure_eq_ok.mp h
  exact ⟨hop, rfl⟩

theorem chooses_throw (e : EmitError) : Chooses (MonadExcept.throw e) := by
  intro s a t h
  exact absurd h throw_ne_ok

theorem chooses_loadOpcode (t : TypeDesc) : Chooses (loadOpcode t) := by
  unfold Soot.Program.loadOpcode
  split
  · exact chooses_pure rfl
  · cases t.loadSigned <;> split <;> first | exact chooses_pure rfl | exact chooses_throw _

theorem chooses_storeOpFor (t : TypeDesc) : Chooses (storeOpFor t) := by
  unfold Soot.Program.storeOpFor
  split
  · exact chooses_pure rfl
  · split <;> first | exact chooses_pure rfl | exact chooses_throw _

theorem chooses_setStoreOpcode (t : TypeDesc) : Chooses (setStoreOpcode t) := by
  unfold Soot.Program.setStoreOpcode
  split
  · exact chooses_pure rfl
  · exact chooses_storeOpFor t

theorem choose {β : Type} {x : EmitM Opcode} {f : Opcode → EmitM β}
    (hx : Chooses x) (hf : ∀ op, readsPool op = false → Asks look (f op) ρ) :
    Asks look (x >>= f) ρ := by
  intro s b u h hs
  obtain ⟨op, t, hop, hft⟩ := bind_eq_ok.mp h
  obtain ⟨hplain, rfl⟩ := hx hop
  exact hf op hplain hft hs

theorem moveUnlessSame (dst src : ℕ) : Asks look (moveUnlessSame dst src) .nothing := by
  unfold Soot.Program.moveUnlessSame
  split
  · exact pure ()
  · exact addInstruction rfl _ _ _

/-! ### The emitters of the node classes -/

theorem emitConstString (text : String) : Asks look (emitConstString text) (.string text) := by
  intro s b t h hs
  unfold Soot.Program.emitConstString at h
  obtain ⟨fn, s', hget, hrest⟩ := bind_eq_ok.mp h
  obtain ⟨rfl, rfl⟩ := get_eq_ok.mp hget
  unfold Asking.string
  cases hpool : s.strings with
  | none =>
    rw [hpool] at hrest
    exact absurd hrest throw_ne_ok
  | some pool =>
    rw [hpool] at hrest
    obtain ⟨u, s₁, hmod, hload⟩ := bind_eq_ok.mp hrest
    obtain rfl := modify_eq_ok.mp hmod
    have hasks : Asks look _ _ :=
      (loadConstant (show readsPool .LoadStaticPointer = true from rfl)
        (BitVec.ofNat 64 (pool.lookupOrAdd text).1) .STRING).last fun reg => pure (some reg)
    obtain ⟨hasked, hstrings⟩ := hasks hload hs
    exact ⟨⟨hasked.lookup, hasked.pool, hasked.code, hasked.branches⟩, hstrings⟩

theorem emitVariable (x : String) (isHeap : Bool) :
    Asks look (emitVariable x isHeap) (.variableName (fun y => (look y).isSome) x) := by
  unfold Soot.Program.emitVariable Asking.variableName
  refine get fun s hs => ?_
  rw [hs]
  cases hx : look x with
  | some info =>
    have hvar : (if (look x).isSome then Asking.nothing else Asking.name x) = .nothing := by
      rw [hx]
      rfl
    show Asks look _ (if (look x).isSome then Asking.nothing else Asking.name x)
    rw [hvar]
    exact pure _
  | none =>
    have hvar : (if (look x).isSome then Asking.nothing else Asking.name x) = .name x := by
      rw [hx]
      rfl
    show Asks look _ (if (look x).isSome then Asking.nothing else Asking.name x)
    rw [hvar]
    refine (lookupName x).last fun reg => ?_
    cases isHeap with
    | true => exact result rfl _ _
    | false => exact pure _

theorem emitBinary (hop : readsPool op = false) {l r : Emitter} {ρ ρ' : Asking}
    (hl : Asks look l ρ) (hr : Asks look r ρ') : Asks look (emitBinary op l r) (ρ.and ρ') := by
  refine hl.bind fun lt => hr.last fun rt => ?_
  refine (getTempReg lt).first fun lr => (getTempReg rt).first fun rr => ?_
  exact result hop _ _

theorem emitUnary (hop : readsPool op = false)
    (he : Asks look e ρ) : Asks look (emitUnary op e) ρ :=
  he.valueLast fun _ => result hop _ _

theorem emitIf {c t : Emitter} {e : Option Emitter} {ρ ρ' ρ'' : Asking} (hc : Asks look c ρ)
    (ht : Asks look t ρ') (hnone : e = none → ρ'' = .nothing) (he : ∀ x ∈ e, Asks look x ρ'') :
    Asks look (emitIf c t e) (ρ.and (ρ'.and ρ'')) := by
  refine hc.value fun cr => ?_
  refine (createUniqueLabel _).first fun elseLabel => ?_
  refine (createUniqueLabel _).first fun endLabel => ?_
  refine (addBranch rfl _ _).first fun _ => ?_
  refine ht.value fun thenReg => ?_
  refine (addBranch rfl _ _).first fun _ => (addLabel _).first fun _ => ?_
  have hend : Asks look (do Soot.Program.addLabel endLabel; return some thenReg : Emitter)
      .nothing := (addLabel _).first fun _ => pure _
  cases e with
  | none =>
    rw [hnone rfl]
    exact hend
  | some x => exact (he x rfl).valueLast fun _ => (moveUnlessSame _ _).first fun _ => hend

theorem whileLabels (l : Option String) : Asks look (whileLabels l) .nothing := by
  have hfresh : Asks look (do
      return (← Soot.Program.createUniqueLabel "while_start",
        ← Soot.Program.createUniqueLabel "while_end") : EmitM (String × String)) .nothing :=
    (createUniqueLabel _).first fun _ => (createUniqueLabel _).first fun _ => pure _
  unfold Soot.Program.whileLabels
  split
  · split
    · exact hfresh
    · exact pure _
  · exact hfresh

theorem emitWhile {c b : Emitter} (l : Option String) {ρ ρ' : Asking} (hc : Asks look c ρ)
    (hb : Asks look b ρ') : Asks look (emitWhile c b l) (ρ.and ρ') := by
  refine (whileLabels l).first fun labels => (addLabel _).first fun _ => ?_
  refine hc.value fun _ => (addBranch rfl _ _).first fun _ => ?_
  refine hb.last fun _ => (addBranch rfl _ _).first fun _ => ?_
  exact (addLabel _).first fun _ => pure _

theorem emitBindings {bs : List (String × Emitter)}
    (h : List.Forall₂ (fun b ρ => Asks look b.2 ρ.2) bs ρs) :
    Asks look (emitBindings bs) (.each (ρs.map Prod.snd)) := by
  induction h with
  | nil => exact pure ()
  | cons hb _ ih =>
    refine bind ?_ fun _ => ih
    exact hb.valueLast fun _ => get fun _ _ => moveUnlessSame _ _

theorem emitLet {bs : List (String × Emitter)} {b : Emitter}
    (h : List.Forall₂ (fun b ρ => Asks look b.2 ρ.2) bs ρs) (hb : Asks look b ρ) :
    Asks look (emitLet bs b) ((Asking.each (ρs.map Prod.snd)).and ρ) :=
  (emitBindings h).bind fun _ => hb.valueLast fun _ => pure _

theorem emitSetVariable (x : String) (he : Asks look e ρ) :
    Asks look (emitSetVariable x e) ρ := by
  refine he.valueLast fun _ => get fun s _ => ?_
  split
  · exact throw _ _
  · exact (moveUnlessSame _ _).first fun _ => pure _

theorem emitReturn {e : Option Emitter} (hnone : e = none → ρ = .nothing)
    (he : ∀ x ∈ e, Asks look x ρ) : Asks look (emitReturn e) ρ := by
  cases e with
  | none =>
    rw [hnone rfl]
    exact (addInstruction rfl _ _ _).first fun _ => pure _
  | some x => exact (he x rfl).valueLast fun _ => (addInstruction rfl _ _ _).first fun _ => pure _

theorem readsPool_callOpcode (native : Bool) : readsPool (callOpcode native) = false := by
  cases native <;> rfl

theorem emitCall (x : String) {args : List Emitter} {ρs : List Asking} (native : Bool)
    (h : List.Forall₂ (Asks look) args ρs) :
    Asks look (emitCall x args native) ((Asking.each ρs).and (.name x)) := by
  refine (emitEach h).bind fun temps => (lookupName x).last fun _ => ?_
  refine (getTempRegs temps).first fun regs => (moveArguments _ _).first fun _ => ?_
  exact result (readsPool_callOpcode native) _ _

theorem emitMethodCall (x : String) {o : Emitter} {args : List Emitter}
    {ρs : List Asking} (id : Option ℕ) (native : Bool) (ho : Asks look o ρ)
    (h : List.Forall₂ (Asks look) args ρs) :
    Asks look (emitMethodCall x o args id native) (.methodCall x ρ ρs id) := by
  have hregs := emitRegs (List.Forall₂.cons ho h)
  cases id with
  | some id =>
    refine hregs.bind fun regs => (moveArguments _ _).first fun _ => ?_
    exact (loadConstant rfl _ _).last fun _ => result rfl _ _
  | none =>
    refine (lookupName x).bind fun _ => hregs.last fun regs => ?_
    exact (moveArguments _ _).first fun _ => result (readsPool_callOpcode native) _ _

theorem emitDerefLvalue (offset : ℕ) (he : Asks look e ρ) :
    Asks look (emitDerefLvalue e offset) ρ :=
  he.valueLast fun _ => allocTempReg.first fun _ => (addInstruction rfl _ _ _).first fun _ => pure _

theorem emitDeref (offset : ℕ) (t : Option TypeDesc) (isInline : Bool)
    (he : Asks look e ρ) : Asks look (emitDeref e offset t isInline) ρ := by
  refine (emitDerefLvalue offset he).last fun _ => ?_
  split
  · exact throw _ _
  · split
    · exact throw _ _
    · refine allocTempReg.first fun _ => choose (chooses_loadOpcode _) fun op hop => ?_
      exact (addInstruction hop _ _ _).first fun _ => pure _
    · split
      · exact pure _
      · exact result rfl _ _

theorem emitAtLvalue {b i : Emitter} (idx : Option I64) (t : TypeDesc) {ρ ρ' : Asking}
    (hb : Asks look b ρ) (hi : Asks look i ρ') :
    Asks look (emitAtLvalue b i idx t) (.atLvalue ρ ρ' idx t) := by
  unfold Asking.atLvalue
  cases idx with
  | some v =>
    refine hb.value fun _ => (require _ _).first fun _ => ?_
    exact (require _ _).first fun _ => addOffset _ _
  | none =>
    refine hb.value fun _ => (require _ _).first fun _ => ?_
    refine hi.value fun _ => allocTempReg.first fun _ => (scaleIndex _ _ _).last fun _ => ?_
    exact allocTempReg.first fun _ => (addInstruction rfl _ _ _).first fun _ => pure _

theorem emitAt {b i : Emitter} (idx : Option I64) (t : Option TypeDesc) {ρ ρ' : Asking}
    (hb : Asks look b ρ) (hi : Asks look i ρ') :
    Asks look (emitAt b i idx t) (.element ρ ρ' idx t) := by
  cases t with
  | none => exact throw _ _
  | some t =>
    refine (emitAtLvalue idx t hb hi).last fun _ => ?_
    split
    · exact pure _
    · exact choose (chooses_loadOpcode t) fun op hop => result hop _ _

theorem emitSetField {b v : Emitter} (offset : ℕ) (t : Option TypeDesc) {ρ ρ' : Asking}
    (hb : Asks look b ρ) (hv : Asks look v ρ') :
    Asks look (emitSetField b offset t v) (ρ'.and ρ) := by
  refine hv.value fun _ => ?_
  cases t with
  | none => exact throw _ _
  | some t =>
    refine (emitDerefLvalue offset hb).last fun _ => ?_
    exact choose (chooses_setStoreOpcode t) fun op hop =>
      (addInstruction hop _ _ _).first fun _ => pure _

theorem emitSetAt {b i v : Emitter} (idx : Option I64) (t : Option TypeDesc)
    {ρ ρ' ρ'' : Asking} (hb : Asks look b ρ) (hi : Asks look i ρ') (hv : Asks look v ρ'') :
    Asks look (emitSetAt b i idx t v) (ρ''.and (.element ρ ρ' idx t)) := by
  refine hv.value fun _ => ?_
  cases t with
  | none => exact throw _ _
  | some t =>
    refine (emitAtLvalue idx t hb hi).last fun _ => ?_
    exact choose (chooses_setStoreOpcode t) fun op hop =>
      (addInstruction hop _ _ _).first fun _ => pure _

theorem emitAllocate (x : String) (a b : Word) (k : ConstKind) :
    Asks look (emitAllocate x a b k) (.allocate x a b k) := by
  refine (lookupName x).bind fun _ => ?_
  refine (loadConstant rfl _ _).bind fun _ => (addInstruction rfl _ _ _).first fun _ => ?_
  refine (loadConstant rfl _ _).last fun _ => (addInstruction rfl _ _ _).first fun _ => ?_
  exact allocTempReg.first fun _ => (addInstruction rfl _ _ _).first fun _ => pure _

theorem emitFieldInit (nt : NewType) (ptr : ℕ) (field : FieldDesc)
    (he : Asks look e ρ) : Asks look (emitFieldInit nt ptr field e) (.fieldInit nt field ρ) := by
  unfold Soot.Program.emitFieldInit Asking.fieldInit
  split
  · exact pure ()
  · cases field.type with
    | none => exact pure ()
    | some t =>
      cases href : t.isReference with
      | true =>
        simp only [href, if_true]
        exact pure ()
      | false =>
        simp only [href, Bool.false_eq_true, if_false]
        refine allocTempReg.first fun _ => (addInstruction rfl _ _ _).first fun _ => ?_
        exact he.valueLast fun _ => choose (chooses_storeOpFor t) fun op hop =>
          addInstruction hop _ _ _

theorem emitKeywordInits (nt : NewType) (ptr : ℕ) (fields : List FieldDesc)
    {inits : List (String × Emitter)}
    (h : List.Forall₂ (fun b ρ => b.1 = ρ.1 ∧ Asks look b.2 ρ.2) inits ρs) :
    Asks look (emitKeywordInits nt ptr fields inits) (.keywordInits nt fields ρs) := by
  induction h with
  | nil => exact pure ()
  | @cons b ρ inits ρs hb _ ih =>
    obtain ⟨x, e⟩ := b
    obtain ⟨y, ρ⟩ := ρ
    obtain ⟨rfl, hb⟩ := hb
    show Asks look _ ((Asking.keywordInit nt fields x ρ).and (Asking.keywordInits nt fields ρs))
    unfold Soot.Program.emitKeywordInits Asking.keywordInit
    cases fields.find? (·.name == x) with
    | none => exact bind (pure ()) fun _ => ih
    | some field => exact (emitFieldInit nt ptr field hb).bind fun _ => ih

theorem emitPositionalInits (nt : NewType) (ptr : ℕ) (fields : List FieldDesc)
    {inits : List Emitter} {ρs : List Asking} (h : List.Forall₂ (Asks look) inits ρs) :
    Asks look (emitPositionalInits nt ptr fields inits) (.positionalInits nt fields ρs) := by
  induction h generalizing fields with
  | nil => cases fields <;> exact pure ()
  | cons he _ ih =>
    cases fields with
    | nil => exact pure ()
    | cons field fields => exact (emitFieldInit nt ptr field he).bind fun _ => ih fields

theorem forall₂_snd {fs : List (String × Emitter)}
    (h : List.Forall₂ (fun b ρ => b.1 = ρ.1 ∧ Asks look b.2 ρ.2) fs ρs) :
    List.Forall₂ (Asks look) (fs.map Prod.snd) (ρs.map Prod.snd) := by
  induction h with
  | nil => exact List.Forall₂.nil
  | cons hb _ ih => exact List.Forall₂.cons hb.2 ih

theorem emitNewObject (a x : String) (t : Option NewType) {fs : List (String × Emitter)}
    {ρfs : List (String × Asking)} {ρs : List Asking}
    (hfs : List.Forall₂ (fun b ρ => b.1 = ρ.1 ∧ Asks look b.2 ρ.2) fs ρfs)
    (hes : List.Forall₂ (Asks look) es ρs) :
    Asks look (emitNewObject a x t fs es) (.newObject a x t ρfs ρs) := by
  have hempty : fs.isEmpty = ρfs.isEmpty := by cases hfs <;> rfl
  refine (require _ _).first fun _ => ?_
  cases t with
  | none => exact throw _ _
  | some t =>
    refine (emitAllocate _ _ _ _).bind fun ptr => bind ?_ fun _ => ?_
    · unfold emitTypeTag Asking.typeTag
      split
      · exact (loadConstant rfl _ _).last fun _ => addInstruction rfl _ _ _
      · exact pure ()
    · split
      · have hinits : List.Forall₂ (Asks look) (if fs.isEmpty then es else fs.map Prod.snd)
            (if ρfs.isEmpty then ρs else ρfs.map Prod.snd) := by
          rw [hempty]
          split
          · exact hes
          · exact forall₂_snd hfs
        refine (lookupName _).bind fun _ => (loadConstant rfl _ _).bind fun _ => ?_
        refine (emitRegs hinits).last fun _ => (moveArguments _ _).first fun _ => ?_
        exact result rfl _ _
      · refine last ?_ fun _ => pure _
        unfold emitFieldInitStores Asking.fieldInitStores
        cases t.fields with
        | none => exact pure ()
        | some descs =>
          simp only [hempty]
          split
          · exact emitPositionalInits _ _ _ hes
          · exact emitKeywordInits _ _ _ hfs

theorem emitElementFields (ptr start : ℕ) (fields : List FieldDesc)
    {inits : List (String × Emitter)}
    (h : List.Forall₂ (fun b ρ => b.1 = ρ.1 ∧ Asks look b.2 ρ.2) inits ρs) :
    Asks look (emitElementFields ptr start inits fields) (.elementFields start ρs fields) := by
  have hlookup : ∀ x, (inits.lookup x = none ∧ ρs.lookup x = none) ∨
      ∃ e ρ, inits.lookup x = some e ∧ ρs.lookup x = some ρ ∧ Asks look e ρ := by
    intro x
    induction h with
    | nil => exact Or.inl ⟨rfl, rfl⟩
    | @cons b ρ inits ρs hb _ ih =>
      obtain ⟨y, e⟩ := b
      obtain ⟨z, ρ⟩ := ρ
      obtain ⟨rfl, hb⟩ := hb
      rw [List.lookup_cons, List.lookup_cons]
      cases x == y with
      | true => exact Or.inr ⟨e, ρ, rfl, rfl, hb⟩
      | false => exact ih
  induction fields with
  | nil => exact pure ()
  | cons field fields ih =>
    refine bind ?_ fun _ => ih
    unfold emitElementField Asking.elementField
    rcases hlookup field.name with ⟨he, hρ⟩ | ⟨e, ρ, he, hρ, hask⟩
    · rw [he, hρ]
      exact pure ()
    · rw [he, hρ]
      cases field.type with
      | none => exact pure ()
      | some t =>
        refine (require _ _).first fun _ => hask.value fun _ => ?_
        exact (addOffset _ _).last fun _ => choose (chooses_storeOpFor t) fun op hop =>
          addInstruction hop _ _ _

/-- The initialisers of the elements of an inline array answer these requests. -/
def AskInits (look : String → Option VariableInfo) (o : Option (List (String × Emitter)))
    (o' : Option (List (String × Asking))) : Prop :=
  match o, o' with
  | none, none => True
  | some fs, some ρs => List.Forall₂ (fun b ρ => b.1 = ρ.1 ∧ Asks look b.2 ρ.2) fs ρs
  | _, _ => False

theorem emitStructElements (ptr size : ℕ) (fields : List FieldDesc)
    {inits : List (Option (List (String × Emitter)))}
    {ρs : List (Option (List (String × Asking)))} (h : List.Forall₂ (AskInits look) inits ρs)
    (i : ℕ) :
    Asks look (emitStructElements ptr size fields i inits) (.structElements size fields i ρs) := by
  induction h generalizing i with
  | nil => exact pure ()
  | @cons o o' inits ρs ho _ ih =>
    cases o with
    | none => exact throw _ _
    | some fs =>
      cases o' with
      | none => exact ho.elim
      | some ρ => exact (emitElementFields _ _ _ ho).bind fun _ => ih (i + 1)

theorem emitScalarElements (ptr size : ℕ) (hop : readsPool op = false)
    {ρs : List Asking} (h : List.Forall₂ (Asks look) es ρs) (i : ℕ) :
    Asks look (emitScalarElements ptr size op i es) (.scalarElements size i ρs) := by
  induction h generalizing i with
  | nil => exact pure ()
  | cons he _ ih =>
    refine he.value fun _ => (addOffset _ _).bind fun _ => ?_
    exact (addInstruction hop _ _ _).first fun _ => ih (i + 1)

theorem emitNewArray (a x : String) (t : Option NewType) (k : ℕ)
    {ρs : List Asking} {inits : List (Option (List (String × Emitter)))}
    {ρinits : List (Option (List (String × Asking)))} (hes : List.Forall₂ (Asks look) es ρs)
    (hinits : List.Forall₂ (AskInits look) inits ρinits) :
    Asks look (emitNewArray a x t k es inits) (.newArray t k ρs ρinits) := by
  refine (require _ _).first fun _ => ?_
  cases t with
  | none => exact throw _ _
  | some t =>
    refine (require _ _).first fun _ => (emitAllocate _ _ _ _).bind fun ptr => ?_
    refine last ?_ fun _ => pure _
    unfold emitElements
    cases href : t.desc.isReference with
    | true =>
      simp only [if_true]
      cases t.fields with
      | none => exact throw _ _
      | some fields => exact emitStructElements _ _ _ hinits 0
    | false =>
      simp only [Bool.false_eq_true, if_false]
      exact choose (chooses_storeOpFor _) fun op hop => emitScalarElements _ _ hop hes 0

end Asks

/-! ## Trees -/

theorem readsPool_opcode (isFloat : Bool) :
    (∀ op : BinaryOp, readsPool (op.opcode isFloat) = false) ∧
      (∀ op : UnaryOp, readsPool (op.opcode isFloat) = false) ∧
      ∀ op : CompareOp, readsPool (op.opcode isFloat) = false := by
  refine ⟨?_, ?_, ?_⟩ <;> intro op <;> cases op <;> cases isFloat <;> rfl

theorem readsPool_castOpcode (src dst : String) : readsPool (castOpcode src dst) = false := by
  unfold castOpcode
  split
  · rfl
  · split
    · rfl
    · split <;> rfl

theorem forall₂_each {ns : List Node}
    (h : ∀ n ∈ ns, Asks look (emit n) (requests (fun x => (look x).isSome) n)) :
    List.Forall₂ (Asks look) (emitters ns) (requestsEach (fun x => (look x).isSome) ns) := by
  induction ns with
  | nil => exact List.Forall₂.nil
  | cons n ns ih =>
    obtain ⟨hn, hns⟩ := List.forall_mem_cons.mp h
    exact List.Forall₂.cons hn (ih hns)

theorem forall₂_named {ns : List (String × Node)}
    (h : ∀ p ∈ ns, Asks look (emit p.2) (requests (fun x => (look x).isSome) p.2)) :
    List.Forall₂ (fun b ρ => b.1 = ρ.1 ∧ Asks look b.2 ρ.2) (emitters₂ ns)
      (requestsNamed (fun x => (look x).isSome) ns) := by
  induction ns with
  | nil => exact List.Forall₂.nil
  | cons p ns ih =>
    obtain ⟨hp, hns⟩ := List.forall_mem_cons.mp h
    exact List.Forall₂.cons ⟨rfl, hp⟩ (ih hns)

theorem forall₂_inits {ns : List Node}
    (h : ∀ a x t ps as, Node.newObject a x t ps as ∈ ns → ∀ p ∈ ps,
      Asks look (emit p.2) (requests (fun x => (look x).isSome) p.2)) :
    List.Forall₂ (Asks.AskInits look) (elementInits ns)
      (requestsInits (fun x => (look x).isSome) ns) := by
  induction ns with
  | nil => exact List.Forall₂.nil
  | cons n ns ih =>
    have hns := ih fun a x t ps as hmem => h a x t ps as (List.mem_cons_of_mem _ hmem)
    cases n with
    | newObject a x t ps as =>
      exact List.Forall₂.cons (forall₂_named (h a x t ps as List.mem_cons_self)) hns
    | newArray a x t k es => exact List.Forall₂.cons List.Forall₂.nil hns
    | _ => exact List.Forall₂.cons trivial hns

/-- **emission answers the requests of the tree**, for every tree. As for stable
relations, the statement carries the initialisers of an object along. -/
theorem asks_emit (n : Node) :
    Asks look (emit n) (requests (fun x => (look x).isSome) n) ∧
      ∀ a x t ps as, n = .newObject a x t ps as → ∀ p ∈ ps,
        Asks look (emit p.2) (requests (fun x => (look x).isSome) p.2) := by
  induction n using Node.induct with
  | constInt v => exact ⟨Asks.map _ (Asks.loadConstant rfl _ _), by rintro _ _ _ _ _ ⟨⟩⟩
  | constFloat b => exact ⟨Asks.map _ (Asks.loadConstant rfl _ _), by rintro _ _ _ _ _ ⟨⟩⟩
  | constString t => exact ⟨Asks.emitConstString t, by rintro _ _ _ _ _ ⟨⟩⟩
  | variableNode x t h e => exact ⟨Asks.emitVariable x h, by rintro _ _ _ _ _ ⟨⟩⟩
  | binaryNode op l r hl hr =>
    exact ⟨Asks.emitBinary ((readsPool_opcode _).1 op) hl.1 hr.1, by rintro _ _ _ _ _ ⟨⟩⟩
  | unaryNode op e he =>
    exact ⟨Asks.emitUnary ((readsPool_opcode _).2.1 op) he.1, by rintro _ _ _ _ _ ⟨⟩⟩
  | compareNode op l r hl hr =>
    exact ⟨Asks.emitBinary ((readsPool_opcode _).2.2 op) hl.1 hr.1, by rintro _ _ _ _ _ ⟨⟩⟩
  | ifNode c t e hc ht he =>
    refine ⟨?_, by rintro _ _ _ _ _ ⟨⟩⟩
    cases e with
    | none =>
      have hif : Asks look _ (Asking.and _ (Asking.and _ .nothing)) :=
        Asks.emitIf (e := none) hc.1 ht.1 (fun _ => rfl) (by simp)
      rwa [Asks.and_nothing] at hif
    | some e => exact Asks.emitIf hc.1 ht.1 (by simp) (by simpa using (he e rfl).1)
  | whileNode c b l hc hb => exact ⟨Asks.emitWhile l hc.1 hb.1, by rintro _ _ _ _ _ ⟨⟩⟩
  | letNode bs b hbs hb =>
    refine ⟨?_, by rintro _ _ _ _ _ ⟨⟩⟩
    have hnamed := forall₂_named fun p hp => (hbs p hp).1
    exact Asks.emitLet (hnamed.imp fun _ _ h => h.2) hb.1
  | setVariable x v hv => exact ⟨Asks.emitSetVariable x hv.1, by rintro _ _ _ _ _ ⟨⟩⟩
  | setField b o t v hb hv => exact ⟨Asks.emitSetField o t hb.1 hv.1, by rintro _ _ _ _ _ ⟨⟩⟩
  | setAt b i t v hb hi hv =>
    exact ⟨Asks.emitSetAt _ t hb.1 hi.1 hv.1, by rintro _ _ _ _ _ ⟨⟩⟩
  | sequenceNode es hes =>
    refine ⟨?_, by rintro _ _ _ _ _ ⟨⟩⟩
    exact (Asks.emitEach (forall₂_each fun n hn => (hes n hn).1)).last fun _ => Asks.pure _
  | returnNode v hv =>
    refine ⟨?_, by rintro _ _ _ _ _ ⟨⟩⟩
    cases v with
    | none => exact Asks.emitReturn (fun _ => rfl) (by simp)
    | some e =>
      refine Asks.emitReturn (by simp) ?_
      intro x hx
      rw [← Option.mem_some.mp hx]
      exact (hv e rfl).1
  | callNode x as k t has =>
    exact ⟨Asks.emitCall x k (forall₂_each fun n hn => (has n hn).1), by rintro _ _ _ _ _ ⟨⟩⟩
  | methodCallNode x o as m k t ho has =>
    refine ⟨?_, by rintro _ _ _ _ _ ⟨⟩⟩
    exact Asks.emitMethodCall x m k ho.1 (forall₂_each fun n hn => (has n hn).1)
  | castNode e t he =>
    exact ⟨Asks.emitUnary (readsPool_castOpcode _ _) he.1, by rintro _ _ _ _ _ ⟨⟩⟩
  | derefNode e o t i he => exact ⟨Asks.emitDeref o t i he.1, by rintro _ _ _ _ _ ⟨⟩⟩
  | atNode b i t hb hi => exact ⟨Asks.emitAt _ t hb.1 hi.1, by rintro _ _ _ _ _ ⟨⟩⟩
  | newObject a x t fs as hfs has =>
    refine ⟨?_, ?_⟩
    · exact Asks.emitNewObject a x t (forall₂_named fun p hp => (hfs p hp).1)
        (forall₂_each fun n hn => (has n hn).1)
    · rintro _ _ _ _ _ ⟨⟩ p hp
      exact (hfs p hp).1
  | newArray a x t k es hes =>
    refine ⟨?_, by rintro _ _ _ _ _ ⟨⟩⟩
    refine Asks.emitNewArray a x t k (forall₂_each fun n hn => (hes n hn).1) ?_
    exact forall₂_inits fun a' x' t' ps as hmem => (hes _ hmem).2 a' x' t' ps as rfl
  | storeGlobalNode x v hv =>
    refine ⟨?_, by rintro _ _ _ _ _ ⟨⟩⟩
    exact hv.1.value fun _ => (Asks.lookupName _).last fun _ =>
      (Asks.addInstruction rfl _ _ _).first fun _ => Asks.pure _
  | storeFieldNode x o v hv =>
    refine ⟨?_, by rintro _ _ _ _ _ ⟨⟩⟩
    refine (Asks.lookupName _).bind fun _ => (Asks.addOffset _ _).bind fun _ => ?_
    exact hv.1.valueLast fun _ => (Asks.addInstruction rfl _ _ _).first fun _ => Asks.pure _

end Asks

end Soot.Analysis
