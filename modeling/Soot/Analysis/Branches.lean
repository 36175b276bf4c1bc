import Soot.Model.Branches
import Soot.Analysis.EmitInversion

/-!
# Labels of one's own

The emission of a tree and of the tree without user labels go the same way: the second has names
of its own where the first has the user's, and a renaming takes its labels to those of the first.
In the second every label is placed once, so what a branch refers to is where its own label was
placed.
-/

set_option autoImplicit false

namespace Soot.Analysis

open Soot.Program Soot.Computation Soot.Model

variable {op : Opcode}

/-! ## Generated names -/

/-- A name that was generated below a value of the counter. -/
def GeneratedBelow (k : ℕ) (name : String) : Prop :=
  ∃ (pre : String) (j : ℕ), j < k ∧ name = pre ++ "_" ++ toString j

theorem GeneratedBelow.mono {k k' : ℕ} {name : String} (h : GeneratedBelow k name) (hle : k ≤ k') :
    GeneratedBelow k' name := by
  obtain ⟨pre, j, hj, rfl⟩ := h
  exact ⟨pre, j, Nat.lt_of_lt_of_le hj hle, rfl⟩

theorem generatedBelow_generated (pre : String) {j k : ℕ} (h : j < k) :
    GeneratedBelow k (pre ++ "_" ++ toString j) := ⟨pre, j, h, rfl⟩

theorem eq_of_append_separator {α : Type} {sep : α} {a b d e : List α} (hd : sep ∉ d) (he : sep ∉ e)
    (h : a ++ sep :: d = b ++ sep :: e) : d = e := by
  induction a generalizing b with
  | nil =>
    cases b with
    | nil => exact (List.cons.inj h).2
    | cons x b =>
      have htail : d = b ++ sep :: e := (List.cons.inj h).2
      rw [htail] at hd
      exact absurd (List.mem_append_right b List.mem_cons_self) hd
  | cons x a ih =>
    cases b with
    | nil =>
      have htail : a ++ sep :: d = e := (List.cons.inj h).2
      rw [← htail] at he
      exact absurd (List.mem_append_right a List.mem_cons_self) he
    | cons y b => exact ih (List.cons.inj h).2

theorem toList_toString (n : ℕ) : (toString n).toList = Nat.toDigits 10 n := by
  change (Nat.repr n).toList = _
  simp

theorem generated_inj {p q : String} {j k : ℕ}
    (h : p ++ "_" ++ toString j = q ++ "_" ++ toString k) : j = k := by
  have hlists := congrArg String.toList h
  simp only [String.toList_append, List.append_assoc, toList_toString] at hlists
  have hdigits : Nat.toDigits 10 j = Nat.toDigits 10 k :=
    eq_of_append_separator Nat.underscore_not_in_toDigits Nat.underscore_not_in_toDigits hlists
  have hread := congrArg (Nat.ofDigitChars 10 · 0) hdigits
  simpa [Nat.ofDigitChars_toDigits] using hread

theorem not_generatedBelow (pre : String) {j k : ℕ} (h : k ≤ j) :
    ¬ GeneratedBelow k (pre ++ "_" ++ toString j) := by
  rintro ⟨p, i, hi, heq⟩
  have hij := generated_inj heq
  omega

/-! ## Two emissions side by side -/

/-- A state with other names for its labels, those of an earlier emission before them, and another
counter. -/
def renamed (base : List (String × ℕ)) (ρ : String → String) (k : ℕ) (s : FunctionNode) :
    FunctionNode :=
  { s with
    labels := s.labels.map (Prod.map ρ id) ++ base
    unresolvedBranches := s.unresolvedBranches.map (Prod.map ρ id)
    labelCounter := k }

/-- What holds of a state whose labels are all generated. -/
structure OwnLabels (s : FunctionNode) : Prop where
  placed : ∀ e ∈ s.labels, GeneratedBelow s.labelCounter e.1
  referred : ∀ e ∈ s.unresolvedBranches, GeneratedBelow s.labelCounter e.1
  nodup : (s.labels.map Prod.fst).Nodup
  bound : ∀ e ∈ s.unresolvedBranches, e.2 < s.instructions.length
  branches : ∀ pos i, s.instructions[pos]? = some i →
    (i.opcode ∈ branchOpcodes ↔ pos ∈ s.unresolvedBranches.map Prod.snd)

/-- One state leads to another, with a renaming that is extended on the way. Names below a value of
the counter are not touched. -/
structure BranchLeads (n : ℕ) (ρ ρ' : String → String) (s t : FunctionNode) : Prop where
  agrees : ∀ name, GeneratedBelow n name → ρ' name = ρ name
  counter : s.labelCounter ≤ t.labelCounter
  labels : ∃ new, t.labels = new ++ s.labels ∧ ∀ e ∈ new, ¬ GeneratedBelow n e.1
  branches : s.unresolvedBranches ⊆ t.unresolvedBranches

/-- What is referred to on the way is placed, and the other way round. -/
structure ClosesLabels (s t : FunctionNode) : Prop where
  placed : ∀ e ∈ t.unresolvedBranches, e ∈ s.unresolvedBranches ∨ e.1 ∈ t.labels.map Prod.fst
  referred : ∀ e ∈ t.labels, e ∈ s.labels ∨ e.1 ∈ t.unresolvedBranches.map Prod.fst

/-- A state is followed by another in the emission without user labels. -/
structure FollowsOwn (ρ ρ' : String → String) (s t : FunctionNode) : Prop where
  own : OwnLabels t
  leads : BranchLeads s.labelCounter ρ ρ' s t
  closes : ClosesLabels s t

/-- Whenever the first emission succeeds, the second does, in the same way but for the names of the
labels. -/
def Mirrors {α : Type} (x y : EmitM α) : Prop :=
  ∀ base ρ k s a t, OwnLabels s → x (renamed base ρ k s) = .ok (a, t) →
    ∃ ρ' k' s', y s = .ok (a, s') ∧ t = renamed base ρ' k' s' ∧ FollowsOwn ρ ρ' s s'

section Relations

variable {ρ ρ' ρ'' : String → String} {s t u : FunctionNode}

theorem BranchLeads.mono {n m : ℕ} (h : BranchLeads n ρ ρ' s t)
    (hle : m ≤ n) : BranchLeads m ρ ρ' s t := by
  obtain ⟨new, hnew, hfresh⟩ := h.labels
  refine ⟨fun name hname => h.agrees name (hname.mono hle), h.counter, ⟨new, hnew, ?_⟩, h.branches⟩
  exact fun e he hbelow => hfresh e he (hbelow.mono hle)

theorem BranchLeads.trans {n : ℕ} (h : BranchLeads n ρ ρ' s t) (h' : BranchLeads n ρ' ρ'' t u) :
    BranchLeads n ρ ρ'' s u := by
  obtain ⟨new, hnew, hfresh⟩ := h.labels
  obtain ⟨new', hnew', hfresh'⟩ := h'.labels
  refine ⟨?_, Nat.le_trans h.counter h'.counter, ⟨new' ++ new, ?_, ?_⟩,
    List.Subset.trans h.branches h'.branches⟩
  · intro name hname
    rw [h'.agrees name hname, h.agrees name hname]
  · rw [hnew', hnew, List.append_assoc]
  · intro e he
    exact (List.mem_append.mp he).elim (hfresh' e) (hfresh e)

theorem BranchLeads.labels_subset {n : ℕ} (h : BranchLeads n ρ ρ' s t) : s.labels ⊆ t.labels := by
  obtain ⟨new, hnew, -⟩ := h.labels
  rw [hnew]
  exact List.subset_append_right new _

theorem BranchLeads.not_placed {n : ℕ} (h : BranchLeads n ρ ρ' s t) {name : String}
    (hname : GeneratedBelow n name) (hs : name ∉ s.labels.map Prod.fst) :
    name ∉ t.labels.map Prod.fst := by
  obtain ⟨new, hnew, hfresh⟩ := h.labels
  rw [hnew, List.map_append, List.mem_append]
  rintro (hmem | hmem)
  · obtain ⟨e, he, rfl⟩ := List.mem_map.mp hmem
    exact hfresh e he hname
  · exact hs hmem

theorem ClosesLabels.trans {n : ℕ} (h : ClosesLabels s t) (h' : ClosesLabels t u)
    (hleads : BranchLeads n ρ' ρ'' t u) : ClosesLabels s u := by
  constructor
  · intro e he
    obtain he | he := h'.placed e he
    · exact (h.placed e he).imp id (List.map_subset _ hleads.labels_subset ·)
    · exact .inr he
  · intro e he
    obtain he | he := h'.referred e he
    · exact (h.referred e he).imp id (List.map_subset _ hleads.branches ·)
    · exact .inr he

theorem FollowsOwn.trans (h : FollowsOwn ρ ρ' s t)
    (h' : FollowsOwn ρ' ρ'' t u) : FollowsOwn ρ ρ'' s u :=
  ⟨h'.own, h.leads.trans (h'.leads.mono h.leads.counter), h.closes.trans h'.closes h'.leads⟩

/-- Instructions are appended that are no branches, and labels are left alone. -/
structure PlainAppend (s t : FunctionNode) : Prop where
  labels : t.labels = s.labels
  branches : t.unresolvedBranches = s.unresolvedBranches
  counter : t.labelCounter = s.labelCounter
  instructions : ∃ new, t.instructions = s.instructions ++ new ∧
    ∀ i ∈ new, i.opcode ∉ branchOpcodes

theorem PlainAppend.refl (s : FunctionNode) : PlainAppend s s := ⟨rfl, rfl, rfl, [], by simp, nofun⟩

theorem PlainAppend.own (h : PlainAppend s t) (hs : OwnLabels s) : OwnLabels t := by
  obtain ⟨new, hnew, hplain⟩ := h.instructions
  refine ⟨?_, ?_, ?_, ?_, ?_⟩
  · rw [h.labels, h.counter]
    exact hs.placed
  · rw [h.branches, h.counter]
    exact hs.referred
  · rw [h.labels]
    exact hs.nodup
  · intro e he
    rw [h.branches] at he
    rw [hnew, List.length_append]
    exact Nat.lt_add_right _ (hs.bound e he)
  · intro pos i hi
    rw [h.branches]
    rw [hnew] at hi
    by_cases hpos : pos < s.instructions.length
    · rw [List.getElem?_append_left hpos] at hi
      exact hs.branches pos i hi
    · rw [List.getElem?_append_right (Nat.le_of_not_lt hpos)] at hi
      refine iff_of_false (hplain i (List.mem_of_getElem? hi)) fun hmem => hpos ?_
      obtain ⟨e, he, rfl⟩ := List.mem_map.mp hmem
      exact hs.bound e he

theorem PlainAppend.follows (h : PlainAppend s t) (hs : OwnLabels s) : FollowsOwn ρ ρ s t := by
  refine ⟨h.own hs, ⟨fun _ _ => rfl, Nat.le_of_eq h.counter.symm, ⟨[], ?_, nofun⟩, ?_⟩, ?_, ?_⟩
  · rw [h.labels, List.nil_append]
  · rw [h.branches]
    exact fun _ => id
  · intro e he
    rw [h.branches] at he
    exact .inl he
  · intro e he
    rw [h.labels] at he
    exact .inl he

end Relations

/-! ## What is built from sequencing -/

namespace Mirrors

variable {α β : Type}

theorem bind {x y : EmitM α} {f g : α → EmitM β} (hx : Mirrors x y)
    (hf : ∀ a, Mirrors (f a) (g a)) : Mirrors (x >>= f) (y >>= g) := by
  intro base ρ k s b t hs hrun
  obtain ⟨a, t₁, hxs, hfs⟩ := bind_eq_ok.mp hrun
  obtain ⟨ρ₁, k₁, s₁, hys, rfl, hfollows⟩ := hx base ρ k s a t₁ hs hxs
  obtain ⟨ρ₂, k₂, s₂, hgs, rfl, hfollows'⟩ := hf a base ρ₁ k₁ s₁ b t hfollows.own hfs
  exact ⟨ρ₂, k₂, s₂, bind_eq_ok.mpr ⟨a, s₁, hys, hgs⟩, rfl, hfollows.trans hfollows'⟩

theorem plainAppend {x : EmitM α} (h : ∀ base ρ k s a t, x (renamed base ρ k s) = .ok (a, t) →
    ∃ s', x s = .ok (a, s') ∧ t = renamed base ρ k s' ∧ PlainAppend s s') : Mirrors x x := by
  intro base ρ k s a t hs hrun
  obtain ⟨s', hx, rfl, hplain⟩ := h base ρ k s a t hrun
  exact ⟨ρ, k, s', hx, rfl, hplain.follows hs⟩

theorem pure (a : α) : Mirrors (Pure.pure a : EmitM α) (Pure.pure a) := by
  apply plainAppend
  intro base ρ k s b t hrun
  obtain ⟨rfl, rfl⟩ := pure_eq_ok.mp hrun
  exact ⟨s, rfl, rfl, .refl s⟩

theorem throw (e : EmitError) {y : EmitM α} :
    Mirrors (MonadExcept.throw e : EmitM α) y := by
  intro base ρ k s a t _ hrun
  exact absurd hrun throw_ne_ok

theorem get {f g : FunctionNode → EmitM β} (hf : ∀ base ρ k s, f (renamed base ρ k s) = f s)
    (h : ∀ s, Mirrors (f s) (g s)) :
    Mirrors (MonadState.get >>= f) (MonadState.get >>= g) := by
  intro base ρ k s b t hs hrun
  obtain ⟨_, _, hget, hrun⟩ := bind_eq_ok.mp hrun
  obtain ⟨rfl, rfl⟩ := get_eq_ok.mp hget
  rw [hf] at hrun
  obtain ⟨ρ', k', s', hgs, rfl, hfollows⟩ := h s base ρ k s b t hs hrun
  exact ⟨ρ', k', s', bind_eq_ok.mpr ⟨s, s, get_eq_ok.mpr ⟨rfl, rfl⟩, hgs⟩, rfl, hfollows⟩

theorem map {x y : EmitM α} (f : α → β) (h : Mirrors x y) : Mirrors (f <$> x) (f <$> y) :=
  bind h fun a => pure (f a)

theorem getTempReg (r : Option ℕ) :
    Mirrors (Soot.Program.getTempReg r) (Soot.Program.getTempReg r) := by
  cases r with
  | none => exact throw _
  | some reg => exact pure reg

theorem require (p : Prop) [Decidable p] (e : EmitError) :
    Mirrors (Soot.Program.require p e) (Soot.Program.require p e) := by
  unfold Soot.Program.require
  split
  · exact pure ()
  · exact throw e

theorem allocTempReg : Mirrors Soot.Program.allocTempReg Soot.Program.allocTempReg := by
  apply plainAppend
  intro base ρ k s a t hrun
  cases hrun
  exact ⟨_, rfl, rfl, rfl, rfl, rfl, [], (List.append_nil _).symm, nofun⟩

theorem addInstruction (hop : op ∉ branchOpcodes) (a b c : ℕ) :
    Mirrors (Soot.Program.addInstruction op a b c) (Soot.Program.addInstruction op a b c) := by
  apply plainAppend
  intro base ρ k s u t hrun
  obtain rfl := modify_eq_ok.mp hrun
  refine ⟨_, rfl, rfl, rfl, rfl, rfl, [⟨op, a, b, c⟩], rfl, ?_⟩
  intro i hi
  rw [List.mem_singleton.mp hi]
  exact hop

theorem loadConstant (hop : op ∉ branchOpcodes) (v : Word) (kind : ConstKind) :
    Mirrors (Soot.Program.loadConstant op v kind) (Soot.Program.loadConstant op v kind) := by
  apply plainAppend
  intro base ρ k s reg t hrun
  obtain ⟨rfl, rfl⟩ := loadConstant_eq_ok.mp hrun
  have hconstant : (renamed base ρ k s).addConstant v kind =
      ((s.addConstant v kind).1, renamed base ρ k (s.addConstant v kind).2) := by
    unfold FunctionNode.addConstant
    change (if s.constants.contains v then _ else _) = _
    split <;> rfl
  have hkeeps : (s.addConstant v kind).2.labels = s.labels ∧
      (s.addConstant v kind).2.unresolvedBranches = s.unresolvedBranches ∧
      (s.addConstant v kind).2.labelCounter = s.labelCounter ∧
      (s.addConstant v kind).2.instructions = s.instructions := by
    unfold FunctionNode.addConstant
    split <;> exact ⟨rfl, rfl, rfl, rfl⟩
  refine ⟨pushLoad s op v kind, ?_, ?_, hkeeps.1, hkeeps.2.1, hkeeps.2.2.1,
    [Instruction.setImm16 ⟨op, (s.addConstant v kind).2.allocTempReg.1, 0, 0⟩
      (s.addConstant v kind).1], ?_, ?_⟩
  · rw [loadConstant_eq_ok, hconstant]
    exact ⟨rfl, rfl⟩
  · unfold pushLoad
    rw [hconstant]
    rfl
  · change (s.addConstant v kind).2.instructions ++ _ = _
    rw [hkeeps.2.2.2]
  · intro i hi
    rw [List.mem_singleton.mp hi]
    exact hop

/-! ### The emitters of the node classes -/

/-- The same names, with emitters that mirror each other. -/
def Named (p q : String × Emitter) : Prop := p.1 = q.1 ∧ Mirrors p.2 q.2

theorem value {e e' : Emitter} {f g : ℕ → EmitM β} (he : Mirrors e e')
    (hf : ∀ reg, Mirrors (f reg) (g reg)) :
    Mirrors (e >>= fun r => Soot.Program.getTempReg r >>= f)
      (e' >>= fun r => Soot.Program.getTempReg r >>= g) :=
  bind he fun r => bind (getTempReg r) hf

theorem fresh {f g : ℕ → EmitM β} (hf : ∀ reg, Mirrors (f reg) (g reg)) :
    Mirrors (Soot.Program.allocTempReg >>= f) (Soot.Program.allocTempReg >>= g) :=
  bind allocTempReg hf

theorem push (hop : op ∉ branchOpcodes) {a b c : ℕ} {f g : Unit → EmitM β}
    (hf : ∀ u, Mirrors (f u) (g u)) : Mirrors (Soot.Program.addInstruction op a b c >>= f)
      (Soot.Program.addInstruction op a b c >>= g) :=
  bind (addInstruction hop a b c) hf

theorem result (hop : op ∉ branchOpcodes) (f g : ℕ → ℕ) :
    Mirrors (do
      let reg ← Soot.Program.allocTempReg
      Soot.Program.addInstruction op reg (f reg) (g reg)
      return some reg : Emitter) (do
      let reg ← Soot.Program.allocTempReg
      Soot.Program.addInstruction op reg (f reg) (g reg)
      return some reg : Emitter) :=
  fresh fun _ => push hop fun _ => pure _

theorem lookupName (x : String) :
    Mirrors (Soot.Program.lookupName x) (Soot.Program.lookupName x) := loadConstant (by decide) _ _

theorem emitEach {es es' : List Emitter} (h : List.Forall₂ Mirrors es es') :
    Mirrors (emitEach es) (emitEach es') := by
  induction h with
  | nil => exact pure []
  | cons he _ ih => exact bind he fun r => bind ih fun rs => pure _

theorem emitRegs {es es' : List Emitter} (h : List.Forall₂ Mirrors es es') :
    Mirrors (emitRegs es) (emitRegs es') := by
  induction h with
  | nil => exact pure []
  | cons he _ ih => exact value he fun reg => bind ih fun regs => pure _

theorem moveArguments (regs : List ℕ) (i : ℕ) :
    Mirrors (Soot.Program.moveArguments i regs) (Soot.Program.moveArguments i regs) := by
  induction regs generalizing i with
  | nil => exact pure ()
  | cons reg regs ih => exact push (by decide) fun _ => ih (i + 1)

theorem getTempRegs (rs : List (Option ℕ)) :
    Mirrors (rs.mapM Soot.Program.getTempReg) (rs.mapM Soot.Program.getTempReg) := by
  induction rs with
  | nil =>
    rw [List.mapM_nil]
    exact pure []
  | cons r rs ih =>
    rw [List.mapM_cons]
    exact bind (getTempReg r) fun _ => bind ih fun _ => pure _

theorem addOffset (base offset : ℕ) :
    Mirrors (Soot.Program.addOffset base offset) (Soot.Program.addOffset base offset) := by
  refine fresh fun addr => bind ?_ fun _ => pure _
  unfold offsetInto
  split
  · exact addInstruction (by decide) _ _ _
  · exact bind (loadConstant (by decide) _ _) fun _ => addInstruction (by decide) _ _ _

theorem scaleIndex (offset index size : ℕ) :
    Mirrors (Soot.Program.scaleIndex offset index size)
      (Soot.Program.scaleIndex offset index size) := by
  unfold Soot.Program.scaleIndex
  split
  · exact addInstruction (by decide) _ _ _
  · exact bind (loadConstant (by decide) _ _) fun _ => addInstruction (by decide) _ _ _

/-- An opcode is chosen that is no branch. -/
def ChoosesPlain (x : EmitM Opcode) : Prop :=
  (∃ op, op ∉ branchOpcodes ∧ x = Pure.pure op) ∨ ∃ e, x = MonadExcept.throw e

theorem choose {x : EmitM Opcode} (hx : ChoosesPlain x) {f g : Opcode → EmitM β}
    (hf : ∀ op, op ∉ branchOpcodes → Mirrors (f op) (g op)) : Mirrors (x >>= f) (x >>= g) := by
  obtain ⟨op, hop, rfl⟩ | ⟨e, rfl⟩ := hx
  · rw [pure_bind, pure_bind]
    exact hf op hop
  · intro base ρ k s b t _ hrun
    obtain ⟨op, _, hthrow, -⟩ := bind_eq_ok.mp hrun
    exact absurd hthrow throw_ne_ok

theorem choosesPlain_loadOpcode (t : TypeDesc) : ChoosesPlain (loadOpcode t) := by
  unfold loadOpcode
  split
  · exact .inl ⟨_, by decide, rfl⟩
  · cases t.loadSigned <;> split <;>
      first | exact .inl ⟨_, by decide, rfl⟩ | exact .inr ⟨_, rfl⟩

theorem choosesPlain_storeOpFor (t : TypeDesc) : ChoosesPlain (storeOpFor t) := by
  unfold storeOpFor
  split
  · exact .inl ⟨_, by decide, rfl⟩
  · split <;> first | exact .inl ⟨_, by decide, rfl⟩ | exact .inr ⟨_, rfl⟩

theorem choosesPlain_setStoreOpcode (t : TypeDesc) : ChoosesPlain (setStoreOpcode t) := by
  unfold setStoreOpcode
  split
  · exact .inl ⟨_, by decide, rfl⟩
  · exact choosesPlain_storeOpFor t

theorem moveUnlessSame (dst src : ℕ) :
    Mirrors (Soot.Program.moveUnlessSame dst src) (Soot.Program.moveUnlessSame dst src) := by
  unfold Soot.Program.moveUnlessSame
  split
  · exact pure ()
  · exact addInstruction (by decide) _ _ _

theorem emitConstString (text : String) :
    Mirrors (emitConstString text) (emitConstString text) := by
  refine get (fun _ _ _ _ => rfl) fun s => ?_
  cases s.strings with
  | none => exact throw _
  | some pool =>
    refine bind ?_ fun _ => bind (loadConstant (by decide) _ _) fun _ => pure _
    apply plainAppend
    intro base ρ k s u t hrun
    obtain rfl := modify_eq_ok.mp hrun
    exact ⟨_, rfl, rfl, rfl, rfl, rfl, [], (List.append_nil _).symm, nofun⟩

theorem emitVariable (x : String) (isHeap : Bool) :
    Mirrors (emitVariable x isHeap) (emitVariable x isHeap) := by
  refine get (fun _ _ _ _ => rfl) fun s => ?_
  cases s.lookupVariable x with
  | some info => exact pure _
  | none =>
    refine bind (lookupName x) fun reg => ?_
    split
    · exact result (by decide) _ _
    · exact pure _

variable {e e' l l' r r' : Emitter} {es es' : List Emitter} {fs fs' : List (String × Emitter)}

theorem emitBinary (hop : op ∉ branchOpcodes) (hl : Mirrors l l')
    (hr : Mirrors r r') : Mirrors (emitBinary op l r) (emitBinary op l' r') := by
  refine bind hl fun lt => bind hr fun rt => ?_
  exact bind (getTempReg lt) fun _ => bind (getTempReg rt) fun _ => result hop _ _

theorem emitUnary (hop : op ∉ branchOpcodes) (he : Mirrors e e') :
    Mirrors (emitUnary op e) (emitUnary op e') := value he fun _ => result hop _ _

theorem emitBindings (h : List.Forall₂ Named fs fs') :
    Mirrors (emitBindings fs) (emitBindings fs') := by
  induction h with
  | nil => exact pure ()
  | @cons p q _ _ hpq _ ih =>
    refine bind ?_ fun _ => ih
    rw [hpq.1]
    exact value hpq.2 fun _ => get (fun _ _ _ _ => rfl) fun _ => moveUnlessSame _ _

theorem emitLet (hfs : List.Forall₂ Named fs fs') (he : Mirrors e e') :
    Mirrors (emitLet fs e) (emitLet fs' e') :=
  bind (emitBindings hfs) fun _ => value he fun _ => pure _

theorem emitSetVariable (x : String) (he : Mirrors e e') :
    Mirrors (emitSetVariable x e) (emitSetVariable x e') := by
  refine value he fun _ => get (fun _ _ _ _ => rfl) fun s => ?_
  cases s.lookupVariable x with
  | none => exact throw _
  | some info => exact bind (moveUnlessSame _ _) fun _ => pure _

theorem emitCall (x : String) (native : Bool) (hes : List.Forall₂ Mirrors es es') :
    Mirrors (emitCall x es native) (emitCall x es' native) := by
  unfold Soot.Program.emitCall
  rw [hes.length_eq]
  refine bind (emitEach hes) fun temps => bind (lookupName x) fun _ => ?_
  refine bind (getTempRegs temps) fun regs => bind (moveArguments _ _) fun _ => ?_
  exact result (by cases native <;> decide) _ _

theorem emitMethodCall (x : String) (id : Option ℕ) (native : Bool) (he : Mirrors e e')
    (hes : List.Forall₂ Mirrors es es') :
    Mirrors (emitMethodCall x e es id native) (emitMethodCall x e' es' id native) := by
  have hall : List.Forall₂ Mirrors (e :: es) (e' :: es') := .cons he hes
  cases id with
  | some id =>
    refine bind (emitRegs hall) fun regs => bind (moveArguments _ _) fun _ => ?_
    exact bind (loadConstant (by decide) _ _) fun _ => result (by decide) _ _
  | none =>
    refine bind (lookupName x) fun _ => bind (emitRegs hall) fun regs => ?_
    exact bind (moveArguments _ _) fun _ => result (by cases native <;> decide) _ _

theorem emitDerefLvalue (offset : ℕ) (he : Mirrors e e') :
    Mirrors (emitDerefLvalue e offset) (emitDerefLvalue e' offset) :=
  value he fun _ => fresh fun _ => push (by decide) fun _ => pure _

theorem emitDeref (offset : ℕ) (t : Option TypeDesc) (isInline : Bool) (he : Mirrors e e') :
    Mirrors (emitDeref e offset t isInline) (emitDeref e' offset t isInline) := by
  refine bind (emitDerefLvalue offset he) fun addr => ?_
  cases t with
  | none => exact throw _
  | some t =>
    cases hclass : t.typeClass with
    | null =>
      simp only [hclass]
      exact throw _
    | value =>
      simp only [hclass]
      refine fresh fun dest => choose (choosesPlain_loadOpcode t) fun op hop => ?_
      exact push hop fun _ => pure _
    | reference =>
      simp only [hclass]
      split
      · exact pure _
      · exact result (by decide) _ _

theorem emitAtLvalue (idx : Option I64) (t : TypeDesc) (hl : Mirrors l l') (hr : Mirrors r r') :
    Mirrors (emitAtLvalue l r idx t) (emitAtLvalue l' r' idx t) := by
  refine value hl fun _ => bind (require _ _) fun _ => ?_
  cases idx with
  | some v => exact bind (require _ _) fun _ => addOffset _ _
  | none =>
    refine value hr fun _ => fresh fun _ => bind (scaleIndex _ _ _) fun _ => ?_
    exact fresh fun _ => push (by decide) fun _ => pure _

theorem emitAt (idx : Option I64) (t : Option TypeDesc) (hl : Mirrors l l') (hr : Mirrors r r') :
    Mirrors (emitAt l r idx t) (emitAt l' r' idx t) := by
  cases t with
  | none => exact throw _
  | some t =>
    refine bind (emitAtLvalue idx t hl hr) fun _ => ?_
    split
    · exact pure _
    · exact choose (choosesPlain_loadOpcode t) fun op hop => result hop _ _

theorem emitSetField (offset : ℕ) (t : Option TypeDesc) (hl : Mirrors l l') (hr : Mirrors r r') :
    Mirrors (emitSetField l offset t r) (emitSetField l' offset t r') := by
  refine value hr fun _ => ?_
  cases t with
  | none => exact throw _
  | some t =>
    refine bind (emitDerefLvalue offset hl) fun _ => ?_
    exact choose (choosesPlain_setStoreOpcode t) fun op hop => push hop fun _ => pure _

theorem emitSetAt (idx : Option I64) (t : Option TypeDesc) (hl : Mirrors l l') (hr : Mirrors r r')
    (he : Mirrors e e') : Mirrors (emitSetAt l r idx t e) (emitSetAt l' r' idx t e') := by
  refine value he fun _ => ?_
  cases t with
  | none => exact throw _
  | some t =>
    refine bind (emitAtLvalue idx t hl hr) fun _ => ?_
    exact choose (choosesPlain_setStoreOpcode t) fun op hop => push hop fun _ => pure _

theorem emitAllocate (x : String) (a b : Word) (kind : ConstKind) :
    Mirrors (emitAllocate x a b kind) (emitAllocate x a b kind) := by
  refine bind (lookupName x) fun _ => ?_
  refine bind (loadConstant (by decide) _ _) fun _ => push (by decide) fun _ => ?_
  refine bind (loadConstant (by decide) _ _) fun _ => push (by decide) fun _ => ?_
  exact fresh fun _ => push (by decide) fun _ => pure _

theorem emitFieldInit (nt : NewType) (ptr : ℕ) (field : FieldDesc) (he : Mirrors e e') :
    Mirrors (emitFieldInit nt ptr field e) (emitFieldInit nt ptr field e') := by
  unfold Soot.Program.emitFieldInit
  split
  · exact pure ()
  · split
    · exact pure ()
    · split
      · exact pure ()
      · refine fresh fun _ => push (by decide) fun _ => value he fun _ => ?_
        exact choose (choosesPlain_storeOpFor _) fun op hop => addInstruction hop _ _ _

theorem emitKeywordInits (nt : NewType) (ptr : ℕ) (fields : List FieldDesc)
    (h : List.Forall₂ Named fs fs') :
    Mirrors (emitKeywordInits nt ptr fields fs) (emitKeywordInits nt ptr fields fs') := by
  induction h with
  | nil => exact pure ()
  | @cons p q _ _ hpq _ ih =>
    unfold Soot.Program.emitKeywordInits
    rw [hpq.1]
    split
    · exact bind (pure ()) fun _ => ih
    · exact bind (emitFieldInit nt ptr _ hpq.2) fun _ => ih

theorem emitPositionalInits (nt : NewType) (ptr : ℕ) (fields : List FieldDesc)
    (h : List.Forall₂ Mirrors es es') :
    Mirrors (emitPositionalInits nt ptr fields es) (emitPositionalInits nt ptr fields es') := by
  induction h generalizing fields with
  | nil => cases fields <;> exact pure ()
  | cons he _ ih =>
    cases fields with
    | nil => exact pure ()
    | cons field fields => exact bind (emitFieldInit nt ptr field he) fun _ => ih fields

theorem named_snd (h : List.Forall₂ Named fs fs') :
    List.Forall₂ Mirrors (fs.map Prod.snd) (fs'.map Prod.snd) := by
  induction h with
  | nil => exact .nil
  | cons hpq _ ih => exact .cons hpq.2 ih

theorem emitNewObject (a x : String) (t : Option NewType) (hfs : List.Forall₂ Named fs fs')
    (hes : List.Forall₂ Mirrors es es') :
    Mirrors (emitNewObject a x t fs es) (emitNewObject a x t fs' es') := by
  have hempty : fs.isEmpty = fs'.isEmpty := by cases hfs <;> rfl
  refine bind (require _ _) fun _ => ?_
  cases t with
  | none => exact throw _
  | some t =>
    refine bind (emitAllocate _ _ _ _) fun ptr => ?_
    have htag : Mirrors (emitTypeTag t ptr x) (emitTypeTag t ptr x) := by
      unfold emitTypeTag
      split
      · exact bind (loadConstant (by decide) _ _) fun _ => addInstruction (by decide) _ _ _
      · exact pure ()
    refine bind htag fun _ => ?_
    rw [hempty]
    split
    · have hinits : List.Forall₂ Mirrors (if fs'.isEmpty then es else fs.map Prod.snd)
          (if fs'.isEmpty then es' else fs'.map Prod.snd) := by
        split
        · exact hes
        · exact named_snd hfs
      refine bind (lookupName _) fun _ => bind (loadConstant (by decide) _ _) fun _ => ?_
      refine bind (emitRegs hinits) fun regs => bind (moveArguments _ _) fun _ => ?_
      exact result (by decide) _ _
    · refine bind ?_ fun _ => pure _
      unfold emitFieldInitStores
      rw [hempty]
      split
      · exact pure ()
      · split
        · exact emitPositionalInits _ _ _ hes
        · exact emitKeywordInits _ _ _ hfs

theorem named_lookup (h : List.Forall₂ Named fs fs') (name : String) :
    fs.lookup name = none ∧ fs'.lookup name = none ∨
      ∃ e e', fs.lookup name = some e ∧ fs'.lookup name = some e' ∧ Mirrors e e' := by
  induction h with
  | nil => exact .inl ⟨rfl, rfl⟩
  | @cons p q _ _ hpq _ ih =>
    rw [List.lookup_cons, List.lookup_cons, hpq.1]
    split
    · exact .inr ⟨_, _, rfl, rfl, hpq.2⟩
    · exact ih

theorem emitElementFields (ptr start : ℕ) (fields : List FieldDesc)
    (h : List.Forall₂ Named fs fs') :
    Mirrors (emitElementFields ptr start fs fields) (emitElementFields ptr start fs' fields) := by
  induction fields with
  | nil => exact pure ()
  | cons field fields ih =>
    refine bind ?_ fun _ => ih
    unfold emitElementField
    obtain ⟨hnone, hnone'⟩ | ⟨e, e', hsome, hsome', he⟩ := named_lookup h field.name
    · rw [hnone, hnone']
      exact pure ()
    · rw [hsome, hsome']
      cases field.type with
      | none => exact pure ()
      | some t =>
        refine bind (require _ _) fun _ => value he fun _ => bind (addOffset _ _) fun _ => ?_
        exact choose (choosesPlain_storeOpFor t) fun op hop => addInstruction hop _ _ _

theorem emitStructElements (ptr size : ℕ) (fields : List FieldDesc)
    {inits inits' : List (Option (List (String × Emitter)))}
    (h : List.Forall₂ (Option.Rel (List.Forall₂ Named)) inits inits') (i : ℕ) :
    Mirrors (emitStructElements ptr size fields i inits)
      (emitStructElements ptr size fields i inits') := by
  induction h generalizing i with
  | nil => exact pure ()
  | cons ho _ ih =>
    cases ho with
    | none => exact throw _
    | some hfs => exact bind (emitElementFields _ _ _ hfs) fun _ => ih (i + 1)

theorem emitScalarElements (ptr size : ℕ) (hop : op ∉ branchOpcodes)
    (h : List.Forall₂ Mirrors es es') (i : ℕ) :
    Mirrors (emitScalarElements ptr size op i es) (emitScalarElements ptr size op i es') := by
  induction h generalizing i with
  | nil => exact pure ()
  | cons he _ ih =>
    exact value he fun _ => bind (addOffset _ _) fun _ => push hop fun _ => ih (i + 1)

theorem emitNewArray (a x : String) (t : Option NewType) (n : ℕ)
    {inits inits' : List (Option (List (String × Emitter)))} (hes : List.Forall₂ Mirrors es es')
    (hinits : List.Forall₂ (Option.Rel (List.Forall₂ Named)) inits inits') :
    Mirrors (emitNewArray a x t n es inits) (emitNewArray a x t n es' inits') := by
  refine bind (require _ _) fun _ => ?_
  cases t with
  | none => exact throw _
  | some t =>
    refine bind (require _ _) fun _ => bind (emitAllocate _ _ _ _) fun ptr => ?_
    refine bind ?_ fun _ => pure _
    unfold emitElements
    split
    · split
      · exact throw _
      · exact emitStructElements _ _ _ hinits 0
    · exact choose (choosesPlain_storeOpFor _) fun op hop => emitScalarElements _ _ hop hes 0

theorem emitStoreGlobal (x : String) (he : Mirrors e e') :
    Mirrors (emitStoreGlobal x e) (emitStoreGlobal x e') :=
  value he fun _ => bind (lookupName x) fun _ => push (by decide) fun _ => pure _

theorem emitStoreField (x : String) (offset : ℕ) (he : Mirrors e e') :
    Mirrors (emitStoreField x offset e) (emitStoreField x offset e') := by
  refine bind (lookupName x) fun _ => bind (addOffset _ _) fun _ => ?_
  exact value he fun _ => push (by decide) fun _ => pure _

theorem emitReturn_none : Mirrors (emitReturn none) (emitReturn none) :=
  push (by decide) fun _ => pure _

theorem emitReturn_some (he : Mirrors e e') :
    Mirrors (emitReturn (some e)) (emitReturn (some e')) :=
  value he fun _ => push (by decide) fun _ => pure _

theorem emitSequence (hes : List.Forall₂ Mirrors es es') :
    Mirrors (emitSequence es) (emitSequence es') := bind (emitEach hes) fun _ => pure _

end Mirrors

/-! ## Labels -/

section Labels

variable {ρ : String → String} {k : ℕ} {s : FunctionNode}

theorem renamed_pushBranch (base : List (String × ℕ)) (ρ : String → String) (k : ℕ)
    (s : FunctionNode) (op : Opcode) (c : ℕ) (name : String) :
    pushBranch (renamed base ρ k s) op c (ρ name) = renamed base ρ k (pushBranch s op c name) := by
  simp [pushBranch, renamed, FunctionNode.pushInstruction]

theorem renamed_congr {base : List (String × ℕ)} {ρ' : String → String} (hs : OwnLabels s)
    (h : ∀ name, GeneratedBelow s.labelCounter name → ρ' name = ρ name) :
    renamed base ρ' k s = renamed base ρ k s := by
  have hlabels : s.labels.map (Prod.map ρ' id) = s.labels.map (Prod.map ρ id) :=
    List.map_congr_left fun e he => Prod.ext (h _ (hs.placed e he)) rfl
  have hbranches : s.unresolvedBranches.map (Prod.map ρ' id) =
      s.unresolvedBranches.map (Prod.map ρ id) :=
    List.map_congr_left fun e he => Prod.ext (h _ (hs.referred e he)) rfl
  rw [renamed, renamed, hlabels, hbranches]

theorem OwnLabels.counter (hs : OwnLabels s) {n : ℕ} (hle : s.labelCounter ≤ n) :
    OwnLabels { s with labelCounter := n } :=
  ⟨fun e he => (hs.placed e he).mono hle, fun e he => (hs.referred e he).mono hle, hs.nodup,
    hs.bound, hs.branches⟩

theorem OwnLabels.addLabel (hs : OwnLabels s) {name : String}
    (hbelow : GeneratedBelow s.labelCounter name) (hfresh : name ∉ s.labels.map Prod.fst) :
    OwnLabels (s.addLabel name) := by
  refine ⟨?_, hs.referred, ?_, hs.bound, hs.branches⟩
  · intro e he
    obtain rfl | he := List.mem_cons.mp he
    · exact hbelow
    · exact hs.placed e he
  · exact List.nodup_cons.mpr ⟨hfresh, hs.nodup⟩

theorem OwnLabels.not_placed (hs : OwnLabels s) (pre : String) {j : ℕ} (hle : s.labelCounter ≤ j) :
    pre ++ "_" ++ toString j ∉ s.labels.map Prod.fst := by
  intro hmem
  obtain ⟨e, he, heq⟩ := List.mem_map.mp hmem
  exact not_generatedBelow pre hle (heq ▸ hs.placed e he)

theorem OwnLabels.pushBranch (hs : OwnLabels s) (hop : op ∈ branchOpcodes) (c : ℕ)
    {name : String} (hbelow : GeneratedBelow s.labelCounter name) :
    OwnLabels (pushBranch s op c name) := by
  refine ⟨hs.placed, ?_, hs.nodup, ?_, ?_⟩
  · intro e he
    obtain he | he := List.mem_append.mp he
    · exact hs.referred e he
    · rw [List.mem_singleton.mp he]
      exact hbelow
  · intro e he
    change e.2 < (s.instructions ++ [_]).length
    rw [List.length_append]
    obtain he | he := List.mem_append.mp he
    · exact Nat.lt_add_right _ (hs.bound e he)
    · rw [List.mem_singleton.mp he]
      exact Nat.lt_add_one _
  · intro pos i hi
    change (s.instructions ++ [_])[pos]? = _ at hi
    change _ ↔ pos ∈ (s.unresolvedBranches ++ [_]).map Prod.snd
    rw [List.map_append, List.mem_append]
    by_cases hpos : pos < s.instructions.length
    · rw [List.getElem?_append_left hpos] at hi
      rw [hs.branches pos i hi]
      refine ⟨.inl, fun h => h.resolve_right fun hlast => ?_⟩
      exact absurd (List.mem_singleton.mp hlast) (Nat.ne_of_lt hpos)
    · have hlast : pos = s.instructions.length := by
        have hlt := (List.getElem?_eq_some_iff.mp hi).1
        rw [List.length_append] at hlt
        exact Nat.le_antisymm (Nat.le_of_lt_succ hlt) (Nat.le_of_not_lt hpos)
      subst hlast
      rw [List.getElem?_concat_length, Option.some.injEq] at hi
      subst hi
      exact iff_of_true hop (.inr (List.mem_singleton_self _))

theorem leadsTo_addLabel {n : ℕ} {name : String} (hname : ¬ GeneratedBelow n name) :
    BranchLeads n ρ ρ s (s.addLabel name) := by
  refine ⟨fun _ _ => rfl, Nat.le_refl _, ⟨[(name, s.instructions.length)], rfl, ?_⟩, fun _ => id⟩
  intro e he
  rw [List.mem_singleton.mp he]
  exact hname

theorem leadsTo_pushBranch (n : ℕ) (op : Opcode) (c : ℕ) (name : String) :
    BranchLeads n ρ ρ s (pushBranch s op c name) :=
  ⟨fun _ _ => rfl, Nat.le_refl _, ⟨[], rfl, nofun⟩, List.subset_append_left _ _⟩

/-- Two names are generated, and called as in the other emission. -/
def naming (ρ : String → String) (p q : String) (j : ℕ) (name name' : String) : String → String :=
  Function.update (Function.update ρ (p ++ "_" ++ toString j) name)
    (q ++ "_" ++ toString (j + 1)) name'

section Naming

variable {p q name name' : String} {j : ℕ}

theorem naming_below {own : String} (h : GeneratedBelow j own) :
    naming ρ p q j name name' own = ρ own := by
  have hne : own ≠ q ++ "_" ++ toString (j + 1) := by
    rintro rfl
    exact not_generatedBelow q (Nat.le_succ j) h
  have hne' : own ≠ p ++ "_" ++ toString j := by
    rintro rfl
    exact not_generatedBelow p (Nat.le_refl j) h
  rw [naming, Function.update_of_ne hne, Function.update_of_ne hne']

theorem generated_ne : p ++ "_" ++ toString j ≠ q ++ "_" ++ toString (j + 1) :=
  fun h => absurd (generated_inj h) (Nat.ne_of_lt (Nat.lt_add_one j))

theorem naming_first : naming ρ p q j name name' (p ++ "_" ++ toString j) = name := by
  rw [naming, Function.update_of_ne generated_ne, Function.update_self]

theorem naming_second : naming ρ p q j name name' (q ++ "_" ++ toString (j + 1)) = name' := by
  rw [naming, Function.update_self]

theorem renamed_naming {base : List (String × ℕ)} (hs : OwnLabels s) (n : ℕ) :
    { renamed base ρ k s with labelCounter := n } =
      renamed base (naming ρ p q s.labelCounter name name') n
        { s with labelCounter := s.labelCounter + 2 } := by
  have hcongr : renamed base (naming ρ p q s.labelCounter name name') n s = renamed base ρ n s :=
    renamed_congr hs fun _ hown => naming_below hown
  exact hcongr.symm

theorem leadsTo_naming : BranchLeads s.labelCounter ρ (naming ρ p q s.labelCounter name name') s
    { s with labelCounter := s.labelCounter + 2 } :=
  ⟨fun _ hown => naming_below hown, Nat.le_add_right _ 2, ⟨[], rfl, nofun⟩, fun _ => id⟩

end Naming

end Labels

/-! ## Conditionals and loops -/

namespace Mirrors

variable {c c' th th' : Emitter}

theorem emitIf_run {c th : Emitter} {e : Option Emitter} {s s₁ s₂ s₃ : FunctionNode} {cr tr : ℕ}
    (hc : c s = .ok (some cr, s₁)) (hth : th (afterCondition s₁ cr) = .ok (some tr, s₂))
    (he : EmitsElse e tr ((pushBranch s₂ .Branch 0 (endifLabel s₁)).addLabel
      (s₁.createUniqueLabel "else").1) s₃) :
    emitIf c th e s = .ok (some tr, s₃.addLabel (endifLabel s₁)) := by
  unfold emitIf
  simp only [bind_eq_ok, getTempReg_eq_ok, createUniqueLabel_eq_ok, addBranch_eq_ok,
    addLabel_eq_ok]
  refine ⟨_, s₁, hc, cr, _, ⟨rfl, rfl⟩, _, _, ⟨rfl, rfl⟩, _, _, ⟨rfl, rfl⟩, (), _, rfl, _, s₂, hth,
    tr, _, ⟨rfl, rfl⟩, (), _, rfl, (), _, rfl, ?_⟩
  cases e with
  | none =>
    simp only [bind_eq_ok, addLabel_eq_ok, pure_eq_ok]
    cases he
    exact ⟨(), _, rfl, trivial, rfl⟩
  | some e =>
    obtain ⟨er, s₄, he, hmove⟩ := he
    simp only [bind_eq_ok, getTempReg_eq_ok, addLabel_eq_ok, pure_eq_ok]
    exact ⟨_, s₄, he, er, _, ⟨rfl, rfl⟩, (), s₃, hmove, (), _, rfl, trivial, rfl⟩

theorem emitsElse {e e' : Option Emitter} (he : Option.Rel Mirrors e e') {tr : ℕ}
    {base : List (String × ℕ)} {ρ : String → String} {k : ℕ} {s t : FunctionNode}
    (hs : OwnLabels s) (h : EmitsElse e tr (renamed base ρ k s) t) :
    ∃ ρ' k' s', EmitsElse e' tr s s' ∧ t = renamed base ρ' k' s' ∧ FollowsOwn ρ ρ' s s' := by
  cases he with
  | none =>
    cases h
    exact ⟨ρ, k, s, rfl, rfl, (PlainAppend.refl s).follows hs⟩
  | some he =>
    obtain ⟨er, t₁, he₁, hmove⟩ := h
    obtain ⟨ρ₁, k₁, s₁, he₁', rfl, hfollows⟩ := he base ρ k s _ _ hs he₁
    obtain ⟨ρ₂, k₂, s₂, hmove', rfl, hfollows'⟩ :=
      moveUnlessSame tr er base ρ₁ k₁ s₁ _ _ hfollows.own hmove
    exact ⟨ρ₂, k₂, s₂, ⟨er, s₁, he₁', hmove'⟩, rfl, hfollows.trans hfollows'⟩

theorem emitIf {e e' : Option Emitter} (hc : Mirrors c c') (hth : Mirrors th th')
    (he : Option.Rel Mirrors e e') : Mirrors (emitIf c th e) (emitIf c' th' e') := by
  intro base ρ k s a t hs hrun
  obtain ⟨cr, t₁, tr, t₂, t₃, hc₁, hth₁, helse, rfl, rfl⟩ := emitIf_ok hrun
  obtain ⟨ρ₁, k₁, s₁, hc₂, rfl, hfollows₁⟩ := hc base ρ k s _ _ hs hc₁
  have hs₁ := hfollows₁.own
  -- the labels are generated, and the branch to the first is appended
  generalize hname : ((renamed base ρ₁ k₁ s₁).createUniqueLabel "else").1 = name at helse
  generalize hname' : endifLabel (renamed base ρ₁ k₁ s₁) = name' at helse
  let own := "else" ++ "_" ++ toString s₁.labelCounter
  let own' := "endif" ++ "_" ++ toString (s₁.labelCounter + 1)
  let ρA := naming ρ₁ "else" "endif" s₁.labelCounter name name'
  let s₁' : FunctionNode := { s₁ with labelCounter := s₁.labelCounter + 2 }
  have hown : ρA own = name := naming_first
  have hown' : ρA own' = name' := naming_second
  have hbelow : GeneratedBelow (s₁.labelCounter + 2) own := generatedBelow_generated _ (by omega)
  have hbelow' : GeneratedBelow (s₁.labelCounter + 2) own' := generatedBelow_generated _ (by omega)
  have hnew : own ∉ s₁.labels.map Prod.fst := hs₁.not_placed _ (Nat.le_refl _)
  have hnew' : own' ∉ s₁.labels.map Prod.fst := hs₁.not_placed _ (Nat.le_succ _)
  have hA : afterCondition (renamed base ρ₁ k₁ s₁) cr = renamed base ρA (k₁ + 2)
    (afterCondition s₁ cr) := by
    rw [afterCondition, hname]
    change pushBranch { renamed base ρ₁ k₁ s₁ with labelCounter := k₁ + 2 } .BranchIfNot cr name = _
    rw [renamed_naming hs₁ (k₁ + 2), ← hown]
    exact renamed_pushBranch base ρA (k₁ + 2) s₁' .BranchIfNot cr own
  have hsA : OwnLabels (afterCondition s₁ cr) :=
    (hs₁.counter (Nat.le_add_right _ 2)).pushBranch (by decide) cr hbelow
  have hleadsA : BranchLeads s₁.labelCounter ρ₁ ρA s₁ (afterCondition s₁ cr) :=
    leadsTo_naming.trans (leadsTo_pushBranch _ _ _ _)
  -- the first branch
  rw [hA] at hth₁
  obtain ⟨ρ₂, k₂, s₂, hth₂, rfl, hfollows₂⟩ := hth base ρA (k₁ + 2) _ _ _ hsA hth₁
  have hs₂ := hfollows₂.own
  have hcounter₂ : s₁.labelCounter + 2 ≤ s₂.labelCounter := hfollows₂.leads.counter
  have hown₂ : ρ₂ own = name := (hfollows₂.leads.agrees own hbelow).trans hown
  have hown₂' : ρ₂ own' = name' := (hfollows₂.leads.agrees own' hbelow').trans hown'
  -- its end
  let sB := (pushBranch s₂ .Branch 0 own').addLabel own
  have hB : (pushBranch (renamed base ρ₂ k₂ s₂) .Branch 0 name').addLabel name =
    renamed base ρ₂ k₂ sB := by
    rw [← hown₂', renamed_pushBranch, ← hown₂]
    rfl
  have hsB : OwnLabels sB := by
    apply OwnLabels.addLabel
    · exact hs₂.pushBranch (by decide) 0 (hbelow'.mono hcounter₂)
    · exact hbelow.mono hcounter₂
    · exact hfollows₂.leads.not_placed hbelow hnew
  rw [hB] at helse
  obtain ⟨ρ₃, k₃, s₃, helse', rfl, hfollows₃⟩ := emitsElse he hsB helse
  have hs₃ := hfollows₃.own
  have hown₃' : ρ₃ own' = name' :=
    (hfollows₃.leads.agrees own' (hbelow'.mono hcounter₂)).trans hown₂'
  have hnew₃' : own' ∉ s₃.labels.map Prod.fst := by
    apply hfollows₃.leads.not_placed (hbelow'.mono hcounter₂)
    intro hmem
    obtain heq | hmem := List.mem_cons.mp hmem
    · exact generated_ne heq.symm
    · exact hfollows₂.leads.not_placed hbelow' hnew' hmem
  refine ⟨ρ₃, k₃, s₃.addLabel own', emitIf_run hc₂ hth₂ helse', ?_, ?_⟩
  · rw [← hown₃']
    rfl
  have hn₁ : s.labelCounter ≤ s₁.labelCounter := hfollows₁.leads.counter
  have hn₂ : s.labelCounter ≤ (afterCondition s₁ cr).labelCounter :=
    Nat.le_trans hn₁ (Nat.le_add_right _ 2)
  have hn₃ : s.labelCounter ≤ sB.labelCounter := Nat.le_trans hn₂ hcounter₂
  have hleadsB : BranchLeads s.labelCounter ρ₂ ρ₂ s₂ sB :=
    (leadsTo_pushBranch _ _ _ _).trans (leadsTo_addLabel (not_generatedBelow _ hn₁))
  have hleadsEnd : BranchLeads s.labelCounter ρ₃ ρ₃ s₃ (s₃.addLabel own') :=
    leadsTo_addLabel (not_generatedBelow _ (Nat.le_succ_of_le hn₁))
  have hleads₃ := (hfollows₃.leads.mono hn₃).trans hleadsEnd
  have hleads₂ := (hfollows₂.leads.mono hn₂).trans (hleadsB.trans hleads₃)
  have hleads₁ := (hleadsA.mono hn₁).trans hleads₂
  refine ⟨hs₃.addLabel (hbelow'.mono (Nat.le_trans hcounter₂ hfollows₃.leads.counter)) hnew₃',
    hfollows₁.leads.trans hleads₁, ?_, ?_⟩
  · intro e he
    -- a reference of the second branch, to the end, of the first branch, to the second, or before
    obtain he | he := hfollows₃.closes.placed e he
    · obtain he | he := List.mem_append.mp he
      · obtain he | he := hfollows₂.closes.placed e he
        · obtain he | he := List.mem_append.mp he
          · obtain he | he := hfollows₁.closes.placed e he
            · exact .inl he
            · exact .inr (List.map_subset _ hleads₁.labels_subset he)
          · rw [List.mem_singleton.mp he]
            exact .inr (List.map_subset _ hleads₃.labels_subset List.mem_cons_self)
        · exact .inr (List.map_subset _ (hleadsB.trans hleads₃).labels_subset he)
      · rw [List.mem_singleton.mp he]
        exact .inr List.mem_cons_self
    · exact .inr (List.mem_cons_of_mem _ he)
  · intro e he
    obtain rfl | he := List.mem_cons.mp he
    · refine .inr (List.map_subset _ hfollows₃.leads.branches ?_)
      exact List.mem_map.mpr ⟨_, List.mem_append_right _ (List.mem_singleton_self _), rfl⟩
    obtain he | he := hfollows₃.closes.referred e he
    · obtain rfl | he := List.mem_cons.mp he
      · refine .inr (List.map_subset _ (List.Subset.trans hfollows₂.leads.branches
          (hleadsB.trans hleads₃).branches) ?_)
        exact List.mem_map.mpr ⟨_, List.mem_append_right _ (List.mem_singleton_self _), rfl⟩
      · obtain he | he := hfollows₂.closes.referred e he
        · obtain he | he := hfollows₁.closes.referred e he
          · exact .inl he
          · exact .inr (List.map_subset _ hleads₁.branches he)
        · exact .inr (List.map_subset _ (hleadsB.trans hleads₃).branches he)
    · exact .inr he

theorem emitWhile_run {c b : Emitter} {s s₁ s₂ : FunctionNode} {cr : ℕ} {br : Option ℕ}
    (hc : c (FunctionNode.addLabel { s with labelCounter := s.labelCounter + 2 }
      ("while_start" ++ "_" ++ toString s.labelCounter)) = .ok (some cr, s₁))
    (hb : b (pushBranch s₁ .BranchIfNot cr
      ("while_end" ++ "_" ++ toString (s.labelCounter + 1))) = .ok (br, s₂)) :
    emitWhile c b none s = .ok (some cr,
      (pushBranch s₂ .Branch 0 ("while_start" ++ "_" ++ toString s.labelCounter)).addLabel
        ("while_end" ++ "_" ++ toString (s.labelCounter + 1))) := by
  unfold emitWhile whileLabels
  simp only [bind_eq_ok, getTempReg_eq_ok, createUniqueLabel_eq_ok, addBranch_eq_ok,
    addLabel_eq_ok, pure_eq_ok]
  exact ⟨_, _, ⟨_, _, ⟨rfl, rfl⟩, _, _, ⟨rfl, rfl⟩, rfl, rfl⟩, (), _, rfl, _, s₁, hc, cr, _,
    ⟨rfl, rfl⟩, (), _, rfl, br, s₂, hb, (), _, rfl, (), _, rfl, rfl, rfl⟩

theorem emitWhile {b b' : Emitter} (label : Option String) (hc : Mirrors c c') (hb : Mirrors b b') :
    Mirrors (emitWhile c b label) (emitWhile c' b' none) := by
  intro base ρ k s a t hs hrun
  obtain ⟨t₀, cr, t₁, br, t₂, rfl, hc₁, hb₁, rfl, rfl⟩ := emitWhile_ok hrun
  -- the labels are generated, and the first is placed
  generalize hnames : Layout.whileLabels label (renamed base ρ k s).labelCounter = names at hc₁ hb₁
  obtain ⟨⟨name, name'⟩, n⟩ := names
  let own := "while_start" ++ "_" ++ toString s.labelCounter
  let own' := "while_end" ++ "_" ++ toString (s.labelCounter + 1)
  let ρA := naming ρ "while_start" "while_end" s.labelCounter name name'
  let sA : FunctionNode := FunctionNode.addLabel { s with labelCounter := s.labelCounter + 2 } own
  have hown : ρA own = name := naming_first
  have hown' : ρA own' = name' := naming_second
  have hbelow : GeneratedBelow sA.labelCounter own := generatedBelow_generated _
    (Nat.lt_add_of_pos_right Nat.two_pos)
  have hbelow' : GeneratedBelow sA.labelCounter own' := generatedBelow_generated _
    (Nat.lt_succ_self _)
  have hnew : own ∉ s.labels.map Prod.fst := hs.not_placed _ (Nat.le_refl _)
  have hnew' : own' ∉ sA.labels.map Prod.fst := by
    intro hmem
    obtain heq | hmem := List.mem_cons.mp hmem
    · exact generated_ne heq.symm
    · exact hs.not_placed _ (Nat.le_succ _) hmem
  have hA : FunctionNode.addLabel { renamed base ρ k s with labelCounter := n } name =
      renamed base ρA n sA := by
    rw [renamed_naming hs n, ← hown]
    rfl
  have hsA : OwnLabels sA := (hs.counter (Nat.le_add_right _ 2)).addLabel hbelow hnew
  have hleadsA : BranchLeads s.labelCounter ρ ρA s sA :=
    leadsTo_naming.trans (leadsTo_addLabel (not_generatedBelow _ (Nat.le_refl _)))
  -- the condition, and the branch to the end
  change c (FunctionNode.addLabel { renamed base ρ k s with labelCounter := n } name) = _ at hc₁
  rw [hA] at hc₁
  obtain ⟨ρ₁, k₁, s₁, hc₂, rfl, hfollows₁⟩ := hc base ρA n sA _ _ hsA hc₁
  have hs₁ := hfollows₁.own
  have hown₁ : ρ₁ own = name := (hfollows₁.leads.agrees own hbelow).trans hown
  have hown₁' : ρ₁ own' = name' := (hfollows₁.leads.agrees own' hbelow').trans hown'
  let sB := pushBranch s₁ .BranchIfNot cr own'
  have hbelow₁ : GeneratedBelow sB.labelCounter own := hbelow.mono hfollows₁.leads.counter
  have hbelow₁' : GeneratedBelow sB.labelCounter own' := hbelow'.mono hfollows₁.leads.counter
  have hsB : OwnLabels sB := hs₁.pushBranch (by decide) cr hbelow₁'
  change b (pushBranch (renamed base ρ₁ k₁ s₁) .BranchIfNot cr name') = _ at hb₁
  rw [← hown₁', renamed_pushBranch] at hb₁
  -- the body
  obtain ⟨ρ₂, k₂, s₂, hb₂, rfl, hfollows₂⟩ := hb base ρ₁ k₁ sB _ _ hsB hb₁
  have hs₂ := hfollows₂.own
  have hown₂ : ρ₂ own = name := (hfollows₂.leads.agrees own hbelow₁).trans hown₁
  have hown₂' : ρ₂ own' = name' := (hfollows₂.leads.agrees own' hbelow₁').trans hown₁'
  have hbelow₂ := hbelow₁.mono hfollows₂.leads.counter
  have hbelow₂' := hbelow₁'.mono hfollows₂.leads.counter
  have hnew₂' : own' ∉ s₂.labels.map Prod.fst :=
    hfollows₂.leads.not_placed hbelow₁' (hfollows₁.leads.not_placed hbelow' hnew')
  let sC := pushBranch s₂ .Branch 0 own
  refine ⟨ρ₂, k₂, sC.addLabel own', emitWhile_run hc₂ hb₂, ?_, ?_⟩
  · change (pushBranch (renamed base ρ₂ k₂ s₂) .Branch 0 name).addLabel name' = _
    rw [← hown₂, renamed_pushBranch, ← hown₂']
    rfl
  have hn₁ : s.labelCounter ≤ sA.labelCounter := hleadsA.counter
  have hn₂ : s.labelCounter ≤ sB.labelCounter := Nat.le_trans hn₁ hfollows₁.leads.counter
  have hleadsEnd : BranchLeads s.labelCounter ρ₂ ρ₂ s₂ (sC.addLabel own') :=
    (leadsTo_pushBranch _ _ _ _).trans
      (leadsTo_addLabel (not_generatedBelow _ (Nat.le_succ s.labelCounter)))
  have hleads₂ := (hfollows₂.leads.mono hn₂).trans hleadsEnd
  have hleadsB := (leadsTo_pushBranch _ .BranchIfNot cr own').trans hleads₂
  have hleads₁ := (hfollows₁.leads.mono hn₁).trans hleadsB
  refine ⟨(hs₂.pushBranch (by decide) 0 hbelow₂).addLabel hbelow₂' hnew₂', hleadsA.trans hleads₁,
    ?_, ?_⟩
  · intro e he
    -- the branch back, or a reference of the body, to the end, of the condition, or before
    obtain he | he := List.mem_append.mp he
    · obtain he | he := hfollows₂.closes.placed e he
      · obtain he | he := List.mem_append.mp he
        · obtain he | he := hfollows₁.closes.placed e he
          · exact .inl he
          · exact .inr (List.map_subset _ hleadsB.labels_subset he)
        · rw [List.mem_singleton.mp he]
          exact .inr List.mem_cons_self
      · exact .inr (List.mem_cons_of_mem _ he)
    · rw [List.mem_singleton.mp he]
      exact .inr (List.map_subset _ hleads₁.labels_subset List.mem_cons_self)
  · intro e he
    have hback : own ∈ (sC.addLabel own').unresolvedBranches.map Prod.fst :=
      List.mem_map.mpr ⟨_, List.mem_append_right _ (List.mem_singleton_self _), rfl⟩
    have hexit : own' ∈ sB.unresolvedBranches.map Prod.fst :=
      List.mem_map.mpr ⟨_, List.mem_append_right _ (List.mem_singleton_self _), rfl⟩
    obtain rfl | he := List.mem_cons.mp he
    · exact .inr (List.map_subset _ hleads₂.branches hexit)
    obtain he | he := hfollows₂.closes.referred e he
    · obtain he | he := hfollows₁.closes.referred e he
      · obtain rfl | he := List.mem_cons.mp he
        · exact .inr hback
        · exact .inl he
      · exact .inr (List.map_subset _ hleadsB.branches he)
    · exact .inr (List.map_subset _ hleadsEnd.branches he)

end Mirrors

/-! ## Trees -/

section Trees

theorem types_unlabelled (n : Node) :
    n.unlabelled.getType = n.getType ∧ n.unlabelled.typeName = n.typeName := by
  induction n using Node.induct with
  | binaryNode op l r hl _ =>
    change l.unlabelled.getType = l.getType ∧
      (if l.unlabelled.typeName = some "float" then some "float" else some "int") = _
    rw [hl.1, hl.2]
    exact ⟨rfl, rfl⟩
  | unaryNode op e he =>
    have hnumber : some (e.unlabelled.getType.getD "int") = some (e.getType.getD "int") := by
      rw [he.1]
    cases op with
    | NOT => exact ⟨rfl, rfl⟩
    | BITNOT => exact ⟨rfl, rfl⟩
    | ABS => exact ⟨hnumber, he.2⟩
    | NEG => exact ⟨hnumber, he.2⟩
  | ifNode c t e _ _ _ => cases e <;> exact ⟨rfl, rfl⟩
  | letNode bs b _ hb => exact hb
  | setVariable x v hv => exact ⟨rfl, hv.2⟩
  | returnNode v hv =>
    cases v with
    | none => exact ⟨rfl, rfl⟩
    | some v => exact ⟨(hv v rfl).1, (hv v rfl).1⟩
  | storeGlobalNode x v hv => exact ⟨rfl, hv.2⟩
  | storeFieldNode x o v hv => exact ⟨rfl, hv.2⟩
  | _ => exact ⟨rfl, rfl⟩

theorem isFloat_unlabelled (n : Node) : n.unlabelled.isFloat = n.isFloat := by
  rw [Node.isFloat, Node.isFloat, (types_unlabelled n).2]

theorem constIndex_unlabelled (n : Node) : n.unlabelled.constIndex = n.constIndex := by
  cases n with
  | ifNode c t e => cases e <;> rfl
  | returnNode v => cases v <;> rfl
  | _ => rfl

/-- A tree and the same without user labels are emitted the same way. -/
def MirrorsOwn (n : Node) : Prop := Mirrors (emit n) (emit n.unlabelled)

theorem emitters_mirror {ns : List Node} (h : ∀ n ∈ ns, MirrorsOwn n) :
    List.Forall₂ Mirrors (emitters ns) (emitters (unlabelledNodes ns)) := by
  induction ns with
  | nil => exact .nil
  | cons n ns ih =>
    obtain ⟨hn, hns⟩ := List.forall_mem_cons.mp h
    exact .cons hn (ih hns)

theorem emitters₂_mirror {ps : List (String × Node)} (h : ∀ p ∈ ps, MirrorsOwn p.2) :
    List.Forall₂ Mirrors.Named (emitters₂ ps) (emitters₂ (unlabelledBindings ps)) := by
  induction ps with
  | nil => exact .nil
  | cons p ps ih =>
    obtain ⟨hp, hps⟩ := List.forall_mem_cons.mp h
    exact .cons ⟨rfl, hp⟩ (ih hps)

/-- The initialisers of a `new` form, too. -/
def InitsMirror (n : Node) : Prop :=
  ∀ a x t ps as, n = .newObject a x t ps as → ∀ p ∈ ps, MirrorsOwn p.2

theorem elementInits_mirror {ns : List Node} (h : ∀ n ∈ ns, InitsMirror n) :
    List.Forall₂ (Option.Rel (List.Forall₂ Mirrors.Named)) (elementInits ns)
      (elementInits (unlabelledNodes ns)) := by
  induction ns with
  | nil => exact .nil
  | cons n ns ih =>
    obtain ⟨hn, hns⟩ := List.forall_mem_cons.mp h
    cases n with
    | newObject a x t ps as => exact .cons (.some (emitters₂_mirror (hn a x t ps as rfl))) (ih hns)
    | newArray a x t k es => exact .cons (.some .nil) (ih hns)
    | ifNode c t e => cases e <;> exact .cons .none (ih hns)
    | returnNode v => cases v <;> exact .cons .none (ih hns)
    | _ => exact .cons .none (ih hns)

/-- **a tree is emitted like the tree without user labels**, but for the names of the
labels. The statement carries the initialisers of an object along. -/
theorem mirrorsOwn_and_inits (n : Node) : MirrorsOwn n ∧ InitsMirror n := by
  induction n using Node.induct with
  | constInt v => exact ⟨.map _ (.loadConstant (by decide) _ _), by rintro _ _ _ _ _ ⟨⟩⟩
  | constFloat b => exact ⟨.map _ (.loadConstant (by decide) _ _), by rintro _ _ _ _ _ ⟨⟩⟩
  | constString t => exact ⟨.emitConstString t, by rintro _ _ _ _ _ ⟨⟩⟩
  | variableNode x t h e => exact ⟨.emitVariable x h, by rintro _ _ _ _ _ ⟨⟩⟩
  | binaryNode op l r hl hr =>
    refine ⟨?_, by rintro _ _ _ _ _ ⟨⟩⟩
    change Mirrors _ (emitBinary (op.opcode l.unlabelled.isFloat) _ _)
    rw [isFloat_unlabelled]
    exact .emitBinary (by cases op <;> cases l.isFloat <;> decide) hl.1 hr.1
  | unaryNode op e he =>
    refine ⟨?_, by rintro _ _ _ _ _ ⟨⟩⟩
    change Mirrors _ (emitUnary (op.opcode e.unlabelled.isFloat) _)
    rw [isFloat_unlabelled]
    exact .emitUnary (by cases op <;> cases e.isFloat <;> decide) he.1
  | compareNode op l r hl hr =>
    refine ⟨?_, by rintro _ _ _ _ _ ⟨⟩⟩
    change Mirrors _ (emitBinary (op.opcode l.unlabelled.isFloat) _ _)
    rw [isFloat_unlabelled]
    exact .emitBinary (by cases op <;> cases l.isFloat <;> decide) hl.1 hr.1
  | ifNode c t e hc ht he =>
    refine ⟨?_, by rintro _ _ _ _ _ ⟨⟩⟩
    cases e with
    | none => exact .emitIf hc.1 ht.1 .none
    | some e => exact .emitIf hc.1 ht.1 (.some (he e rfl).1)
  | whileNode c b l hc hb => exact ⟨.emitWhile l hc.1 hb.1, by rintro _ _ _ _ _ ⟨⟩⟩
  | letNode bs b hbs hb =>
    refine ⟨?_, by rintro _ _ _ _ _ ⟨⟩⟩
    exact .emitLet (emitters₂_mirror fun p hp => (hbs p hp).1) hb.1
  | setVariable x v hv => exact ⟨.emitSetVariable x hv.1, by rintro _ _ _ _ _ ⟨⟩⟩
  | setField b o t v hb hv => exact ⟨.emitSetField o t hb.1 hv.1, by rintro _ _ _ _ _ ⟨⟩⟩
  | setAt b i t v hb hi hv =>
    refine ⟨?_, by rintro _ _ _ _ _ ⟨⟩⟩
    change Mirrors _ (emitSetAt _ _ i.unlabelled.constIndex t _)
    rw [constIndex_unlabelled]
    exact .emitSetAt _ t hb.1 hi.1 hv.1
  | sequenceNode es hes =>
    refine ⟨?_, by rintro _ _ _ _ _ ⟨⟩⟩
    exact .emitSequence (emitters_mirror fun n hn => (hes n hn).1)
  | returnNode v hv =>
    refine ⟨?_, by rintro _ _ _ _ _ ⟨⟩⟩
    cases v with
    | none => exact .emitReturn_none
    | some e => exact .emitReturn_some (hv e rfl).1
  | callNode x as k t has =>
    refine ⟨?_, by rintro _ _ _ _ _ ⟨⟩⟩
    exact .emitCall x k (emitters_mirror fun n hn => (has n hn).1)
  | methodCallNode x o as m k t ho has =>
    refine ⟨?_, by rintro _ _ _ _ _ ⟨⟩⟩
    exact .emitMethodCall x m k ho.1 (emitters_mirror fun n hn => (has n hn).1)
  | castNode e t he =>
    refine ⟨?_, by rintro _ _ _ _ _ ⟨⟩⟩
    change Mirrors _ (emitUnary (castOpcode (e.unlabelled.typeName.getD "object") _) _)
    rw [(types_unlabelled e).2]
    refine .emitUnary ?_ he.1
    unfold castOpcode
    split
    · decide
    · split
      · decide
      · split <;> decide
  | derefNode e o t i he => exact ⟨.emitDeref o t i he.1, by rintro _ _ _ _ _ ⟨⟩⟩
  | atNode b i t hb hi =>
    refine ⟨?_, by rintro _ _ _ _ _ ⟨⟩⟩
    change Mirrors _ (emitAt _ _ i.unlabelled.constIndex t)
    rw [constIndex_unlabelled]
    exact .emitAt _ t hb.1 hi.1
  | newObject a x t fs as hfs has =>
    refine ⟨?_, ?_⟩
    · exact .emitNewObject a x t (emitters₂_mirror fun p hp => (hfs p hp).1)
        (emitters_mirror fun n hn => (has n hn).1)
    · rintro _ _ _ _ _ ⟨⟩ p hp
      exact (hfs p hp).1
  | newArray a x t k es hes =>
    refine ⟨?_, by rintro _ _ _ _ _ ⟨⟩⟩
    exact .emitNewArray a x t k (emitters_mirror fun n hn => (hes n hn).1)
      (elementInits_mirror fun n hn => (hes n hn).2)
  | storeGlobalNode x v hv => exact ⟨.emitStoreGlobal x hv.1, by rintro _ _ _ _ _ ⟨⟩⟩
  | storeFieldNode x o v hv => exact ⟨.emitStoreField x o hv.1, by rintro _ _ _ _ _ ⟨⟩⟩

end Trees

/-! ## Branches of a body -/

section Bodies

variable {fn f own : FunctionNode} {body : Node} {r : Option ℕ}

theorem ownLabels_beginBody (hbranches : fn.unresolvedBranches = []) :
    OwnLabels { fn.beginBody with labels := [] } := by
  have hb : fn.beginBody.unresolvedBranches = [] := hbranches
  refine ⟨by simp, by simp [hb], by simp, by simp [hb], ?_⟩
  intro pos i hi
  -- the prologue only moves the arguments
  obtain ⟨j, _, rfl⟩ := List.mem_mapIdx.mp (List.mem_of_getElem? hi)
  simp [branchOpcodes, hb]

theorem renamed_beginBody (hbranches : fn.unresolvedBranches = []) :
    renamed fn.labels id fn.labelCounter { fn.beginBody with labels := [] } = fn.beginBody := by
  simp [renamed, FunctionNode.beginBody, hbranches]

theorem plain_appendReturn (u : FunctionNode) (r : Option ℕ) : PlainAppend u (u.appendReturn r) :=
    by
  unfold FunctionNode.appendReturn
  split
  · exact .refl u
  · refine ⟨rfl, rfl, rfl, [⟨.Return, r.getD 0, 0, 0⟩], rfl, ?_⟩
    simp [branchOpcodes]

theorem renamed_appendReturn (base : List (String × ℕ)) (ρ : String → String) (k : ℕ)
    (u : FunctionNode) (r : Option ℕ) :
    (renamed base ρ k u).appendReturn r = renamed base ρ k (u.appendReturn r) := by
  unfold FunctionNode.appendReturn
  have hcode : (renamed base ρ k u).instructions = u.instructions := rfl
  rw [hcode]
  split <;> rfl

theorem getLast?_appendReturn (u : FunctionNode) (r : Option ℕ) :
    (u.appendReturn r).instructions.getLast?.map Instruction.opcode = some .Return := by
  unfold FunctionNode.appendReturn
  split
  · assumption
  · simp [FunctionNode.pushInstruction]

/-- The function without user labels that an emitted one mirrors. -/
structure MirrorsBody (fn : FunctionNode) (body : Node) (own : FunctionNode) : Prop where
  labels : OwnLabels own
  nodup : (own.unresolvedBranches.map Prod.snd).Nodup
  placed : ∀ e ∈ own.unresolvedBranches, e.1 ∈ own.labels.map Prod.fst
  referred : ∀ e ∈ own.labels, e.1 ∈ own.unresolvedBranches.map Prod.fst
  target : ∀ e ∈ own.unresolvedBranches, ∀ i, (e.1, i) ∈ own.labels →
    ownTarget fn body e.2 = some i
  last : own.instructions.getLast?.map Instruction.opcode = some .Return

theorem find?_position {bs : List (String × ℕ)} (hnd : (bs.map Prod.snd).Nodup)
    {e : String × ℕ} (he : e ∈ bs) : bs.find? (·.2 == e.2) = some e := by
  induction bs with
  | nil => cases he
  | cons b bs ih =>
    rw [List.map_cons, List.nodup_cons] at hnd
    obtain rfl | hmem := List.mem_cons.mp he
    · simp
    · have hne : (b.2 == e.2) = false := by
        rw [beq_eq_false_iff_ne]
        intro heq
        exact hnd.1 (List.mem_map.mpr ⟨e, hmem, heq.symm⟩)
      rw [List.find?_cons, hne]
      exact ih hnd.2 hmem

theorem exists_lookup_append {new : List (String × ℕ)} (base : List (String × ℕ)) {name : String}
    (h : name ∈ new.map Prod.fst) : ∃ t, (name, t) ∈ new ∧ (new ++ base).lookup name = some t := by
  induction new with
  | nil => cases h
  | cons e new ih =>
    rw [List.cons_append, List.lookup_cons]
    by_cases heq : name = e.1
    · refine ⟨e.2, ?_, ?_⟩
      · rw [heq]
        exact List.mem_cons_self
      · simp [heq]
    · obtain ⟨t, hmem, hlookup⟩ := ih ((List.mem_cons.mp h).resolve_left heq)
      have hne : (name == e.1) = false := beq_eq_false_iff_ne.mpr heq
      rw [hne]
      exact ⟨t, List.mem_cons_of_mem _ hmem, hlookup⟩

theorem exists_mirrorsBody (hbranches : fn.unresolvedBranches = [])
    (h : emit body fn.beginBody = .ok (r, f)) :
    ∃ ρ k own, f.appendReturn r = renamed fn.labels ρ k own ∧ MirrorsBody fn body own := by
  have hs := ownLabels_beginBody hbranches
  rw [← renamed_beginBody hbranches] at h
  obtain ⟨ρ, k, own, hown, rfl, hfollows⟩ := (mirrorsOwn_and_inits body).1 _ _ _ _ _ _ hs h
  have hplain := plain_appendReturn own r
  have hbranchesOk : BranchesOk own := by
    refine (Extends.of_emit hown).branchesOk ⟨?_, ?_⟩ <;> simp [FunctionNode.beginBody, hbranches]
  have hplaced : ∀ e ∈ own.unresolvedBranches, e.1 ∈ own.labels.map Prod.fst := by
    intro e he
    refine (hfollows.closes.placed e he).resolve_left ?_
    simp [FunctionNode.beginBody, hbranches]
  have hreferred : ∀ e ∈ own.labels, e.1 ∈ own.unresolvedBranches.map Prod.fst := by
    intro e he
    exact (hfollows.closes.referred e he).resolve_left List.not_mem_nil
  refine ⟨ρ, k, own.appendReturn r, renamed_appendReturn _ ρ k own r,
    ⟨hplain.own hfollows.own, ?_, ?_, ?_, ?_, getLast?_appendReturn own r⟩⟩
  · rw [hplain.branches]
    exact hbranchesOk.nodup
  · rw [hplain.branches, hplain.labels]
    exact hplaced
  · rw [hplain.branches, hplain.labels]
    exact hreferred
  · rw [hplain.branches, hplain.labels]
    intro e he i hi
    have hlookup : (own.labels ++ []).lookup e.1 = some i :=
      lookup_append_of_mem hfollows.own.nodup hi
    rw [List.append_nil] at hlookup
    rw [ownTarget, hown]
    change (own.unresolvedBranches.find? _).bind _ = _
    rw [find?_position hbranchesOk.nodup he]
    exact hlookup

theorem addedLabels_renamed (fn own : FunctionNode) (ρ : String → String) (k : ℕ) :
    addedLabels fn (renamed fn.labels ρ k own) = own.labels.map (Prod.map ρ id) := by
  change (own.labels.map (Prod.map ρ id) ++ fn.labels).take _ = _
  refine List.take_left' ?_
  simp [renamed]

namespace MirrorsBody

variable {ρ : String → String} {k : ℕ}

theorem resolved (hown : MirrorsBody fn body own) {e : String × ℕ}
    (he : e ∈ own.unresolvedBranches) :
    ∃ (i : Instruction) (t : ℕ), i.opcode ∈ branchOpcodes ∧
      (ρ e.1, t) ∈ addedLabels fn (renamed fn.labels ρ k own) ∧
      (renamed fn.labels ρ k own).labels.lookup (ρ e.1) = some t ∧
      (renamed fn.labels ρ k own).resolveBranches.instructions[e.2]? =
        some (i.setImm16 (u16 t)) := by
  obtain ⟨i, hi⟩ : ∃ i, own.instructions[e.2]? = some i :=
    ⟨_, List.getElem?_eq_getElem (hown.labels.bound e he)⟩
  have hplaced : ρ e.1 ∈ (own.labels.map (Prod.map ρ id)).map Prod.fst := by
    obtain ⟨p, hp, heq⟩ := List.mem_map.mp (hown.placed e he)
    rw [← heq]
    exact List.mem_map.mpr ⟨_, List.mem_map_of_mem hp, rfl⟩
  obtain ⟨t, hmem, hlookup⟩ := exists_lookup_append fn.labels hplaced
  have hnodup : ((own.unresolvedBranches.map (Prod.map ρ id)).map Prod.snd).Nodup := by
    rw [List.map_map]
    exact hown.nodup
  refine ⟨i, t, ?_, ?_, hlookup,
    getElem?_resolve_of_mem _ _ _ hnodup (List.mem_map_of_mem (f := Prod.map ρ id) he) hi hlookup⟩
  · exact (hown.labels.branches e.2 _ hi).mpr (List.mem_map_of_mem he)
  · rw [addedLabels_renamed]
    exact hmem

theorem map_opcode_resolveBranches (hown : MirrorsBody fn body own) :
    (renamed fn.labels ρ k own).resolveBranches.instructions.map Instruction.opcode =
      own.instructions.map Instruction.opcode := by
  refine map_resolveBranches (u := renamed fn.labels ρ k own) fun e he => ?_
  obtain ⟨e', he', rfl⟩ := List.mem_map.mp he
  exact ⟨own.instructions.get ⟨e'.2, hown.labels.bound e' he'⟩,
    List.getElem?_eq_getElem (hown.labels.bound e' he'), fun _ => rfl⟩

theorem exists_reference (hown : MirrorsBody fn body own) {pos : ℕ} {i : Instruction}
    (hi : (renamed fn.labels ρ k own).resolveBranches.instructions[pos]? = some i)
    (hop : i.opcode ∈ branchOpcodes) : ∃ e ∈ own.unresolvedBranches, e.2 = pos := by
  have hopcodes := congrArg (·[pos]?) (hown.map_opcode_resolveBranches (ρ := ρ) (k := k))
  simp only [List.getElem?_map, hi, Option.map_some] at hopcodes
  obtain ⟨j, hj, heq⟩ := Option.map_eq_some_iff.mp hopcodes.symm
  have hmem := (hown.labels.branches pos j hj).mp (heq ▸ hop)
  exact List.mem_map.mp hmem

end MirrorsBody

theorem lt_length_of_reachesIndex {code : List Instruction}
    (hlast : code.getLast?.map Instruction.opcode = some .Return)
    (hbranches : ∀ (pos : ℕ) (i : Instruction), code[pos]? = some i →
      i.opcode ∈ branchOpcodes → i.imm16 < code.length) {pc : ℕ}
        (h : ReachesIndex code pc) : pc < code.length := by
  induction h with
  | start =>
    cases code with
    | nil => cases hlast
    | cons i code => exact Nat.zero_lt_succ _
  | @next pc target i _ hi htarget hpc =>
    have hnext : i.opcode ≠ .Return → pc + 1 < code.length := by
      intro hne
      refine Nat.lt_of_le_of_ne hpc fun heq => hne ?_
      rw [List.getLast?_eq_getElem?, ← heq, Nat.add_sub_cancel, hi] at hlast
      exact Option.some.inj hlast
    have hbranch := hbranches pc i hi
    unfold successors at htarget
    split at htarget
    · cases htarget
    · next hop =>
      rw [List.mem_singleton.mp htarget]
      exact hbranch (by simp [hop, branchOpcodes])
    · next hop =>
      obtain rfl | htarget := List.mem_cons.mp htarget
      · exact hbranch (by simp [hop, branchOpcodes])
      · rw [List.mem_singleton.mp htarget]
        exact hnext (by simp [hop])
    · next hop =>
      obtain rfl | htarget := List.mem_cons.mp htarget
      · exact hbranch (by simp [hop, branchOpcodes])
      · rw [List.mem_singleton.mp htarget]
        exact hnext (by simp [hop])
    · next hreturn _ _ _ =>
      rw [List.mem_singleton.mp htarget]
      exact hnext hreturn

theorem getLast?_map_resolveBranches {ρ : String → String} {k : ℕ}
    (hown : MirrorsBody fn body own) :
    (renamed fn.labels ρ k own).resolveBranches.instructions.getLast?.map Instruction.opcode =
      some .Return := by
  rw [← List.getLast?_map, hown.map_opcode_resolveBranches, List.getLast?_map]
  exact hown.last

/-- The branches of a function body, once they are resolved, all go where they should, inside the
code, and no path leaves the code at the end, exactly if no label is placed at two indices, and
all are placed at indices of the code that sixteen bits hold.
SRCLINE: FunctionNode.cpp:162-239 -/
theorem branchesMeant_iff (hbranches : fn.unresolvedBranches = [])
    (h : emit body fn.beginBody = .ok (r, f)) :
    BranchesMeant fn body (f.appendReturn r).resolveBranches ↔
      LabelsAgree fn (f.appendReturn r) := by
  obtain ⟨ρ, k, own, hrenamed, hown⟩ := exists_mirrorsBody hbranches h
  rw [hrenamed]
  have hlength := length_resolveBranches (renamed fn.labels ρ k own)
  constructor
  · intro hmeant
    -- each label is referred to, and the reference is resolved to its index
    have hreference : ∀ label i, (label, i) ∈ addedLabels fn (renamed fn.labels ρ k own) →
        ∃ t, (renamed fn.labels ρ k own).labels.lookup label = some t ∧ i = u16 t ∧
          i < (renamed fn.labels ρ k own).instructions.length := by
      intro label i hlabel
      rw [addedLabels_renamed] at hlabel
      obtain ⟨p, hp, heq⟩ := List.mem_map.mp hlabel
      obtain ⟨rfl, rfl⟩ := Prod.mk.inj heq
      obtain ⟨e, he, hname⟩ := List.mem_map.mp (hown.referred p hp)
      obtain ⟨j, t, hop, -, hlookup, hj⟩ := hown.resolved (ρ := ρ) (k := k) he
      obtain ⟨htarget, hlt⟩ := hmeant.target e.2 _ hj hop
      have hindex := hown.target e he p.2 (hname ▸ hp)
      rw [hindex, Instruction.imm16_setImm16] at htarget
      rw [Instruction.imm16_setImm16, ← Option.some.inj htarget, hlength] at hlt
      rw [hname] at hlookup
      exact ⟨t, hlookup, Option.some.inj htarget, hlt⟩
    constructor
    · intro label i j hi hj
      obtain ⟨t, hlookup, rfl, -⟩ := hreference label i hi
      obtain ⟨t', hlookup', rfl, -⟩ := hreference label j hj
      rw [Option.some.inj (hlookup.symm.trans hlookup')]
    · intro label i hi
      obtain ⟨t, -, hu16, hlt⟩ := hreference label i hi
      exact ⟨hu16 ▸ u16_lt t, hlt⟩
  · intro hagree
    have htargets : ∀ pos i,
        (renamed fn.labels ρ k own).resolveBranches.instructions[pos]? = some i →
        i.opcode ∈ branchOpcodes → ownTarget fn body pos = some i.imm16 ∧
          i.imm16 < (renamed fn.labels ρ k own).resolveBranches.instructions.length := by
      intro pos i hi hop
      obtain ⟨e, he, rfl⟩ := hown.exists_reference hi hop
      obtain ⟨j, t, -, hadded, -, hj⟩ := hown.resolved (ρ := ρ) (k := k) he
      rw [hj] at hi
      obtain rfl := Option.some.inj hi
      -- the label itself is placed, at the index that is looked up
      obtain ⟨p, hp, hname⟩ := List.mem_map.mp (hown.placed e he)
      have hplaced : (ρ e.1, p.2) ∈ addedLabels fn (renamed fn.labels ρ k own) := by
        rw [addedLabels_renamed, ← hname]
        exact List.mem_map_of_mem (f := Prod.map ρ id) hp
      have heq : t = p.2 := hagree.once _ _ _ hadded hplaced
      obtain ⟨hsmall, hlt⟩ := hagree.within _ _ hadded
      rw [Instruction.imm16_setImm16, u16_of_lt hsmall, hlength]
      refine ⟨?_, hlt⟩
      rw [heq]
      exact hown.target e he p.2 (hname ▸ hp)
    constructor
    · exact htargets
    · intro pc hpc
      exact lt_length_of_reachesIndex (getLast?_map_resolveBranches hown)
        (fun pos i hi hop => (htargets pos i hi hop).2) hpc

end Bodies

/-! ## Two loops -/

/-- A loop with a label of the user, as it is emitted. -/
def emittedLoop : FunctionNode where
  variableInfos := []
  variableIndex := []
  paramCount := 0
  nextTempReg := 2
  instructions := [⟨.LoadStaticI64Imm, 0, 0, 0⟩, ⟨.BranchIfNot, 0, 0, 0⟩,
    ⟨.LoadStaticI64Imm, 1, 1, 0⟩, ⟨.Branch, 0, 0, 0⟩]
  constants := [0, 1]
  constantsKind := [.INT, .INT]
  labels := [("loop_end", 4), ("loop", 0)]
  unresolvedBranches := [("loop_end", 1), ("loop", 3)]
  labelCounter := 0
  strings := none

theorem emit_loop : emit (.whileNode (.constInt 0) (.constInt 1) (some "loop"))
    (FunctionNode.new none).beginBody = .ok (some 0, emittedLoop) := by
  decide +kernel

theorem labelsAgree_emittedLoop :
    LabelsAgree (FunctionNode.new none) (emittedLoop.appendReturn (some 0)) := by
  have honce : ∀ p ∈ emittedLoop.labels, ∀ q ∈ emittedLoop.labels, p.1 = q.1 → p.2 = q.2 := by
    decide
  have hwithin : ∀ p ∈ emittedLoop.labels, p.2 < 65536 ∧
      p.2 < (emittedLoop.appendReturn (some 0)).instructions.length := by
    decide
  have hadded : addedLabels (FunctionNode.new none) (emittedLoop.appendReturn (some 0)) =
      emittedLoop.labels := by
    decide
  constructor
  · rw [hadded]
    intro label i j hi hj
    exact honce _ hi _ hj rfl
  · rw [hadded]
    intro label i hi
    exact hwithin _ hi

theorem branchesMeant_loop : BranchesMeant (FunctionNode.new none)
    (.whileNode (.constInt 0) (.constInt 1) (some "loop"))
    (emittedLoop.appendReturn (some 0)).resolveBranches :=
  (branchesMeant_iff rfl emit_loop).mpr labelsAgree_emittedLoop

/-- Two loops with one label. -/
def twoLoops : Node :=
  .sequenceNode [.whileNode (.constInt 0) (.constInt 1) (some "loop"),
    .whileNode (.constInt 0) (.constInt 2) (some "loop")]

/-- A branch can go elsewhere: the first of the two loops ends where the second one ends. -/
theorem not_branchesMeant : ¬ ∀ (fn : FunctionNode) (body : Node) (fn' : FunctionNode),
    fn.unresolvedBranches = [] → fn.emitBody body = .ok fn' → BranchesMeant fn body fn' := by
  intro h
  have htarget : ownTarget (FunctionNode.new none) twoLoops 1 = some 4 := by decide +kernel
  have hcode : ((FunctionNode.new none).emitBody twoLoops).toOption.bind (·.instructions[1]?) =
      some ⟨.BranchIfNot, 0, 8, 0⟩ := by
    decide +kernel
  cases hemit : (FunctionNode.new none).emitBody twoLoops with
  | error e =>
    rw [hemit] at hcode
    cases hcode
  | ok fn' =>
    rw [hemit] at hcode
    have hmeant := (h (FunctionNode.new none) twoLoops fn' rfl hemit).target 1 _ hcode (by decide)
    rw [htarget] at hmeant
    exact absurd hmeant.1 (by decide)

end Soot.Analysis
