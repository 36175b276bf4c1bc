import Mathlib.Data.List.Nodup
import Soot.Program.VirtualMachine
import Soot.Analysis.EmitStable

/-!
# From the emitted code to the resolved code

Emission only ever appends: an emitted state extends the states it went through, and a branch
recorded on the way refers to one of the new instructions. So the resolved code of a function
contains, at the positions where a tree was emitted, that tree's instructions with the targets
of its branches filled in. A label resolves to its position as long as no label of the body
is added twice.
-/

set_option autoImplicit false

namespace Soot.Analysis

open Soot.Program Soot.Computation

variable {s t : FunctionNode}

/-- The state `t` is reached from `s` by emitting. -/
structure Extends (s t : FunctionNode) : Prop where
  variableInfos : t.variableInfos = s.variableInfos
  variableIndex : t.variableIndex = s.variableIndex
  paramCount : t.paramCount = s.paramCount
  temps : s.nextTempReg ≤ t.nextTempReg
  instructions : s.instructions <+: t.instructions
  constants : s.constants <+: t.constants
  pool : t.constants.length + s.nextTempReg ≤ s.constants.length + t.nextTempReg
  labels : s.labels <:+ t.labels
  branches : ∃ bs, t.unresolvedBranches = s.unresolvedBranches ++ bs ∧
    (∀ b ∈ bs, s.instructions.length ≤ b.2 ∧ b.2 < t.instructions.length) ∧
    (bs.map Prod.snd).Nodup

namespace Extends

theorem trans {s t u : FunctionNode} (h₁ : Extends s t) (h₂ : Extends t u) : Extends s u := by
  obtain ⟨bs₁, hbs₁, hpos₁, hnd₁⟩ := h₁.branches
  obtain ⟨bs₂, hbs₂, hpos₂, hnd₂⟩ := h₂.branches
  have hst := h₁.instructions.length_le
  have htu := h₂.instructions.length_le
  have hpool₁ := h₁.pool
  have hpool₂ := h₂.pool
  refine ⟨h₂.variableInfos.trans h₁.variableInfos, h₂.variableIndex.trans h₁.variableIndex,
    h₂.paramCount.trans h₁.paramCount, Nat.le_trans h₁.temps h₂.temps,
    h₁.instructions.trans h₂.instructions, h₁.constants.trans h₂.constants, by omega,
    h₁.labels.trans h₂.labels, bs₁ ++ bs₂, by rw [hbs₂, hbs₁, List.append_assoc], ?_, ?_⟩
  · intro b hb
    rcases List.mem_append.mp hb with hb | hb
    · obtain ⟨hlo, hhi⟩ := hpos₁ b hb
      omega
    · obtain ⟨hlo, hhi⟩ := hpos₂ b hb
      omega
  · rw [List.map_append]
    refine List.Nodup.append hnd₁ hnd₂ ?_
    intro p hp₁ hp₂
    obtain ⟨b₁, hb₁, rfl⟩ := List.mem_map.mp hp₁
    obtain ⟨b₂, hb₂, heq⟩ := List.mem_map.mp hp₂
    have hlt := (hpos₁ b₁ hb₁).2
    have hle := (hpos₂ b₂ hb₂).1
    omega

theorem of_eq (hi : t.variableInfos = s.variableInfos)
    (hx : t.variableIndex = s.variableIndex) (hp : t.paramCount = s.paramCount)
    (htemps : s.nextTempReg ≤ t.nextTempReg) (hcode : s.instructions <+: t.instructions)
    (hconst : t.constants = s.constants) (hlabels : s.labels <:+ t.labels)
    (hbranch : t.unresolvedBranches = s.unresolvedBranches) : Extends s t :=
  ⟨hi, hx, hp, htemps, hcode, hconst ▸ List.prefix_rfl, by rw [hconst]; omega, hlabels, [],
    by simpa using hbranch, by simp, by simp⟩

theorem refl (s : FunctionNode) : Extends s s :=
  of_eq rfl rfl rfl (Nat.le_refl _) List.prefix_rfl rfl List.suffix_rfl rfl

theorem load (s : FunctionNode) (op : Opcode) (v : Word) (k : ConstKind) :
    Extends s (pushLoad s op v k) := by
  unfold pushLoad FunctionNode.addConstant
  split
  · exact ⟨rfl, rfl, rfl, Nat.le_succ _, List.prefix_append _ _, List.prefix_rfl,
      Nat.add_le_add_left (Nat.le_succ _) _, List.suffix_rfl, [], by
        simp [FunctionNode.pushInstruction, FunctionNode.allocTempReg], by simp, by simp⟩
  · refine ⟨rfl, rfl, rfl, Nat.le_succ _, List.prefix_append _ _, List.prefix_append _ _, ?_,
      List.suffix_rfl, [], by
        simp [FunctionNode.pushInstruction, FunctionNode.allocTempReg], by simp, by simp⟩
    simp only [FunctionNode.pushInstruction, FunctionNode.allocTempReg, List.length_append,
      List.length_singleton]
    omega

theorem stable : Stable Extends where
  refl := refl
  trans := fun _ _ _ => trans
  alloc s := of_eq rfl rfl rfl (Nat.le_succ _) List.prefix_rfl rfl List.suffix_rfl rfl
  load := load
  instruction s i := of_eq rfl rfl rfl (Nat.le_refl _) (List.prefix_append _ _) rfl
    List.suffix_rfl rfl
  branch s op c l := by
    refine ⟨rfl, rfl, rfl, Nat.le_refl _, List.prefix_append _ _, List.prefix_rfl,
      Nat.le_refl _, List.suffix_rfl, [(l, s.instructions.length)], rfl, ?_, by simp⟩
    simp [pushBranch, FunctionNode.pushInstruction]
  label s l := of_eq rfl rfl rfl (Nat.le_refl _) List.prefix_rfl rfl (List.suffix_cons _ _) rfl
  unique s p := of_eq rfl rfl rfl (Nat.le_refl _) List.prefix_rfl rfl List.suffix_rfl rfl
  string s p := of_eq rfl rfl rfl (Nat.le_refl _) List.prefix_rfl rfl List.suffix_rfl rfl

theorem of_emit {n : Node} {r : Option ℕ} (h : emit n s = .ok (r, t)) :
    Extends s t := stable.emit h

theorem lookupVariable (h : Extends s t) (x : String) :
    t.lookupVariable x = s.lookupVariable x := by
  simp only [FunctionNode.lookupVariable, h.variableIndex, h.variableInfos]

theorem getVariableReg (h : Extends s t) (x : String) :
    t.getVariableReg x = s.getVariableReg x := by
  simp only [FunctionNode.getVariableReg, h.lookupVariable]

end Extends

/-- Every recorded branch refers to an instruction, and no instruction is referred to
twice. -/
structure BranchesOk (s : FunctionNode) : Prop where
  bound : ∀ b ∈ s.unresolvedBranches, b.2 < s.instructions.length
  nodup : (s.unresolvedBranches.map Prod.snd).Nodup

theorem Extends.branchesOk (h : Extends s t) (hs : BranchesOk s) :
    BranchesOk t := by
  obtain ⟨bs, hbs, hpos, hnd⟩ := h.branches
  have hle := h.instructions.length_le
  refine ⟨?_, ?_⟩
  · intro b hb
    rw [hbs] at hb
    rcases List.mem_append.mp hb with hb | hb
    · have := hs.bound b hb
      omega
    · exact (hpos b hb).2
  · rw [hbs, List.map_append]
    refine List.Nodup.append hs.nodup hnd ?_
    intro p hp₁ hp₂
    obtain ⟨b₁, hb₁, rfl⟩ := List.mem_map.mp hp₁
    obtain ⟨b₂, hb₂, heq⟩ := List.mem_map.mp hp₂
    have hlt := hs.bound b₁ hb₁
    have hge := (hpos b₂ hb₂).1
    omega

/-- The code and the constants of a loaded function contain what the state `u` has emitted so
far: plain instructions as they are, branches with the positions of their labels. The labels
in `base` are left over from an earlier emission. -/
structure Embeds (l : ScriptLambda) (base resolved : List (String × ℕ)) (u : FunctionNode) :
    Prop where
  plain : ∀ p i, u.instructions[p]? = some i → (∀ b ∈ u.unresolvedBranches, b.2 ≠ p) →
    l.code[p]? = some i
  branch : ∀ b ∈ u.unresolvedBranches, ∀ i target, u.instructions[b.2]? = some i →
    resolved.lookup b.1 = some target → l.code[b.2]? = some (i.setImm16 (u16 target))
  label : ∀ new, u.labels = new ++ base → ∀ e ∈ new, resolved.lookup e.1 = some e.2
  constants : u.constants <+: l.symbols
  length : u.instructions.length ≤ l.code.length

theorem Extends.embeds {l : ScriptLambda} {base resolved : List (String × ℕ)}
    (h : Extends s t) (ht : Embeds l base resolved t) :
    Embeds l base resolved s := by
  obtain ⟨bs, hbs, hpos, -⟩ := h.branches
  have hget : ∀ {p : ℕ} {i : Instruction}, s.instructions[p]? = some i → t.instructions[p]? = some i := by
    intro p i hi
    obtain ⟨rest, hrest⟩ := h.instructions
    rw [← hrest]
    rw [List.getElem?_append_left (List.getElem?_eq_some_iff.mp hi).1]
    exact hi
  refine ⟨?_, ?_, ?_, h.constants.trans ht.constants, Nat.le_trans h.instructions.length_le ht.length⟩
  · intro p i hi hnot
    refine ht.plain p i (hget hi) ?_
    intro b hb
    rw [hbs] at hb
    rcases List.mem_append.mp hb with hb | hb
    · exact hnot b hb
    · have hlo := (hpos b hb).1
      have hp := (List.getElem?_eq_some_iff.mp hi).1
      omega
  · intro b hb i target hi htarget
    exact ht.branch b (by rw [hbs]; exact List.mem_append_left _ hb) i target (hget hi) htarget
  · intro new hnew e he
    obtain ⟨front, hfront⟩ := h.labels
    refine ht.label (front ++ new) ?_ e (List.mem_append_right _ he)
    rw [← hfront, hnew, List.append_assoc]

/-! ## Reading the embedded code -/

theorem Embeds.pushed {l : ScriptLambda} {base resolved : List (String × ℕ)}
    {s : FunctionNode} {i : Instruction} (h : Embeds l base resolved (s.pushInstruction i))
    (hs : BranchesOk s) : l.code[s.instructions.length]? = some i := by
  refine h.plain _ _ (by simp [FunctionNode.pushInstruction]) ?_
  intro b hb
  exact Nat.ne_of_lt (hs.bound b hb)

theorem Embeds.branched {l : ScriptLambda} {base resolved : List (String × ℕ)}
    {s : FunctionNode} {op : Opcode} {c : ℕ} {label : String} {target : ℕ}
    (h : Embeds l base resolved (pushBranch s op c label))
    (htarget : resolved.lookup label = some target) :
    l.code[s.instructions.length]? =
      some (Instruction.setImm16 ⟨op, c, 0, 0⟩ (u16 target)) := by
  refine h.branch (label, s.instructions.length) ?_ _ target ?_ htarget
  · simp [pushBranch]
  · simp [pushBranch, FunctionNode.pushInstruction]

theorem Embeds.labelled {l : ScriptLambda} {base resolved : List (String × ℕ)}
    {s : FunctionNode} {name : String} (h : Embeds l base resolved (s.addLabel name))
    (hbase : base <:+ s.labels) : resolved.lookup name = some s.instructions.length := by
  obtain ⟨new, hnew⟩ := hbase
  refine h.label ((name, s.instructions.length) :: new) ?_ _ List.mem_cons_self
  simp [FunctionNode.addLabel, ← hnew]

/-! ## Resolution -/

theorem getElem?_resolveBranch (labels : List (String × ℕ)) (code : List Instruction)
    (b : String × ℕ) (p : ℕ) :
    (FunctionNode.resolveBranch labels code b)[p]? =
      if p = b.2 then
        match labels.lookup b.1 with
        | none => code[p]?
        | some target => code[p]?.map fun i => i.setImm16 (u16 target)
      else code[p]? := by
  unfold FunctionNode.resolveBranch
  cases hb : labels.lookup b.1 with
  | none => simp
  | some target =>
    simp only [List.getElem?_modify]
    by_cases hp : p = b.2
    · subst hp
      simp
    · simp [hp, Ne.symm hp]

theorem getElem?_resolve_of_forall_ne (labels : List (String × ℕ)) (bs : List (String × ℕ))
    (code : List Instruction) {p : ℕ} (h : ∀ b ∈ bs, b.2 ≠ p) :
    (bs.foldl (FunctionNode.resolveBranch labels) code)[p]? = code[p]? := by
  induction bs generalizing code with
  | nil => rfl
  | cons b bs ih =>
    obtain ⟨hb, hbs⟩ := List.forall_mem_cons.mp h
    rw [List.foldl_cons, ih _ hbs, getElem?_resolveBranch, if_neg (Ne.symm hb)]

theorem getElem?_resolve_of_mem (labels : List (String × ℕ)) (bs : List (String × ℕ))
    (code : List Instruction) (hnd : (bs.map Prod.snd).Nodup) {b : String × ℕ} (hb : b ∈ bs)
    {i : Instruction} {target : ℕ} (hi : code[b.2]? = some i)
    (htarget : labels.lookup b.1 = some target) :
    (bs.foldl (FunctionNode.resolveBranch labels) code)[b.2]? =
      some (i.setImm16 (u16 target)) := by
  induction bs generalizing code with
  | nil => cases hb
  | cons b' bs ih =>
    rw [List.map_cons, List.nodup_cons] at hnd
    rw [List.foldl_cons]
    rcases List.mem_cons.mp hb with rfl | hmem
    · have hrest : ∀ c ∈ bs, c.2 ≠ b.2 := by
        intro c hc heq
        exact hnd.1 (List.mem_map.mpr ⟨c, hc, heq⟩)
      rw [getElem?_resolve_of_forall_ne _ _ _ hrest, getElem?_resolveBranch, if_pos rfl,
        htarget, hi]
      rfl
    · refine ih _ hnd.2 hmem ?_
      have hne : b.2 ≠ b'.2 := by
        intro heq
        exact hnd.1 (List.mem_map.mpr ⟨b, hmem, heq⟩)
      rw [getElem?_resolveBranch, if_neg hne, hi]

theorem map_resolveBranches {β : Type} {f : Instruction → β} {u : FunctionNode}
    (hu : ∀ b ∈ u.unresolvedBranches, ∃ i, u.instructions[b.2]? = some i ∧
      ∀ v, f (i.setImm16 v) = f i) :
    u.resolveBranches.instructions.map f = u.instructions.map f := by
  have hfold : ∀ (bs : List (String × ℕ)) (code : List Instruction),
      (∀ b ∈ bs, ∃ i, code[b.2]? = some i ∧ ∀ v, f (i.setImm16 v) = f i) →
      (bs.foldl (FunctionNode.resolveBranch u.labels) code).map f = code.map f := by
    intro bs
    induction bs with
    | nil => intro code _; rfl
    | cons b bs ih =>
      intro code hcode
      obtain ⟨⟨i, hi, hf⟩, hbs⟩ := List.forall_mem_cons.mp hcode
      rw [List.foldl_cons, ih]
      · refine List.ext_getElem? fun p => ?_
        rw [List.getElem?_map, List.getElem?_map, getElem?_resolveBranch]
        by_cases hp : p = b.2
        · rw [if_pos hp, hp, hi]
          cases u.labels.lookup b.1 with
          | none => rfl
          | some target => exact congrArg some (hf _)
        · rw [if_neg hp]
      · intro b' hb'
        obtain ⟨j, hj, hf'⟩ := hbs b' hb'
        rw [getElem?_resolveBranch]
        by_cases heq : b'.2 = b.2
        · rw [if_pos heq, hj]
          cases u.labels.lookup b.1 with
          | none => exact ⟨j, rfl, hf'⟩
          | some target => exact ⟨_, rfl, fun v => (hf' v).trans (hf' _).symm⟩
        · rw [if_neg heq]
          exact ⟨j, hj, hf'⟩
  exact hfold u.unresolvedBranches u.instructions hu

theorem lookup_append_of_mem {new base : List (String × ℕ)} (hnd : (new.map Prod.fst).Nodup)
    {e : String × ℕ} (he : e ∈ new) : (new ++ base).lookup e.1 = some e.2 := by
  induction new with
  | nil => cases he
  | cons a new ih =>
    rw [List.map_cons, List.nodup_cons] at hnd
    rw [List.cons_append, List.lookup_cons]
    rcases List.mem_cons.mp he with rfl | hmem
    · simp
    · have hne : (e.1 == a.1) = false := by
        rw [beq_eq_false_iff_ne]
        intro heq
        exact hnd.1 (List.mem_map.mpr ⟨e, hmem, heq⟩)
      rw [hne]
      exact ih hnd.2 hmem

theorem length_resolveBranches (u : FunctionNode) :
    u.resolveBranches.instructions.length = u.instructions.length := by
  have hfold : ∀ (bs : List (String × ℕ)) (code : List Instruction),
      (bs.foldl (FunctionNode.resolveBranch u.labels) code).length = code.length := by
    intro bs
    induction bs with
    | nil => intro code; rfl
    | cons b bs ih =>
      intro code
      rw [List.foldl_cons, ih]
      unfold FunctionNode.resolveBranch
      split <;> simp
  exact hfold _ _

theorem embeds_resolveBranches {u : FunctionNode} {base new : List (String × ℕ)}
    (hu : BranchesOk u) (hlabels : u.labels = new ++ base)
    (hnd : (new.map Prod.fst).Nodup) :
    Embeds ⟨u.resolveBranches.instructions, u.constants⟩ base u.labels u := by
  refine ⟨?_, ?_, ?_, List.prefix_rfl, Nat.le_of_eq (length_resolveBranches u).symm⟩
  · intro p i hi hnot
    exact (getElem?_resolve_of_forall_ne _ _ _ hnot).trans hi
  · intro b hb i target hi htarget
    exact getElem?_resolve_of_mem _ _ _ hu.nodup hb hi htarget
  · intro new' hnew' e he
    have heq : new' = new := List.append_cancel_right (hnew'.symm.trans hlabels)
    rw [hlabels]
    exact lookup_append_of_mem hnd (heq ▸ he)

end Soot.Analysis
