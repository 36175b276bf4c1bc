import Soot.Analysis.Simulation

/-!
# The variables of a function and its prologue

Parameters come first, then the variables the body binds, and a variable's register is its
position. The prologue moves the arguments to the registers of the parameters, in order; with
no more than ten parameters the argument registers exist, and no move overwrites an argument
that is moved later.
-/

set_option autoImplicit false

namespace Soot.Analysis

open Soot.Program Soot.Computation Soot.Model

/-! ## The variables of a function -/

/-- The function has these parameters and these other variables, each known under its name, and
no branch is left to resolve. -/
structure Prepared (fn : FunctionNode) (params locals : List String) : Prop where
  infos : fn.variableInfos =
    (params ++ locals).mapIdx fun i x => ⟨x, u8 i, decide (i < params.length)⟩
  index : ∀ i x, (params ++ locals)[i]? = some x → fn.variableIndex.lookup x = some i
  paramCount : fn.paramCount = params.length
  branches : fn.unresolvedBranches = []

theorem prepared_new (strings : Option StringPool) : Prepared (.new strings) [] [] :=
  ⟨rfl, by simp, rfl, rfl⟩

theorem lookup_addVariable {fn : FunctionNode} {xs : List String} {x : String} (p : Bool)
    (hindex : ∀ i y, xs[i]? = some y → fn.variableIndex.lookup y = some i)
    (hlen : fn.variableInfos.length = xs.length) (hx : x ∉ xs) :
    ∀ i y, (xs ++ [x])[i]? = some y → (fn.addVariable x p).variableIndex.lookup y = some i := by
  intro i y hy
  show List.lookup y ((x, fn.variableInfos.length) :: fn.variableIndex) = some i
  rw [List.lookup_cons]
  by_cases hi : i < xs.length
  · rw [List.getElem?_append_left hi] at hy
    have hne : (y == x) = false := by
      rw [beq_eq_false_iff_ne]
      rintro rfl
      exact hx (List.mem_of_getElem? hy)
    rw [hne]
    exact hindex i y hy
  · have hbound := (List.getElem?_eq_some_iff.mp hy).1
    simp only [List.length_append, List.length_singleton] at hbound
    obtain rfl : i = xs.length := by omega
    simp only [List.getElem?_concat_length, Option.some.injEq] at hy
    rw [← hy, beq_self_eq_true, hlen]

theorem Prepared.addParameter {fn : FunctionNode} {params : List String} {x : String}
    (h : Prepared fn params []) (hx : x ∉ params) :
    Prepared (fn.addParameter x) (params ++ [x]) [] := by
  have hinfos := h.infos
  rw [List.append_nil] at hinfos
  have hlen : fn.variableInfos.length = params.length := by rw [hinfos, List.length_mapIdx]
  refine ⟨?_, ?_, ?_, h.branches⟩
  · show fn.variableInfos ++ [⟨x, u8 fn.variableInfos.length, true⟩] = _
    rw [hlen, hinfos, List.append_nil, List.mapIdx_append]
    congr 1
    · refine List.mapIdx_eq_mapIdx_iff.mpr ?_
      intro i hi
      simp [hi, Nat.lt_succ_of_lt hi]
    · simp
  · rw [List.append_nil]
    refine lookup_addVariable true ?_ hlen hx
    simpa using h.index
  · show fn.paramCount + 1 = (params ++ [x]).length
    rw [h.paramCount, List.length_append, List.length_singleton]

theorem Prepared.addLocalVariable {fn : FunctionNode} {params locals : List String} {x : String}
    (h : Prepared fn params locals) (hx : x ∉ params ++ locals) :
    Prepared (fn.addLocalVariable x) params (locals ++ [x]) := by
  have hlen : fn.variableInfos.length = (params ++ locals).length := by
    rw [h.infos, List.length_mapIdx]
  refine ⟨?_, ?_, h.paramCount, h.branches⟩
  · show fn.variableInfos ++ [⟨x, u8 fn.variableInfos.length, false⟩] = _
    rw [hlen, h.infos, ← List.append_assoc params, List.mapIdx_concat]
    simp
  · rw [← List.append_assoc]
    exact lookup_addVariable false h.index hlen hx

theorem prepared_declare {fn : FunctionNode} {params locals : List String}
    (hfn : Prepared fn [] []) (hnd : (params ++ locals).Nodup) :
    Prepared (fn.declare params locals) params locals := by
  have hparams : ∀ (ys xs : List String) (f : FunctionNode), Prepared f xs [] →
      (xs ++ ys).Nodup → Prepared (ys.foldl FunctionNode.addParameter f) (xs ++ ys) [] := by
    intro ys
    induction ys with
    | nil =>
      intro xs f h _
      rwa [List.append_nil]
    | cons y ys ih =>
      intro xs f h hnd
      have hy : y ∉ xs := fun hmem => (List.nodup_append.mp hnd).2.2 y hmem y
        List.mem_cons_self rfl
      have hstep := ih (xs ++ [y]) _ (h.addParameter hy) (by simpa using hnd)
      simpa using hstep
  have hlocals : ∀ (ys xs : List String) (f : FunctionNode), Prepared f params xs →
      (params ++ (xs ++ ys)).Nodup →
      Prepared (ys.foldl FunctionNode.addLocalVariable f) params (xs ++ ys) := by
    intro ys
    induction ys with
    | nil =>
      intro xs f h _
      rwa [List.append_nil]
    | cons y ys ih =>
      intro xs f h hnd
      rw [← List.append_assoc] at hnd
      have hy : y ∉ params ++ xs := fun hmem => (List.nodup_append.mp hnd).2.2 y hmem y
        List.mem_cons_self rfl
      have hstep := ih (xs ++ [y]) _ (h.addLocalVariable hy) (by simpa using hnd)
      simpa using hstep
  have hp := hparams params [] fn hfn (List.nodup_append.mp hnd).1
  exact hlocals locals [] _ hp (by simpa using hnd)

section Variables

variable {fn : FunctionNode} {params locals : List String}

theorem Prepared.length (h : Prepared fn params locals) :
    fn.variableInfos.length = (params ++ locals).length := by
  rw [h.infos, List.length_mapIdx]

theorem Prepared.reg (h : Prepared fn params locals) {i : ℕ} {x : String}
    (hx : (params ++ locals)[i]? = some x) (hi : i < 256) :
    fn.lookupVariable x = some ⟨x, i, decide (i < params.length)⟩ ∧ fn.getVariableReg x = i := by
  have hinfo : fn.lookupVariable x = some ⟨x, i, decide (i < params.length)⟩ := by
    unfold FunctionNode.lookupVariable
    rw [h.index i x hx, Option.bind_some, h.infos, List.getElem?_mapIdx, hx, Option.map_some,
      u8_of_lt hi]
  refine ⟨hinfo, ?_⟩
  unfold FunctionNode.getVariableReg
  rw [hinfo]

theorem Prepared.declares (h : Prepared fn params locals)
    (hle : (params ++ locals).length ≤ 256) : Declares (· ∈ params ++ locals) fn := by
  have hpos : ∀ x ∈ params ++ locals, ∃ i < (params ++ locals).length,
      (params ++ locals)[i]? = some x ∧ fn.getVariableReg x = i ∧
        ∃ info, fn.lookupVariable x = some info := by
    intro x hx
    obtain ⟨i, hi, hget⟩ := List.mem_iff_getElem.mp hx
    have hsome : (params ++ locals)[i]? = some x := by rw [List.getElem?_eq_getElem hi, hget]
    obtain ⟨hlookup, hreg⟩ := h.reg hsome (by omega)
    exact ⟨i, hi, hsome, hreg, _, hlookup⟩
  refine ⟨?_, ?_, ?_⟩
  · intro x hx
    obtain ⟨i, -, -, -, hinfo⟩ := hpos x hx
    exact hinfo
  · intro x hx
    obtain ⟨i, hi, -, hreg, -⟩ := hpos x hx
    rw [hreg, h.length]
    exact hi
  · intro x y hx hy hxy
    obtain ⟨i, -, hxi, hxreg, -⟩ := hpos x hx
    obtain ⟨j, -, hyj, hyreg, -⟩ := hpos y hy
    rw [hxreg, hyreg] at hxy
    subst hxy
    exact Option.some.inj (hxi.symm.trans hyj)

/-! ## The prologue -/

theorem Prepared.prologue (h : Prepared fn params locals) :
    fn.prologue = (List.range params.length).map fun i =>
      ⟨.Move, u8 i, u8 (ARG_REGISTERS_OFFSET + i), 0⟩ := by
  unfold FunctionNode.prologue
  rw [h.paramCount, h.infos]
  refine List.ext_getElem? ?_
  intro i
  by_cases hi : i < params.length
  · rw [List.getElem?_mapIdx, List.getElem?_take_of_lt hi, List.getElem?_mapIdx,
      List.getElem?_append_left hi, List.getElem?_eq_getElem hi, List.getElem?_map,
      List.getElem?_range hi]
    rfl
  · have hlen : (params ++ locals).length = params.length + locals.length := List.length_append
    rw [List.getElem?_eq_none, List.getElem?_eq_none]
    · simpa using Nat.le_of_not_lt hi
    · simp only [List.length_mapIdx, List.length_take, hlen]
      omega

/-- The registers after the first `k` moves of the prologue. -/
def movedIn (k : ℕ) (regs : ℕ → Variant) : ℕ → Variant := fun r =>
  if r < k then regs (ARG_REGISTERS_OFFSET + r) else regs r

theorem movedIn_succ {k : ℕ} (hk : k < ARG_REGISTERS_OFFSET) (regs : ℕ → Variant) :
    movedIn (k + 1) regs =
      Function.update (movedIn k regs) k (movedIn k regs (ARG_REGISTERS_OFFSET + k)) := by
  have harg : ARG_REGISTERS_OFFSET = 24 := rfl
  funext r
  by_cases hr : r = k
  · subst hr
    rw [Function.update_self]
    unfold movedIn
    rw [if_pos (Nat.lt_succ_self r), if_neg (by omega)]
  · rw [Function.update_of_ne hr]
    unfold movedIn
    by_cases hlt : r < k
    · rw [if_pos hlt, if_pos (by omega)]
    · rw [if_neg hlt, if_neg (by omega)]

theorem reaches_prologue (rt : Runtime) {S : Site} {p : ℕ} (hp : p ≤ 10) (hfetch : p ≤ S.bound)
    (hcode : ∀ i < p, S.lambda.code[i]? = some ⟨.Move, u8 i, u8 (ARG_REGISTERS_OFFSET + i), 0⟩)
    (regs : ℕ → Variant) :
    (S.machine rt).Reaches p (S.at 0 regs) (S.at p (movedIn p regs)) := by
  induction p with
  | zero =>
    have hsame : movedIn 0 regs = regs := by
      funext r
      rfl
    rw [hsame]
    exact Machine.Reaches.refl _
  | succ p ih =>
    have harg : ARG_REGISTERS_OFFSET = 24 := rfl
    refine (ih (by omega) (by omega) fun i hi => hcode i (by omega)).tail ?_
    have hi := hcode p (Nat.lt_succ_self p)
    rw [u8_of_lt (show p < 256 by omega), u8_of_lt (show ARG_REGISTERS_OFFSET + p < 256 by omega)]
      at hi
    rw [step_move hi (by omega) (by omega) (by omega), movedIn_succ (by omega)]

end Variables

end Soot.Analysis
