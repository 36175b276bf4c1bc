import Mathlib.Data.Finset.Card
import Soot.Analysis.EmitRequests
import Soot.Analysis.BodyCorrect

/-!
# The constant pool

A function's loads get the constants that its tree asks for, and the kinds of the pool mark the
strings, exactly when the function has not been emitted before, no value is asked for both as
the offset of a string and as something else, there are at most 256 distinct values and every
string is in the first four gigabytes of the string pool.
-/

set_option autoImplicit false

namespace Soot.Analysis

open Soot.Program Soot.Computation Soot.Model

/-! ## The loaded function -/

/-- The function in memory: the constants marked as strings are the addresses of the strings
whose offsets they hold, truncated to 32 bits; the others are as they were written. -/
def loaded (relocate : Word → Word) (fn : FunctionNode) : ScriptLambda where
  code := fn.instructions
  symbols := fn.constants.mapIdx fun i v =>
    if fn.constantsKind[i]? = some .STRING then relocate ((v.truncate 32).zeroExtend 64) else v

/-- The constant a node asked for: the address of a string, or the value. -/
def askedConstant (relocate : Word → Word) (q : Request) : Word :=
  if q.kind = .STRING then relocate q.value else q.value

/-- What a load makes of a constant. -/
def loadedValue (rt : Runtime) : Opcode → Word → Variant
  | .LookupPointer => lookupPointer rt
  | .LookupFloat | .LoadStaticFloat | .LoadStaticFloatImm => .float
  | .LoadStaticPointer | .LoadStaticPointerImm => .pointer
  | _ => .int

/-- Into whichever register, the instruction loads what was asked for, wherever the strings
are. -/
def LoadsAsked (fn : FunctionNode) (i : Instruction) (q : Request) : Prop :=
  ∀ (rt : Runtime) (m : Memory) (f : StackFrame) (relocate : Word → Word) (a : ℕ),
    a < MAX_REGISTERS → f.lambda = some (loaded relocate fn) →
      exec rt m f { i with a := a } =
        .ok (.continue (f.put a (loadedValue rt q.op (askedConstant relocate q))) m)

/-- The pool agrees with what was asked for: every load, in order, gets its constant, there is a
kind for every constant, and the kinds mark the strings. -/
structure PoolAgrees (fn : FunctionNode) (asked : List Request) : Prop where
  loads : List.Forall₂ (LoadsAsked fn) (fn.instructions.filter fun i => readsPool i.opcode) asked
  kinds : fn.constantsKind.length = fn.constants.length
  marks : ∀ (i : ℕ) (v : Word), fn.constants[i]? = some v →
    (fn.constantsKind[i]? = some ConstKind.STRING ↔ ∃ q ∈ asked, q.value = v ∧ q.kind = .STRING)

/-! ## The pool after the requests -/

section Pool

variable {reqs : List Request} {pool : List Word × List ConstKind}

theorem mem_foldl_askPool {v : Word} :
    v ∈ (reqs.foldl askPool pool).1 ↔ v ∈ pool.1 ∨ ∃ q ∈ reqs, q.value = v := by
  induction reqs generalizing pool with
  | nil => simp
  | cons q reqs ih =>
    rw [List.foldl_cons, ih]
    have hstep : v ∈ (askPool pool q).1 ↔ v ∈ pool.1 ∨ q.value = v := by
      unfold askPool
      by_cases hq : pool.1.contains q.value = true
      · rw [if_pos hq]
        constructor
        · exact Or.inl
        · rintro (h | rfl)
          · exact h
          · exact List.contains_iff_mem.mp hq
      · rw [if_neg hq, List.mem_append, List.mem_singleton, eq_comm]
    rw [hstep, or_assoc]
    simp [List.mem_cons]

theorem nodup_foldl_askPool (h : pool.1.Nodup) : (reqs.foldl askPool pool).1.Nodup := by
  induction reqs generalizing pool with
  | nil => exact h
  | cons q reqs ih =>
    refine ih ?_
    unfold askPool
    by_cases hq : pool.1.contains q.value = true
    · rw [if_pos hq]
      exact h
    · rw [if_neg hq]
      refine List.nodup_append.mpr ⟨h, List.nodup_singleton _, ?_⟩
      intro a ha b hb hab
      rw [List.mem_singleton.mp hb] at hab
      exact hq (List.contains_iff_mem.mpr (hab ▸ ha))

theorem length_foldl_askPool (reqs : List Request) (pool : List Word × List ConstKind) :
    (reqs.foldl askPool pool).2.length + pool.1.length =
      (reqs.foldl askPool pool).1.length + pool.2.length := by
  induction reqs generalizing pool with
  | nil => exact Nat.add_comm _ _
  | cons q reqs ih =>
    rw [List.foldl_cons]
    have hrec := ih (askPool pool q)
    have hstep : (askPool pool q).1.length + pool.2.length =
        pool.1.length + (askPool pool q).2.length := by
      unfold askPool
      split
      · rfl
      · simp only [List.length_append, List.length_singleton]
        omega
    omega

theorem kind_foldl_askPool (hlen : pool.2.length = pool.1.length) {i : ℕ} {k : ConstKind}
    (h : (reqs.foldl askPool pool).2[i]? = some k) :
    pool.2[i]? = some k ∨
      ∃ q ∈ reqs, (reqs.foldl askPool pool).1[i]? = some q.value ∧ q.kind = k := by
  induction reqs generalizing pool with
  | nil => exact Or.inl h
  | cons q reqs ih =>
    rw [List.foldl_cons] at h ⊢
    have hlen' : (askPool pool q).2.length = (askPool pool q).1.length := by
      unfold askPool
      split
      · exact hlen
      · simp only [List.length_append, hlen, List.length_singleton]
    rcases ih hlen' h with hold | ⟨q', hq', hval, hkind⟩
    · unfold askPool at hold
      split at hold
      · exact Or.inl hold
      · rename_i hnew
        by_cases hi : i < pool.2.length
        · rw [List.getElem?_append_left hi] at hold
          exact Or.inl hold
        · obtain ⟨hlt, hget⟩ := List.getElem?_eq_some_iff.mp hold
          rw [List.length_append, List.length_singleton] at hlt
          obtain rfl : i = pool.2.length := by omega
          rw [List.getElem?_concat_length] at hold
          refine Or.inr ⟨q, List.mem_cons_self, ?_, Option.some.inj hold⟩
          have hhere : (askPool pool q).1[pool.2.length]? = some q.value := by
            unfold askPool
            rw [if_neg hnew, hlen]
            exact List.getElem?_concat_length
          obtain ⟨rest, hrest⟩ := prefix_foldl_askPool reqs (askPool pool q)
          rw [← hrest, List.getElem?_append_left (List.getElem?_eq_some_iff.mp hhere).1]
          exact hhere
    · exact Or.inr ⟨q', List.mem_cons_of_mem _ hq', hval, hkind⟩

end Pool

/-! ## The emitted function -/

theorem filter_resolveBranches {u : FunctionNode} (hu : BranchesPlain u) :
    u.resolveBranches.instructions.filter (fun i => readsPool i.opcode) =
      u.instructions.filter fun i => readsPool i.opcode := by
  have hmap := map_resolveBranches
    (f := fun i : Instruction => if readsPool i.opcode then some i else none) (u := u) ?_
  · have hfilter : ∀ code : List Instruction, code.filter (fun i => readsPool i.opcode) =
        (code.map fun i => if readsPool i.opcode then some i else none).filterMap id := by
      intro code
      simp [List.filterMap_map, ← List.filterMap_eq_filter, Option.guard]
    rw [hfilter, hfilter, hmap]
  · intro b hb
    obtain ⟨i, hi, hplain⟩ := hu b hb
    exact ⟨i, hi, fun v => by simp [hplain]⟩

/-- The requests of a body in a function. -/
def bodyRequests (fn : FunctionNode) (body : Node) : List Request :=
  (requests (fun x => (fn.lookupVariable x).isSome) body fn.strings).1

theorem asked_emitBody {fn fn' : FunctionNode} {body : Node} (hfn : fn.unresolvedBranches = [])
    (h : fn.emitBody body = .ok fn') :
    (fn'.constants, fn'.constantsKind) =
        (bodyRequests fn body).foldl askPool ([], fn.constantsKind) ∧
      List.Forall₂ (Loads fn'.constants) (fn'.instructions.filter fun i => readsPool i.opcode)
        (bodyRequests fn body) := by
  obtain ⟨result, f₁, hf₁, rfl⟩ := emitBody_ok h
  have hasks : Asks fn.lookupVariable (emit body) _ := (asks_emit body).1
  obtain ⟨hasked, -⟩ := hasks hf₁ rfl
  have hplain : BranchesPlain fn.beginBody := by
    have hnone : fn.beginBody.unresolvedBranches = [] := hfn
    intro b hb
    rw [hnone] at hb
    cases hb
  have happend : Asked f₁ (f₁.appendReturn result) [] := by
    unfold FunctionNode.appendReturn
    split
    · exact Asked.refl f₁
    · exact asked_push f₁ rfl
  have hall := hasked.trans happend
  rw [List.append_nil] at hall
  refine ⟨hall.pool, ?_⟩
  obtain ⟨code, hcode, hloads⟩ := hall.code
  rw [filter_resolveBranches (hall.branches hplain), hcode, List.filter_append]
  have hprologue : fn.beginBody.instructions.filter (fun i => readsPool i.opcode) = [] := by
    rw [List.filter_eq_nil_iff]
    intro i hi
    obtain ⟨k, hk, rfl⟩ := List.mem_mapIdx.mp hi
    simp [readsPool]
  rw [hprologue, List.nil_append]
  exact hloads

/-! ## When the pool agrees -/

/-- The condition under which the pool of a body agrees with its requests. -/
structure PoolCondition (fn : FunctionNode) (body : Node) : Prop where
  /-- the function has not been emitted before -/
  fresh : fn.constantsKind = []
  /-- no value is asked for both as a string and as something else -/
  consistent : ∀ q ∈ bodyRequests fn body, ∀ q' ∈ bodyRequests fn body, q.value = q'.value →
    q.kind = .STRING → q'.kind = .STRING
  /-- an index fits a byte -/
  few : ((bodyRequests fn body).map Request.value).toFinset.card ≤ 256
  /-- the offset of a string fits 32 bits -/
  offsets : ∀ q ∈ bodyRequests fn body, q.kind = .STRING → q.value.toNat < 2 ^ 32

theorem exec_load {rt : Runtime} {m : Memory} {f : StackFrame} {i : Instruction}
    (hi : readsPool i.opcode = true) (ha : i.a < MAX_REGISTERS) :
    exec rt m f i =
      match f.symbol i.b with
      | none => .ok .undefined
      | some raw => .ok (.continue (f.put i.a (loadedValue rt i.opcode raw)) m) := by
  have hstatic : exec rt m f i = execStatic m f i (loadedValue rt i.opcode) := by
    obtain ⟨op, a, b, c⟩ := i
    cases op <;> first | rfl | cases hi
  rw [hstatic]
  unfold execStatic
  rw [StackFrame.getRegister_of_lt f ha]
  simp only [bind, Except.bind]
  cases f.symbol i.b <;> rfl

theorem loadedValue_injective {op : Opcode} {v w : Word}
    (h : loadedValue bareRuntime op v = loadedValue bareRuntime op w) : v = w := by
  unfold loadedValue at h
  split at h <;> injection h

theorem loadsAsked_iff {fn : FunctionNode} {i : Instruction} {q : Request}
    (hop : i.opcode = q.op) (hq : readsPool q.op = true) :
    LoadsAsked fn i q ↔
      ∀ relocate, (loaded relocate fn).symbols[i.b]? = some (askedConstant relocate q) := by
  constructor
  · intro h relocate
    have hexec := h bareRuntime (fun _ => 0) (StackFrame.fresh (loaded relocate fn)) relocate 0
      (by decide) rfl
    rw [exec_load (by rw [hop]; exact hq) (show 0 < MAX_REGISTERS by decide)] at hexec
    have hsymbol : (StackFrame.fresh (loaded relocate fn)).symbol i.b =
        (loaded relocate fn).symbols[i.b]? := rfl
    simp only [hsymbol] at hexec
    cases hget : (loaded relocate fn).symbols[i.b]? with
    | none =>
      rw [hget] at hexec
      cases hexec
    | some raw =>
      rw [hget] at hexec
      have hframe : (StackFrame.fresh (loaded relocate fn)).put 0 (loadedValue bareRuntime i.opcode raw) =
          (StackFrame.fresh (loaded relocate fn)).put 0
            (loadedValue bareRuntime q.op (askedConstant relocate q)) := by
        injection hexec with heffect
        injection heffect
      have hvalue := congrFun (congrArg StackFrame.registers hframe) 0
      simp only [StackFrame.put_registers, Function.update_self, hop] at hvalue
      rw [loadedValue_injective hvalue]
  · intro h rt m f relocate a ha hf
    rw [exec_load (by show readsPool i.opcode = true; rw [hop]; exact hq) ha]
    have hsymbol : f.symbol i.b = some (askedConstant relocate q) := by
      unfold StackFrame.symbol
      rw [hf]
      exact h relocate
    simp only [hsymbol, hop]

/-- The slot a load of the request reads holds what was asked for. -/
def SlotHolds (fn : FunctionNode) (q : Request) : Prop :=
  ∀ relocate, (loaded relocate fn).symbols[fn.constants.idxOf q.value % 256]? =
    some (askedConstant relocate q)

theorem forall₂_loadsAsked_iff {fn : FunctionNode} {code : List Instruction}
    {asked : List Request} (h : List.Forall₂ (Loads fn.constants) code asked)
    (hcode : ∀ i ∈ code, readsPool i.opcode = true) :
    List.Forall₂ (LoadsAsked fn) code asked ↔ ∀ q ∈ asked, SlotHolds fn q := by
  induction h with
  | nil => simp
  | @cons i q code asked hload _ ih =>
    obtain ⟨hi, hrest⟩ := List.forall_mem_cons.mp hcode
    obtain ⟨-, reg, rfl⟩ := hload
    have hbyte : (Instruction.setImm16 ⟨q.op, reg, 0, 0⟩ (u16 (fn.constants.idxOf q.value))).b =
        fn.constants.idxOf q.value % 256 := by
      show fn.constants.idxOf q.value % 65536 % 256 = _
      omega
    have hone : LoadsAsked fn (Instruction.setImm16 ⟨q.op, reg, 0, 0⟩
        (u16 (fn.constants.idxOf q.value))) q ↔ SlotHolds fn q := by
      rw [loadsAsked_iff rfl hi, hbyte]
      rfl
    rw [List.forall₂_cons, hone, ih hrest, List.forall_mem_cons]

theorem slotHolds_iff {fn : FunctionNode} {q : Request} :
    SlotHolds fn q ↔ ∃ w, fn.constants[fn.constants.idxOf q.value % 256]? = some w ∧
      ((fn.constantsKind[fn.constants.idxOf q.value % 256]? = some .STRING ↔ q.kind = .STRING) ∧
        q.value = if q.kind = .STRING then (w.truncate 32).zeroExtend 64 else w) := by
  unfold SlotHolds loaded askedConstant
  simp only [List.getElem?_mapIdx, Option.map_eq_some_iff]
  constructor
  · intro h
    obtain ⟨w, hw, hid⟩ := h id
    refine ⟨w, hw, ?_⟩
    have hall : ∀ relocate : Word → Word,
        (if fn.constantsKind[fn.constants.idxOf q.value % 256]? = some .STRING then
          relocate ((w.truncate 32).zeroExtend 64) else w) =
        if q.kind = .STRING then relocate q.value else q.value := by
      intro relocate
      obtain ⟨w', hw', heq⟩ := h relocate
      rw [hw] at hw'
      rwa [← Option.some.inj hw'] at heq
    have hne : ∀ v : Word, v + 1 ≠ v := by
      intro v hv
      have hone : (1 : Word) = 0 := by
        rw [BitVec.add_comm] at hv
        exact BitVec.add_left_eq_self.mp hv
      exact absurd hone (by decide)
    by_cases hslot : fn.constantsKind[fn.constants.idxOf q.value % 256]? = some .STRING
    · by_cases hq : q.kind = .STRING
      · simp only [hslot, hq, if_true, id] at hid
        simp only [hslot, hq, if_true, true_and]
        exact hid.symm
      · have hcontra := hall fun _ => q.value + 1
        rw [if_pos hslot, if_neg hq] at hcontra
        exact absurd hcontra (hne _)
    · by_cases hq : q.kind = .STRING
      · have hcontra := hall fun _ => w + 1
        rw [if_neg hslot, if_pos hq] at hcontra
        exact absurd hcontra.symm (hne _)
      · have heq := hall id
        rw [if_neg hslot, if_neg hq] at heq
        refine ⟨iff_of_false hslot hq, ?_⟩
        rw [if_neg hq]
        exact heq.symm
  · rintro ⟨w, hw, hkind, hvalue⟩ relocate
    refine ⟨w, hw, ?_⟩
    by_cases hq : q.kind = .STRING
    · rw [if_pos (hkind.mpr hq), if_pos hq]
      rw [if_pos hq] at hvalue
      rw [hvalue]
    · rw [if_neg fun h => hq (hkind.mp h), if_neg hq]
      rw [if_neg hq] at hvalue
      exact hvalue.symm

/-- INTERNAL: **the pool agrees with the requests exactly under the condition**.
SRCLINE: FunctionNode.cpp:126-133, 207-366, VirtualMachine.cpp:718-762 -/
theorem poolAgrees_iff (fn fn' : FunctionNode) (body : Node)
    (hfn : fn.unresolvedBranches = []) (h : fn.emitBody body = .ok fn') :
    PoolAgrees fn' (bodyRequests fn body) ↔ PoolCondition fn body := by
  obtain ⟨hpool, hloads⟩ := asked_emitBody hfn h
  have hcs : fn'.constants = ((bodyRequests fn body).foldl askPool ([], fn.constantsKind)).1 :=
    congrArg Prod.fst hpool
  have hks : fn'.constantsKind =
      ((bodyRequests fn body).foldl askPool ([], fn.constantsKind)).2 := congrArg Prod.snd hpool
  have hmem : ∀ v, v ∈ fn'.constants ↔ ∃ q ∈ bodyRequests fn body, q.value = v := by
    intro v
    rw [hcs, mem_foldl_askPool]
    simp
  have hnodup : fn'.constants.Nodup := by
    rw [hcs]
    exact nodup_foldl_askPool List.nodup_nil
  have hlen : fn'.constantsKind.length = fn'.constants.length + fn.constantsKind.length := by
    have hfold := length_foldl_askPool (bodyRequests fn body) ([], fn.constantsKind)
    rw [← hcs, ← hks] at hfold
    exact hfold
  have hcard : ((bodyRequests fn body).map Request.value).toFinset.card = fn'.constants.length := by
    rw [← List.toFinset_card_of_nodup hnodup]
    congr 1
    ext v
    rw [List.mem_toFinset, List.mem_toFinset, hmem, List.mem_map]
  have hslots := forall₂_loadsAsked_iff hloads (by simp)
  constructor
  · rintro ⟨hforall, hkinds, -⟩
    have hslot := fun q hq => slotHolds_iff.mp (hslots.mp hforall q hq)
    refine ⟨?_, ?_, ?_, ?_⟩
    · exact List.eq_nil_of_length_eq_zero (by omega)
    · intro q hq q' hq' hval hkind
      obtain ⟨w, -, hmark, -⟩ := hslot q hq
      obtain ⟨w', -, hmark', -⟩ := hslot q' hq'
      rw [← hval] at hmark'
      exact hmark'.mp (hmark.mpr hkind)
    · rw [hcard]
      by_contra hmany
      -- the first value that does not fit is read where the first of all is
      have h256 : 256 < fn'.constants.length := by omega
      obtain ⟨q, hq, hqv⟩ := (hmem _).mp (List.getElem_mem h256)
      obtain ⟨q₀, hq₀, hqv₀⟩ := (hmem _).mp (List.getElem_mem (show 0 < fn'.constants.length by omega))
      have hidx : fn'.constants.idxOf q.value = 256 := by
        rw [hqv]
        exact hnodup.idxOf_getElem 256 h256
      have hidx₀ : fn'.constants.idxOf q₀.value = 0 := by
        rw [hqv₀]
        exact hnodup.idxOf_getElem 0 (by omega)
      obtain ⟨w, hw, hmark, hval⟩ := hslot q hq
      obtain ⟨w₀, hw₀, hmark₀, hval₀⟩ := hslot q₀ hq₀
      rw [hidx] at hw hmark
      rw [hidx₀] at hw₀ hmark₀
      have hsame : q.kind = .STRING ↔ q₀.kind = .STRING := hmark.symm.trans hmark₀
      have hwsame : w = w₀ := Option.some.inj (hw.symm.trans hw₀)
      have hvsame : q.value = q₀.value := by
        rw [hval, hval₀, hwsame]
        by_cases hk : q.kind = .STRING
        · rw [if_pos hk, if_pos (hsame.mp hk)]
        · rw [if_neg hk, if_neg fun h => hk (hsame.mpr h)]
      rw [hvsame, hidx₀] at hidx
      cases hidx
    · intro q hq hkind
      obtain ⟨w, -, -, hval⟩ := hslot q hq
      rw [if_pos hkind] at hval
      rw [hval, BitVec.truncate_eq_setWidth, BitVec.zeroExtend_eq_setWidth, BitVec.toNat_setWidth,
        BitVec.toNat_setWidth]
      exact Nat.lt_of_le_of_lt (Nat.mod_le _ _) (Nat.mod_lt _ (by decide))
  · rintro ⟨hfresh, hconsistent, hfew, hoffsets⟩
    rw [hcard] at hfew
    have hlen' : fn'.constantsKind.length = fn'.constants.length := by
      rw [hlen, hfresh]
      rfl
    -- the kind in a slot is that of some request for its value
    have hkind : ∀ (i : ℕ) k, fn'.constantsKind[i]? = some k →
        ∃ q ∈ bodyRequests fn body, fn'.constants[i]? = some q.value ∧ q.kind = k := by
      intro i k hk
      rw [hks] at hk
      rcases kind_foldl_askPool (by rw [hfresh]; rfl) hk with hold | hnew
      · rw [hfresh] at hold
        cases hold
      · rw [hcs]
        exact hnew
    have hmarks : ∀ (i : ℕ) (v : Word), fn'.constants[i]? = some v →
        (fn'.constantsKind[i]? = some ConstKind.STRING ↔
          ∃ q ∈ bodyRequests fn body, q.value = v ∧ q.kind = .STRING) := by
      intro i v hv
      constructor
      · intro hmark
        obtain ⟨q, hq, hval, hk⟩ := hkind i _ hmark
        exact ⟨q, hq, Option.some.inj (hval.symm.trans hv), hk⟩
      · rintro ⟨q, hq, hval, hk⟩
        have hi : i < fn'.constantsKind.length := by
          rw [hlen']
          exact (List.getElem?_eq_some_iff.mp hv).1
        obtain ⟨q', hq', hval', hk'⟩ := hkind i _ (List.getElem?_eq_getElem hi)
        have hsame : q.value = q'.value := by
          rw [hval]
          exact Option.some.inj (hv.symm.trans hval')
        rw [List.getElem?_eq_getElem hi, ← hk', hconsistent q hq q' hq' hsame hk]
    refine ⟨hslots.mpr ?_, hlen', hmarks⟩
    intro q hq
    have hin : q.value ∈ fn'.constants := (hmem _).mpr ⟨q, hq, rfl⟩
    have hlt : fn'.constants.idxOf q.value < fn'.constants.length := List.idxOf_lt_length_iff.mpr hin
    have hget : fn'.constants[fn'.constants.idxOf q.value]? = some q.value := by
      rw [List.getElem?_eq_getElem hlt, List.getElem_idxOf]
    rw [slotHolds_iff, Nat.mod_eq_of_lt (by omega)]
    refine ⟨q.value, hget, ?_, ?_⟩
    · rw [hmarks _ _ hget]
      constructor
      · rintro ⟨q', hq', hval, hk⟩
        exact hconsistent q' hq' q hq hval hk
      · intro hk
        exact ⟨q, hq, rfl, hk⟩
    · by_cases hk : q.kind = .STRING
      · have hoff := hoffsets q hq hk
        rw [if_pos hk]
        refine BitVec.eq_of_toNat_eq ?_
        rw [BitVec.truncate_eq_setWidth, BitVec.zeroExtend_eq_setWidth, BitVec.toNat_setWidth,
          BitVec.toNat_setWidth, Nat.mod_eq_of_lt (a := q.value.toNat) hoff,
          Nat.mod_eq_of_lt q.value.isLt]
      · rw [if_neg hk]

/-! ## Two functions -/

/-- A function that has not been emitted, in a file without strings. -/
def emptyFunction : FunctionNode := .new (some .empty)

/-- The function after its body `(0 "a")` was emitted: one constant for both. -/
def zeroAndString : FunctionNode :=
  { emptyFunction with
    nextTempReg := 2
    instructions := [⟨.LoadStaticI64Imm, 0, 0, 0⟩, ⟨.LoadStaticPointer, 1, 0, 0⟩,
      ⟨.Return, 1, 0, 0⟩]
    constants := [0]
    constantsKind := [.INT]
    strings := some ⟨[97, 0], [("a", 0)]⟩ }

/-- The function after its body `(1 "a")` was emitted. -/
def oneAndString : FunctionNode :=
  { emptyFunction with
    nextTempReg := 2
    instructions := [⟨.LoadStaticI64Imm, 0, 0, 0⟩, ⟨.LoadStaticPointer, 1, 1, 0⟩,
      ⟨.Return, 1, 0, 0⟩]
    constants := [1, 0]
    constantsKind := [.INT, .STRING]
    strings := some ⟨[97, 0], [("a", 0)]⟩ }

/-- INTERNAL: the first string of a file has the offset zero; after the literal `0` it is
neither marked nor loaded as a string.
SRCLINE: FunctionNode.cpp:126-133 -/
theorem addConstant_confuses_zero_and_string :
    emptyFunction.emitBody (.sequenceNode [.constInt 0, .constString "a"]) = .ok zeroAndString ∧
      ¬ PoolAgrees zeroAndString
        (bodyRequests emptyFunction (.sequenceNode [.constInt 0, .constString "a"])) := by
  refine ⟨by with_unfolding_all decide, ?_⟩
  intro h
  have hmark := (h.marks 0 0 rfl).mpr ⟨⟨.LoadStaticPointer, 0, .STRING⟩,
    by with_unfolding_all decide, rfl, rfl⟩
  cases hmark

theorem poolAgrees_oneAndString :
    PoolAgrees oneAndString
      (bodyRequests emptyFunction (.sequenceNode [.constInt 1, .constString "a"])) := by
  refine (poolAgrees_iff emptyFunction oneAndString
    (.sequenceNode [.constInt 1, .constString "a"]) rfl (by with_unfolding_all decide)).mpr ?_
  exact ⟨rfl, by decide, by with_unfolding_all decide,
    by with_unfolding_all decide⟩

end Soot.Analysis
