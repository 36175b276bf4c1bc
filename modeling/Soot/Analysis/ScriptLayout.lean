import Soot.Model.StateScripts

/-!
# Where the functions of a file lie

`make_binary` looks names up while the table still grows: the offsets it finds are those of a
shorter table, relative to a payload that moves by the same amount. So the pointers of a state
script come out as the final offsets of the last element of each name
(`makeBinary_scripts`).
-/

set_option autoImplicit false

namespace Soot.Analysis

open Soot.Program Soot.Model

variable {els : List ProgramBinaryElement}

/-! ## Offsets -/

@[simp] theorem payloadsSize_cons (el : ProgramBinaryElement) (els : List ProgramBinaryElement) :
    payloadsSize (el :: els) = el.size + payloadsSize els := by
  simp [payloadsSize]

theorem payloadsSize_take_lt {i j : ℕ} (hij : i < j)
    (hj : j ≤ els.length) : payloadsSize (els.take i) < payloadsSize (els.take j) := by
  induction els generalizing i j with
  | nil =>
    simp only [List.length_nil] at hj
    omega
  | cons el els ih =>
    obtain ⟨j, rfl⟩ : ∃ n, j = n + 1 := ⟨j - 1, by omega⟩
    have hpos := el.nonempty
    cases i with
    | zero =>
      simp only [List.take_zero, List.take_succ_cons, payloadsSize_cons]
      simp only [payloadsSize, List.map_nil, List.sum_nil]
      omega
    | succ i =>
      simp only [List.take_succ_cons, payloadsSize_cons]
      have := ih (i := i) (j := j) (by omega) (by simpa using hj)
      omega

theorem payloadsSize_take_inj {i j : ℕ} (hi : i < els.length)
    (hj : j < els.length) (h : payloadsSize (els.take i) = payloadsSize (els.take j)) : i = j := by
  rcases Nat.lt_trichotomy i j with hlt | heq | hgt
  · have := payloadsSize_take_lt hlt (Nat.le_of_lt hj)
    omega
  · exact heq
  · have := payloadsSize_take_lt hgt (Nat.le_of_lt hi)
    omega

theorem mem_elementOffsets {start : ℕ}
    {el : ProgramBinaryElement} {offset : ℕ} :
    (el, offset) ∈ elementOffsets start els ↔
      ∃ i : ℕ, els[i]? = some el ∧ offset = start + payloadsSize (els.take i) := by
  induction els generalizing start with
  | nil => simp [elementOffsets]
  | cons e els ih =>
    rw [elementOffsets, List.mem_cons, ih]
    constructor
    · rintro (heq | ⟨i, hi, rfl⟩)
      · obtain ⟨rfl, rfl⟩ := Prod.mk.inj heq
        exact ⟨0, by simp, by simp [payloadsSize]⟩
      · exact ⟨i + 1, by simpa using hi, by simp; omega⟩
    · rintro ⟨i, hi, rfl⟩
      cases i with
      | zero =>
        left
        simp only [List.getElem?_cons_zero, Option.some.injEq] at hi
        subst hi
        simp [payloadsSize]
      | succ i => exact .inr ⟨i, by simpa using hi, by simp; omega⟩

/-! ## The last element of a name -/

/-- The index of the last element that the table knows by a name. -/
def lastNamed (getString : Word → String) (name : String) : List ProgramBinaryElement → Option ℕ
  | [] => none
  | el :: els =>
    match lastNamed getString name els with
    | some i => some (i + 1)
    | none => if tableName getString el.name = name then some 0 else none

section Named

variable {getString : Word → String} {name : String}

theorem lastNamed_eq_none :
    lastNamed getString name els = none ↔ ∀ e ∈ els, tableName getString e.name ≠ name := by
  induction els with
  | nil => simp [lastNamed]
  | cons el els ih =>
    rw [lastNamed]
    cases hlast : lastNamed getString name els with
    | some i =>
      rw [hlast] at ih
      simp only [reduceCtorEq, false_iff] at ih ⊢
      intro h
      exact ih fun e he => h e (List.mem_cons_of_mem _ he)
    | none =>
      have hrest := ih.mp hlast
      by_cases hel : tableName getString el.name = name
      · simp [hel]
      · simpa [hel] using hrest

theorem lastNamed_eq_some {i : ℕ}
    (h : lastNamed getString name els = some i) :
    (∃ el, els[i]? = some el ∧ tableName getString el.name = name) ∧
      ∀ (j : ℕ) (e : ProgramBinaryElement), i < j → els[j]? = some e →
        tableName getString e.name ≠ name := by
  induction els generalizing i with
  | nil => simp [lastNamed] at h
  | cons el els ih =>
    rw [lastNamed] at h
    cases hlast : lastNamed getString name els with
    | some i' =>
      rw [hlast] at h
      obtain rfl := Option.some.inj h
      obtain ⟨⟨e, he, hname⟩, hafter⟩ := ih hlast
      refine ⟨⟨e, by simpa using he, hname⟩, ?_⟩
      intro j e' hij he'
      cases j with
      | zero => omega
      | succ j => exact hafter j e' (by omega) (by simpa using he')
    | none =>
      rw [hlast] at h
      simp only [Option.ite_none_right_eq_some, Option.some.injEq] at h
      obtain ⟨hname, rfl⟩ := h
      refine ⟨⟨el, by simp, hname⟩, ?_⟩
      intro j e hj he
      cases j with
      | zero => omega
      | succ j =>
        exact lastNamed_eq_none.mp hlast e (List.mem_of_getElem? (by simpa using he))

theorem entryOffsets_eq (els : List ProgramBinaryElement) (running : ℕ)
    (offsets : String → Option ℕ) :
    entryOffsets getString running els offsets name =
      match lastNamed getString name els with
      | some i => some (running + payloadsSize (els.take i))
      | none => offsets name := by
  induction els generalizing running offsets with
  | nil => rfl
  | cons el els ih =>
    rw [entryOffsets, ih, lastNamed]
    cases hlast : lastNamed getString name els with
    | some i => simp; omega
    | none =>
      by_cases hel : tableName getString el.name = name
      · have hel' : getString (stringId el.name) = name := hel
        simp [hel, hel', payloadsSize]
      · have hel' : name ≠ getString (stringId el.name) := fun h => hel h.symm
        simp [hel, Function.update_of_ne hel']

end Named

/-! ## Pointers -/

section Adjust

variable (f : String → ℤ) (payload : ℕ) (typeName : String)

theorem fillGroup_adjust (def_ : StateDef) :
    (fillGroup f typeName def_).map (·.adjust payload) =
      fillGroup (fun name => adjustPointer payload (f name)) typeName def_ := by
  rw [fillGroup, fillGroup, List.map_map]
  refine List.map_congr_left fun tr _ => ?_
  cases hbody : tr.body <;> simp [SsTrack.adjust, SsLambda.adjust, hbody]

theorem handlerBlock_adjust (def_ : StateDef) (i : ℕ) (h : StateHandlerBody) :
    (handlerBlock f typeName def_ i h).adjust payload =
      handlerBlock (fun name => adjustPointer payload (f name)) typeName def_ i h := by
  by_cases hanchor : anchor def_ = some i <;>
    simp [SsOnBlock.adjust, handlerBlock, hanchor, fillGroup_adjust]

theorem onBlocks_adjust (def_ : StateDef) :
    (onBlocks f typeName def_).map (·.adjust payload) =
      onBlocks (fun name => adjustPointer payload (f name)) typeName def_ := by
  have hhandlers : (def_.handlers.mapIdx (handlerBlock f typeName def_)).map (·.adjust payload) =
      def_.handlers.mapIdx
        (handlerBlock (fun name => adjustPointer payload (f name)) typeName def_) := by
    refine List.ext_getElem? fun i => ?_
    simp [List.getElem?_mapIdx, Function.comp_def, handlerBlock_adjust]
  rw [onBlocks, onBlocks, List.map_append, hhandlers]
  congr 1
  · split
    · simp [SsOnBlock.adjust, adjustPointer, fillGroup_adjust]
    · rfl

theorem buildStates_adjust (defs : List StateDef) :
    (buildStates f typeName defs).map (·.adjust payload) =
      buildStates (fun name => adjustPointer payload (f name)) typeName defs := by
  rw [buildStates, buildStates, List.map_map]
  refine List.map_congr_left fun d _ => ?_
  simp [SsState.adjust, onBlocks_adjust]

end Adjust

/-- The offset, in the file, of the last element of a name; zero when there is none. -/
def linkedPointer (getString : Word → String) (start : ℕ) (els : List ProgramBinaryElement)
    (name : String) : ℤ :=
  match lastNamed getString name els with
  | some i => (start + payloadsSize (els.take i) : ℕ)
  | none => 0

theorem adjustPointer_lookupLambda {getString : Word → String}
    {start payload shift : ℕ} (hpayload : start + payloadsSize els ≤ payload) (name : String) :
    adjustPointer (payload + shift)
      (lookupLambda (entryOffsets getString start els fun _ => none) payload name) =
      linkedPointer getString (start + shift) els name := by
  rw [lookupLambda, entryOffsets_eq, linkedPointer]
  cases hlast : lastNamed getString name els with
  | none => simp [adjustPointer]
  | some i =>
    obtain ⟨⟨el, hel, -⟩, -⟩ := lastNamed_eq_some hlast
    have hi : i < els.length := (List.getElem?_eq_some_iff.mp hel).1
    have hlt : payloadsSize (els.take i) < payloadsSize els := by
      simpa using payloadsSize_take_lt hi (Nat.le_refl els.length)
    have hne : ((start + payloadsSize (els.take i) : ℕ) : ℤ) - payload ≠ 0 := by omega
    simp only [adjustPointer, hne, if_false]
    push_cast
    omega

/-! ## Placed scripts -/

section Placed

variable {host : ScriptHost}

theorem of_mem_placeScripts {offsets : String → Option ℕ} {running : ℕ} {scripts : List String}
    {s : PlacedScript}
    (h : s ∈ placeScripts host offsets running scripts) :
    s.typeName ∈ scripts ∧ running ≤ s.payload ∧ ∃ t,
      host.types.lookupTypeNoThrow s.typeName = some t ∧ t.fields.isSome ∧
      s.states = buildStates (lookupLambda offsets s.payload) s.typeName t.stateDefs := by
  induction scripts generalizing running with
  | nil => simp [placeScripts] at h
  | cons typeName scripts ih =>
    have hskip : ∀ {running' : ℕ}, running ≤ running' →
        s ∈ placeScripts host offsets running' scripts →
        s.typeName ∈ typeName :: scripts ∧ running ≤ s.payload ∧ ∃ t,
          host.types.lookupTypeNoThrow s.typeName = some t ∧ t.fields.isSome ∧
          s.states = buildStates (lookupLambda offsets s.payload) s.typeName t.stateDefs := by
      intro running' hle hs
      obtain ⟨hmem, hpayload, ht⟩ := ih hs
      exact ⟨List.mem_cons_of_mem _ hmem, Nat.le_trans hle hpayload, ht⟩
    rw [placeScripts] at h
    split at h
    · exact hskip (Nat.le_refl _) h
    · rename_i t ht
      split at h
      · rename_i hstruct
        rcases List.mem_cons.mp h with rfl | hs
        · exact ⟨List.mem_cons_self, Nat.le_refl _, t, ht, hstruct, rfl⟩
        · exact hskip (Nat.le_add_right _ _) hs
      · exact hskip (Nat.le_refl _) h

theorem exists_mem_placeScripts (offsets : String → Option ℕ) {scripts : List String}
    {typeName : String} (hmem : typeName ∈ scripts) {t : SootType}
    (ht : host.types.lookupTypeNoThrow typeName = some t) (hstruct : t.fields.isSome)
    (running : ℕ) : ∃ s ∈ placeScripts host offsets running scripts, s.typeName = typeName := by
  induction scripts generalizing running with
  | nil => cases hmem
  | cons name scripts ih =>
    rw [placeScripts]
    rcases List.mem_cons.mp hmem with rfl | htail
    · simp [ht, hstruct]
    · split
      · exact ih htail running
      · split
        · obtain ⟨s, hs, hname⟩ := ih htail _
          exact ⟨s, List.mem_cons_of_mem _ hs, hname⟩
        · exact ih htail running

end Placed

/-- Where the elements start in the finished file. -/
def elementsStart (host : ScriptHost) (file : ScriptFile) (elements : List ProgramBinaryElement) :
    ℕ :=
  let start := tableStart + elements.length * tableEntrySize
  let offsets := entryOffsets host.getString start elements fun _ => none
  let placed := placeScripts host offsets (start + payloadsSize elements) file.scripts
  start + (placed.length + file.laterEntries) * tableEntrySize

/-- The state scripts of the finished file point, under every name, to the last element of that
name, wherever the rest of the table and the other scripts have moved it. -/
theorem mem_makeBinary_scripts {host : ScriptHost} {file : ScriptFile}
    {elements : List ProgramBinaryElement} {script : String × List SsState} :
    script ∈ (makeBinary host file elements).scripts ↔
      script.1 ∈ file.scripts ∧ ∃ t, host.types.lookupTypeNoThrow script.1 = some t ∧
        t.fields.isSome ∧ script.2 = buildStates
          (linkedPointer host.getString (elementsStart host file elements) elements)
          script.1 t.stateDefs := by
  have hstates : ∀ {s : PlacedScript} {running : ℕ} {t : SootType} {shift : ℕ},
      running = tableStart + elements.length * tableEntrySize →
      running + payloadsSize elements ≤ s.payload →
      s.states = buildStates (lookupLambda (entryOffsets host.getString running elements
        fun _ => none) s.payload) s.typeName t.stateDefs →
      s.states.map (·.adjust (s.payload + shift)) = buildStates
        (linkedPointer host.getString (running + shift) elements) s.typeName t.stateDefs := by
    intro s running t shift _ hle hs
    rw [hs, buildStates_adjust]
    congr 1
    funext name
    exact adjustPointer_lookupLambda hle name
  constructor
  · intro h
    obtain ⟨s, hs, rfl⟩ := List.mem_map.mp h
    obtain ⟨hmem, hle, t, ht, hstruct, hbuild⟩ := of_mem_placeScripts hs
    exact ⟨hmem, t, ht, hstruct, hstates rfl hle hbuild⟩
  · rintro ⟨hmem, t, ht, hstruct, hscript⟩
    obtain ⟨s, hs, hname⟩ := exists_mem_placeScripts (entryOffsets host.getString
      (tableStart + elements.length * tableEntrySize) elements fun _ => none) hmem ht hstruct
      (tableStart + elements.length * tableEntrySize + payloadsSize elements)
    obtain ⟨-, hle, t', ht', -, hbuild⟩ := of_mem_placeScripts hs
    obtain rfl : t' = t := by
      rw [hname, ht] at ht'
      exact (Option.some.inj ht').symm
    refine List.mem_map.mpr ⟨s, hs, ?_⟩
    refine Prod.ext hname ?_
    rw [hscript, ← hname]
    exact hstates rfl hle hbuild

end Soot.Analysis
