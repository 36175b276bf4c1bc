import Mathlib.Data.List.Induction
import Soot.Computation.Best
import Soot.Model.MethodTables

/-!
# The owner search and the method tables

The owner search finds the longest declared name, in whatever order the files and their types
come. The first pass of the binary builder asks for a prefix only, so that a function is entered
in the table of every type whose name, a hyphen and one of its methods make the function's name.
-/

set_option autoImplicit false

namespace Soot.Analysis

open Soot.Computation Soot.Program Soot.Model

/-! ## Prefixes -/

theorem hasMethodPrefix_iff {typeName fnName : String} :
    hasMethodPrefix typeName fnName = true ↔
      (methodPrefix typeName).toList <+: fnName.toList := by
  rw [hasMethodPrefix, List.isPrefixOf_iff_prefix]

theorem hasMethodPrefix_functionName (typeName method : String) :
    hasMethodPrefix typeName (functionName typeName method) = true := by
  rw [hasMethodPrefix_iff, functionName, String.toList_append]
  exact List.prefix_append _ _

theorem length_methodPrefix (typeName : String) :
    (methodPrefix typeName).length = typeName.length + 1 := by
  rw [methodPrefix, String.length_append]
  rfl

theorem eq_of_methodPrefix {t u fnName : String} (ht : hasMethodPrefix t fnName = true)
    (hu : hasMethodPrefix u fnName = true)
    (hlength : (methodPrefix t).length = (methodPrefix u).length) : t = u := by
  rw [hasMethodPrefix_iff] at ht hu
  have hchars : (methodPrefix t).toList.length = (methodPrefix u).toList.length := by
    rwa [String.length_toList, String.length_toList]
  have hsame : (methodPrefix t).toList = (methodPrefix u).toList :=
    (List.prefix_of_prefix_length_le ht hu (Nat.le_of_eq hchars)).eq_of_length hchars
  rw [methodPrefix, methodPrefix, String.toList_append, String.toList_append,
    List.append_left_inj] at hsame
  exact String.toList_injective hsame

theorem drop_methodPrefix_eq {typeName fnName method : String}
    (h : hasMethodPrefix typeName fnName = true) :
    String.ofList (fnName.toList.drop (methodPrefix typeName).length) = method ↔
      fnName = functionName typeName method := by
  obtain ⟨rest, hrest⟩ := hasMethodPrefix_iff.mp h
  have hdrop : fnName.toList.drop (methodPrefix typeName).length = rest := by
    rw [← hrest, ← String.length_toList, List.drop_left]
  rw [hdrop]
  constructor
  · rintro rfl
    apply String.toList_injective
    rw [functionName, String.toList_append, String.toList_ofList, hrest]
  · rintro rfl
    rw [functionName, String.toList_append, List.append_cancel_left_eq] at hrest
    rw [hrest, String.ofList_toList]

/-! ## The owner search -/

/-- The length of the prefix of a type in the name of a function, 0 if it is none. -/
def prefixScore (fnName : String) (candidate : FileTypes × String) : ℕ :=
  if hasMethodPrefix candidate.2 fnName then (methodPrefix candidate.2).length else 0

/-- The type declarations of files. -/
def candidates (files : List FileTypes) : List (FileTypes × String) :=
  files.flatMap fun file => file.declared.map fun typeName => (file, typeName)

theorem mem_candidates {files : List FileTypes} {file : FileTypes} {typeName : String} :
    (file, typeName) ∈ candidates files ↔ file ∈ files ∧ typeName ∈ file.declared := by
  simp only [candidates, List.mem_flatMap, List.mem_map, Prod.mk.injEq]
  constructor
  · rintro ⟨f, hf, t, ht, rfl, rfl⟩
    exact ⟨hf, ht⟩
  · rintro ⟨hf, ht⟩
    exact ⟨file, hf, typeName, ht, rfl, rfl⟩

/-- What the search keeps, with the type that the source leaves out. -/
def forgetType (found : Option (FileTypes × String) × ℕ) : Option FileTypes × ℕ :=
  (found.1.map Prod.fst, found.2)

theorem considerType_eq (fnName : String) (file : FileTypes) (typeName : String)
    (found : Option (FileTypes × String) × ℕ) :
    considerType fnName file (forgetType found) typeName =
      forgetType (better (prefixScore fnName) found (file, typeName)) := by
  unfold considerType better prefixScore forgetType
  cases hasMethodPrefix typeName fnName with
  | false => simp
  | true =>
    by_cases hlt : found.2 < (methodPrefix typeName).length
    · simp [hlt]
    · simp [hlt]

theorem ownerSearch_eq (files : List FileTypes) (fnName : String) :
    ownerSearch files fnName = forgetType (best (prefixScore fnName) (candidates files)) := by
  have htypes : ∀ (file : FileTypes) (types : List String)
      (found : Option (FileTypes × String) × ℕ),
      types.foldl (considerType fnName file) (forgetType found) =
        forgetType ((types.map fun typeName => (file, typeName)).foldl
          (better (prefixScore fnName)) found) := by
    intro file types
    induction types with
    | nil => exact fun _ => rfl
    | cons typeName types ih =>
      intro found
      rw [List.foldl_cons, considerType_eq, ih, List.map_cons, List.foldl_cons]
  have hfiles : ∀ (files : List FileTypes) (found : Option (FileTypes × String) × ℕ),
      files.foldl (fun found file => file.declared.foldl (considerType fnName file) found)
          (forgetType found) =
        forgetType ((candidates files).foldl (better (prefixScore fnName)) found) := by
    intro files
    induction files with
    | nil => exact fun _ => rfl
    | cons file files ih =>
      intro found
      rw [List.foldl_cons, htypes, ih]
      simp [candidates, List.foldl_append]
  exact hfiles files (none, 0)

theorem prefixScore_eq {fnName typeName : String} (file : FileTypes)
    (h : hasMethodPrefix typeName fnName = true) :
    prefixScore fnName (file, typeName) = (methodPrefix typeName).length := by
  rw [prefixScore, if_pos h]

theorem recorded_iff (files : List FileTypes) (fnName typeName : String) :
    Recorded files fnName typeName ↔ IsLongest (declaredTypes files) fnName typeName := by
  have hfinds : Finds (prefixScore fnName) (candidates files)
      (best (prefixScore fnName) (candidates files)) := finds_best (candidates files)
  constructor
  · rintro ⟨owner, howner, hsearch, hdeclared, hstart⟩
    rw [ownerSearch_eq, forgetType, Prod.mk.injEq] at hsearch
    refine ⟨List.mem_flatMap.mpr ⟨owner, howner, hdeclared⟩, hstart, fun u hu hpre => ?_⟩
    obtain ⟨file, hfile, hu⟩ := List.mem_flatMap.mp hu
    have hle := hfinds.greatest (file, u) (mem_candidates.mpr ⟨hfile, hu⟩)
    rw [prefixScore_eq file hpre, hsearch.2, length_methodPrefix, length_methodPrefix] at hle
    omega
  · rintro ⟨hmem, hstart, hlongest⟩
    obtain ⟨file, hfile, hdeclared⟩ := List.mem_flatMap.mp hmem
    have hle := hfinds.greatest (file, typeName) (mem_candidates.mpr ⟨hfile, hdeclared⟩)
    rw [prefixScore_eq file hstart, length_methodPrefix] at hle
    rcases hfinds.reached with hnone | ⟨⟨owner, u⟩, hu, hfound, hpos⟩
    · rw [hnone] at hle
      omega
    · obtain ⟨howner, hudecl⟩ := mem_candidates.mp hu
      have hupre : hasMethodPrefix u fnName = true := by
        by_contra hno
        simp [prefixScore, hno] at hpos
      have hscore := prefixScore_eq owner hupre
      have hshort := hlongest u (List.mem_flatMap.mpr ⟨owner, howner, hudecl⟩) hupre
      rw [hfound, hscore, length_methodPrefix] at hle
      have hsame : (methodPrefix typeName).length = (methodPrefix u).length := by
        rw [length_methodPrefix, length_methodPrefix]
        omega
      obtain rfl := eq_of_methodPrefix hstart hupre hsame
      refine ⟨owner, howner, ?_, hudecl, hstart⟩
      rw [ownerSearch_eq, hfound, hscore]
      rfl

/-! ## The method tables -/

section Tables

variable {totalEntries : ℕ} {name : String}

/-- The pass of `lastOffset`. -/
def lastPass (totalEntries : ℕ) (name : String) (elements : List (String × ℕ)) : ℕ × ℕ :=
  elements.foldl (fun (pass : ℕ × ℕ) element =>
    (pass.1 + element.2, if element.1 = name then pass.1 else pass.2))
    (tableStart + totalEntries * tableEntrySize, 0)

theorem lastPass_concat (totalEntries : ℕ) (name : String) (elements : List (String × ℕ))
    (e : String × ℕ) : lastPass totalEntries name (elements ++ [e]) =
      ((lastPass totalEntries name elements).1 + e.2,
        if e.1 = name then (lastPass totalEntries name elements).1
        else (lastPass totalEntries name elements).2) := by
  rw [lastPass, List.foldl_concat]
  rfl

theorem tableStart_le_lastPass (elements : List (String × ℕ)) :
    tableStart ≤ (lastPass totalEntries name elements).1 := by
  induction elements using List.reverseRecOn with
  | nil => exact Nat.le_add_right _ _
  | append_singleton elements e ih =>
    rw [lastPass_concat]
    exact Nat.le_trans ih (Nat.le_add_right _ _)

theorem lastOffset_pos (totalEntries : ℕ) {elements : List (String × ℕ)}
    (h : name ∈ elements.map Prod.fst) :
    0 < lastOffset totalEntries elements name := by
  show 0 < (lastPass totalEntries name elements).2
  induction elements using List.reverseRecOn with
  | nil => simp at h
  | append_singleton elements e ih =>
    rw [lastPass_concat]
    split
    · exact Nat.lt_of_lt_of_le (by decide) (tableStart_le_lastPass elements)
    · next hne =>
      apply ih
      simpa [Ne.symm hne] using h

theorem lastOffset_of_not_mem {elements : List (String × ℕ)}
    (h : name ∉ elements.map Prod.fst) : lastOffset totalEntries elements name = 0 := by
  show (lastPass totalEntries name elements).2 = 0
  induction elements using List.reverseRecOn with
  | nil => rfl
  | append_singleton elements e ih =>
    simp only [List.map_append, List.map_singleton, List.mem_append, List.mem_singleton,
      not_or] at h
    rw [lastPass_concat, if_neg (Ne.symm h.2)]
    exact ih h.1

theorem lookup_recordMethod (totalEntries : ℕ) (typeName method : String)
    (elements : List (String × ℕ)) :
    (elements.foldl (recordMethod typeName) (tableStart + totalEntries * tableEntrySize, [])).1 =
        (lastPass totalEntries (functionName typeName method) elements).1 ∧
      (methodOffsets typeName totalEntries elements).lookup method =
        if functionName typeName method ∈ elements.map Prod.fst then
          some (lastPass totalEntries (functionName typeName method) elements).2
        else none := by
  induction elements using List.reverseRecOn with
  | nil => exact ⟨rfl, rfl⟩
  | append_singleton elements e ih =>
    obtain ⟨hrunning, hlookup⟩ := ih
    rw [methodOffsets] at hlookup ⊢
    rw [List.foldl_concat, lastPass_concat, recordMethod]
    refine ⟨by rw [hrunning], ?_⟩
    by_cases he : e.1 = functionName typeName method
    · have hstart : hasMethodPrefix typeName e.1 = true := by
        rw [he]
        exact hasMethodPrefix_functionName typeName method
      have hrest := (drop_methodPrefix_eq hstart).mpr he
      have hmem : functionName typeName method ∈ (elements ++ [e]).map Prod.fst := by simp [he]
      rw [if_pos hstart, hrest, List.lookup_cons, beq_self_eq_true, if_pos hmem, if_pos he,
        hrunning]
    · have hmem : functionName typeName method ∈ (elements ++ [e]).map Prod.fst ↔
          functionName typeName method ∈ elements.map Prod.fst := by
        simp [Ne.symm he]
      simp only [hmem, if_neg he]
      by_cases hstart : hasMethodPrefix typeName e.1 = true
      · have hrest : ¬ String.ofList (e.1.toList.drop (methodPrefix typeName).length) = method :=
          fun h => he ((drop_methodPrefix_eq hstart).mp h)
        rw [if_pos hstart, List.lookup_cons, beq_eq_false_iff_ne.mpr (Ne.symm hrest)]
        exact hlookup
      · rw [if_neg hstart]
        exact hlookup

theorem lambda_tableRecord (ts : TypeSystem) (elements : List (String × ℕ)) (typeName : String)
    {t : SootType} {id : ℕ} {info : MethodInfo}
    (h : ts.tryLookupMethodById t id = .ok (some info)) (hfields : t.fields.isSome = true) :
    ∃ record, tableRecord ts totalEntries elements typeName t id = some (.ok record) ∧
      record.lambda = lastOffset totalEntries elements (functionName typeName info.name) := by
  refine ⟨_, by rw [tableRecord, if_pos hfields, methodRecord, h]; rfl, ?_⟩
  have hlookup := (lookup_recordMethod totalEntries typeName info.name elements).2
  show ((methodOffsets typeName totalEntries elements).lookup info.name).getD 0 = _
  rw [hlookup]
  split
  · rfl
  · next hmem => exact (lastOffset_of_not_mem hmem).symm

end Tables

theorem tablesAgree_iff (ts : TypeSystem) (files : List FileTypes) (file : FileTypes)
    (totalEntries : ℕ) (elements : List (String × ℕ)) :
    TablesAgree ts files file totalEntries elements ↔ NamesApart ts files file elements := by
  constructor
  · intro h typeName htable t ht id info hinfo hfields hmem
    obtain ⟨record, hrecord, _, hnull⟩ := h typeName htable t ht id info hinfo hfields
    obtain ⟨record', hrecord', hlambda⟩ := lambda_tableRecord ts elements typeName hinfo hfields
    obtain rfl := Except.ok.inj (Option.some.inj (hrecord.symm.trans hrecord'))
    rw [← recorded_iff]
    by_contra hnot
    have hpos := lastOffset_pos totalEntries hmem
    rw [← hlambda, hnull hnot] at hpos
    exact Nat.lt_irrefl 0 hpos
  · intro h typeName htable t ht id info hinfo hfields
    obtain ⟨record, hrecord, hlambda⟩ := lambda_tableRecord ts elements typeName hinfo hfields
    refine ⟨record, hrecord, fun _ => hlambda, fun hnot => ?_⟩
    rw [hlambda]
    apply lastOffset_of_not_mem
    intro hmem
    exact hnot ((recorded_iff _ _ _).mpr (h typeName htable t ht id info hinfo hfields hmem))

theorem ownerResolved_iff {ts : TypeSystem} {files : List FileTypes}
    (hdeclared : ∀ n ∈ declaredTypes files, n ∈ registeredNames ts) (fnName : String) :
    OwnerResolved ts files fnName ↔ OwnerDeclared ts files fnName := by
  constructor
  · intro h typeName hlongest
    exact ((recorded_iff files fnName typeName).mp ((h typeName).mpr hlongest)).mem
  · intro h typeName
    rw [recorded_iff]
    constructor
    · intro hlongest
      -- The longest registered type is declared, so the longest declared one is no shorter.
      let score := fun u : String => if hasMethodPrefix u fnName then u.length + 1 else 0
      have hfinds : Finds score (registeredNames ts) (best score (registeredNames ts)) :=
        finds_best _
      have hscore : ∀ u, hasMethodPrefix u fnName = true → score u = u.length + 1 :=
        fun u hu => if_pos hu
      obtain ⟨u, hmem, hlongest'⟩ : ∃ u, u ∈ registeredNames ts ∧
          IsLongest (registeredNames ts) fnName u := by
        rcases hfinds.reached with hnone | ⟨u, hmem, hfound, hpos⟩
        · have hle := hfinds.greatest typeName (hdeclared _ hlongest.mem)
          rw [hscore _ hlongest.isPrefix, hnone] at hle
          omega
        · have hprefix : hasMethodPrefix u fnName = true := by
            by_contra hno
            simp [score, hno] at hpos
          refine ⟨u, hmem, hmem, hprefix, fun v hv hpre => ?_⟩
          have hle := hfinds.greatest v hv
          rw [hfound, hscore v hpre, hscore u hprefix] at hle
          omega
      have hle := hlongest.longest u (h u hlongest') hlongest'.isPrefix
      exact ⟨hdeclared _ hlongest.mem, hlongest.isPrefix,
        fun v hv hpre => Nat.le_trans (hlongest'.longest v hv hpre) hle⟩
    · intro hlongest
      exact ⟨h typeName hlongest, hlongest.isPrefix,
        fun u hu hpre => hlongest.longest u (hdeclared u hu) hpre⟩

/-- INTERNAL: The recorded owner of a function is the registered type with the longest name exactly
if that type has a type declaration, whatever the order of the files and declarations; the method
tables of a file agree with it exactly if no method of a table has a compiled function of its name
that belongs to a longer type name.
SRCLINE: Compiler.cpp:797-837, FileNode.cpp:842-867 -/
theorem owners_resolved_iff (ts : TypeSystem) (files : List FileTypes)
    (hdeclared : ∀ n ∈ declaredTypes files, n ∈ registeredNames ts) :
    (∀ fnName, OwnerResolved ts files fnName ↔ OwnerDeclared ts files fnName) ∧
    ∀ file totalEntries elements, TablesAgree ts files file totalEntries elements ↔
      NamesApart ts files file elements :=
  ⟨ownerResolved_iff hdeclared, tablesAgree_iff ts files⟩

/-! ## Types whose names begin with that of another -/

/-- A structure with one method, and with one state if it is a script. -/
def structureWith (name : String) (hname : name ≠ "") (method : String) (states : List StateDef) :
    TypeOperation :=
  .deftype ⟨name, hname, "structure", [], [.declare method (.ofName "function") false false], states,
    ⟨none, none, none, none, false, false, false, false⟩⟩

/-- A type `my` with a method `basic-len`, a type `my-basic` with a method `len` and a state
script `my-door`. -/
def prefixTypes : TypeSystem :=
  typesAfter (fun _ _ => true) [structureWith "my" (by decide) "basic-len" [],
    structureWith "my-basic" (by decide) "len" [], structureWith "my-door" (by decide) "open" [⟨"closed", [], []⟩]]

/-- The file of the types and that of the script. -/
def prefixFiles : List FileTypes := [⟨"game", ["my", "my-basic"], []⟩, ⟨"doors", [], ["my-door"]⟩]

theorem registered_prefixTypes : registeredNames prefixTypes =
    ["my-door", "my-basic", "my"] ++ registeredNames builtinTypes := by
  decide +kernel

theorem owners_resolved_iff_prefixes :
    OwnerResolved prefixTypes prefixFiles "my-basic-len" := by
  refine ((owners_resolved_iff prefixTypes prefixFiles ?_).1 "my-basic-len").mpr ?_
  · rw [registered_prefixTypes]
    decide
  · intro typeName hlongest
    have hmem := hlongest.mem
    have hlength := hlongest.longest "my-basic" (by rw [registered_prefixTypes]; simp) (by decide)
    have hall : ∀ u ∈ registeredNames prefixTypes, hasMethodPrefix u "my-basic-len" = true →
        "my-basic".length ≤ u.length → u ∈ declaredTypes prefixFiles := by
      decide +kernel
    exact hall typeName hmem hlongest.isPrefix hlength

/-- The function of the longer type stands in the table of the shorter one too; and a method of the
script is recorded for the type that its name begins with. -/
theorem not_owners_resolved :
    ¬ TablesAgree prefixTypes prefixFiles ⟨"game", ["my", "my-basic"], []⟩ 3
        [("my-basic-len", 0x40)] ∧
      ¬ OwnerResolved prefixTypes prefixFiles "my-door-open" := by
  constructor
  · rw [tablesAgree_iff]
    intro hapart
    have hmethod : (prefixTypes.lookupTypeNoThrow "my").map (fun t => (t.fields.isSome,
        (prefixTypes.tryLookupMethodById t 9).toOption.join.map (·.name))) =
        some (true, some "basic-len") := by
      decide +kernel
    obtain ⟨t, ht, heq⟩ := Option.map_eq_some_iff.mp hmethod
    obtain ⟨hfields, hname⟩ := Prod.mk.inj heq
    obtain ⟨info, hinfo, hname⟩ := Option.map_eq_some_iff.mp hname
    have hlookup : prefixTypes.tryLookupMethodById t 9 = .ok (some info) := by
      cases hmethods : prefixTypes.tryLookupMethodById t 9 with
      | error e => simp [hmethods, Except.toOption] at hinfo
      | ok found =>
        rw [hmethods] at hinfo
        exact congrArg Except.ok hinfo
    have hlongest := hapart "my" (by simp [FileTypes.tables]) t ht 9 info hlookup hfields
      (by rw [hname]; decide)
    rw [hname] at hlongest
    exact absurd (hlongest.longest "my-basic" (by decide) (by decide)) (by decide)
  · intro h
    have hlongest : IsLongest (registeredNames prefixTypes) "my-door-open" "my-door" := by
      refine ⟨by rw [registered_prefixTypes]; simp, by decide, ?_⟩
      decide +kernel
    exact absurd ((recorded_iff _ _ _).mp ((h "my-door").mpr hlongest)).mem (by decide)

end Soot.Analysis
