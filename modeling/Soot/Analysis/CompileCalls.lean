import Mathlib.Data.Fintype.EquivFin
import Soot.Analysis.ModuleGraph

/-!
# Calls of `compile_file`

What one call adds to the history, and when it and the calls it makes leave the module graph
they have to leave.
-/

set_option autoImplicit false

namespace Soot.Analysis

open Soot.Computation Soot.Program Soot.Model StatefulExcept

variable {σ : Type} {project : Project σ} {s t u : Session σ} {file : String}

/-! ## What a call starts from -/

/-- The session in which the forms of a file are compiled. -/
def opened (s : Session σ) (file : String) : Session σ × FileNode :=
  (Session.enter { s with requested := [], currentFile := file, inputOrigin := .Default }
    file false).openFile file

theorem openFile_same (s : Session σ) (file : String) :
    (s.openFile file).1.currentFile = s.currentFile ∧
      (s.openFile file).1.inputOrigin = s.inputOrigin ∧
      (s.openFile file).1.loadedFiles = s.loadedFiles ∧
      (s.openFile file).1.calls = s.calls ∧ (s.openFile file).1.requested = s.requested := by
  unfold Session.openFile
  split
  · exact ⟨rfl, rfl, rfl, rfl, rfl⟩
  · exact ⟨rfl, rfl, rfl, rfl, rfl⟩

theorem findFileNode_openFile (s : Session σ) (file : String) :
    (s.openFile file).1.findFileNode file = some (s.openFile file).2 := by
  unfold Session.openFile
  split
  · assumption
  · simp [Modules.findFileNode, findFile, FileNode.new]

theorem findFileNode_openFile_ne (s : Session σ) {file id : String} (h : id ≠ file) :
    (s.openFile file).1.findFileNode id = s.findFileNode id := by
  unfold Session.openFile
  split
  · rfl
  · simp [Modules.findFileNode, findFile, FileNode.new, h.symm]

theorem importNames_openFile (s : Session σ) (file : String) :
    importNames (s.openFile file).1.toModules file = importNames s.toModules file := by
  unfold importNames
  rw [findFileNode_openFile]
  unfold Session.openFile
  split
  · rename_i f hf
    rw [hf]
  · rename_i hnone
    rw [hnone]
    rfl

theorem openFile_congr {s t : Session σ} (h : t.fileNodes = s.fileNodes)
    (hnext : t.nextNode = s.nextNode) (file : String) :
    (t.openFile file).1.fileNodes = (s.openFile file).1.fileNodes := by
  unfold Session.openFile Modules.findFileNode
  rw [h, hnext]
  split
  · exact h
  · rfl

theorem name_opened (s : Session σ) (file : String) : (opened s file).2.ref.name = file :=
  name_of_findFile (findFileNode_openFile _ file)

/-! ## What a call adds -/

/-- The record of a call. -/
def recordOf (s u : Session σ) (file : String) : CallRecord :=
  ⟨file, s.toModules, u.toModules, u.requested,
    (newCalls s u).map fun c => (c.file, c.requested)⟩

theorem compileFile_ok {depth : ℕ} {id : String} {b : Bool}
    (h : runFrom (compileFile project (depth + 1) id) s = (.ok (.ok b), t)) :
    ∃ forms u, runFrom (compileForms project (compileFile project depth) forms
        (opened s id).2.ref false) (opened s id).1 = (.ok (.ok b), u) ∧
      t = { u with requested := s.requested, calls := u.calls ++ [recordOf s u id] } := by
  rw [compileFile] at h
  split at h
  · simp at h
  · simp at h
  · rename_i forms hforms
    obtain ⟨s', v, hv, h⟩ := runFrom_bind_ok.mp h
    cases hv
    obtain ⟨⟨⟩, v, hv, h⟩ := runFrom_bind_ok.mp h
    cases hv
    obtain ⟨result, u, hu, h⟩ := runFrom_bind_ok.mp h
    cases result with
    | error e =>
      obtain ⟨⟨⟩, v, hv, h⟩ := runFrom_bind_ok.mp h
      cases h
    | ok binary =>
      obtain ⟨⟨⟩, v, hv, h⟩ := runFrom_bind_ok.mp h
      cases h
      cases hv
      obtain ⟨⟨⟩, v, hv, hu⟩ := runFrom_bind_ok.mp hu
      cases hv
      obtain ⟨s', v, hv, hu⟩ := runFrom_bind_ok.mp hu
      cases hv
      obtain ⟨⟨⟩, v, hv, hu⟩ := runFrom_bind_ok.mp hu
      cases hv
      rw [runFrom_tryCatch] at hu
      refine ⟨forms, u, ?_, rfl⟩
      split at hu
      · rename_i hforms'
        cases hu
        exact hforms'
      · rename_i e v hforms'
        cases e with
        | thrown =>
          obtain ⟨⟨⟩, v, hv, hu⟩ := runFrom_bind_ok.mp hu
          cases hu
        | unbounded => cases hu
        | undefined => cases hu

theorem opened_same (s : Session σ) (file : String) :
    (opened s file).1.currentFile = file ∧ (opened s file).1.inputOrigin = .Default ∧
      (opened s file).1.loadedFiles = s.loadedFiles ∧ (opened s file).1.calls = s.calls ∧
      (opened s file).1.requested = [] :=
  openFile_same _ file

theorem newCalls_opened (s u : Session σ) (file : String) :
    newCalls (opened s file).1 u = newCalls s u := by
  rw [newCalls, newCalls, (opened_same s file).2.2.2.1]

theorem newRequests_opened (s u : Session σ) (file : String) :
    newRequests (opened s file).1 u = u.requested := by
  rw [newRequests, (opened_same s file).2.2.2.2]
  rfl

theorem newCalls_record (h : s.calls <+: u.calls) (c : CallRecord) :
    (u.calls ++ [c]).drop s.calls.length = newCalls s u ++ [c] := by
  obtain ⟨inner, hinner⟩ := h
  rw [newCalls, ← hinner, List.append_assoc, List.drop_left, List.drop_left]

theorem calls_eq_append (h : s.calls <+: u.calls) : u.calls = s.calls ++ newCalls s u := by
  obtain ⟨inner, hinner⟩ := h
  rw [newCalls, ← hinner, List.drop_left]

theorem called_compileFile {depth : ℕ} {id : String} {b : Bool}
    (h : runFrom (compileFile project depth id) s = (.ok (.ok b), t)) : Called id s t := by
  induction depth generalizing id s b t with
  | zero => simp [compileFile] at h
  | succ depth ih =>
    obtain ⟨forms, u, hforms, rfl⟩ := compileFile_ok h
    have hprogress := progress_compileForms (fun id s b t => ih) forms (opened s id).2.ref false
      _ _ _ hforms
    rw [name_opened] at hprogress
    have hcalls : s.calls <+: u.calls := by
      have hkeep := hprogress.later.calls
      rwa [(opened_same s id).2.2.2.1] at hkeep
    refine ⟨rfl, ⟨newCalls s u, recordOf s u id, ?_, rfl, rfl⟩, ?_⟩
    · rw [← List.append_assoc, ← calls_eq_append hcalls]
    · intro hall
      rw [newCalls, newCalls_record hcalls] at hall
      have hcurrent := hprogress.later.current fun c hc => by
        apply hall c
        apply List.mem_append_left
        rwa [newCalls_opened] at hc
      exact hcurrent.trans (opened_same s id).1

/-! ## The import graph -/

/-- The import graph of a session. -/
def importGraph (s : Modules) (ref : FileRef) : Option (List FileRef) :=
  (derefFile s.fileNodes ref).map FileNode.imports

theorem derefFile_eq_some {files : List FileNode} {ref : FileRef} {f : FileNode} :
    derefFile files ref = some f ↔ findFile files ref.name = some f ∧ f.ref = ref := by
  unfold derefFile
  rw [Option.filter_eq_some_iff]
  constructor
  · rintro ⟨hfind, hserial⟩
    refine ⟨hfind, ?_⟩
    have hname := name_of_findFile hfind
    have hserial' : f.serial = ref.serial := by simpa using hserial
    cases ref
    simp_all [FileNode.ref]
  · rintro ⟨hfind, rfl⟩
    exact ⟨hfind, by simp [FileNode.ref]⟩

theorem importGraph_ref {m : Modules} {name : String} {f : FileNode}
    (h : m.findFileNode name = some f) : importGraph m f.ref = some f.imports := by
  have hname := name_of_findFile h
  have hderef : derefFile m.fileNodes f.ref = some f := by
    rw [derefFile_eq_some]
    exact ⟨by rwa [FileNode.ref, hname], rfl⟩
  rw [importGraph, hderef]
  rfl

theorem exists_unbound (files : List FileNode) :
    ∃ name : String, ∀ f ∈ files, f.symbols.lookup name = none := by
  obtain ⟨name, hname⟩ := Infinite.exists_notMem_finset
    (files.flatMap fun f => f.symbols.map Prod.fst).toFinset
  refine ⟨name, fun f hf => ?_⟩
  rw [List.lookup_eq_none_iff]
  intro p hp
  have hne : name ≠ p.1 := by
    rintro rfl
    apply hname
    rw [List.mem_toFinset, List.mem_flatMap]
    exact ⟨f, hf, List.mem_map_of_mem hp⟩
  simpa using hne

theorem lookups_iff_ends (m : Modules) :
    (∀ name f, m.findFileNode name = some f → ∀ symbol,
      ∃ depth found, lookupFile m.fileNodes depth f.ref symbol = some found) ↔
    ∀ name f, m.findFileNode name = some f → Ends (importGraph m) f.ref := by
  constructor
  · intro h name f hf
    obtain ⟨symbol, hsymbol⟩ := exists_unbound m.fileNodes
    obtain ⟨depth, found, hfound⟩ := h name f hf symbol
    refine (ends_of_search ?_ hfound).1
    intro ref hnext
    cases hderef : derefFile m.fileNodes ref with
    | none => rfl
    | some g =>
      have hmem := List.mem_of_find?_eq_some (derefFile_eq_some.mp hderef).1
      exact hsymbol g hmem
  · intro h name f hf symbol
    exact (h name f hf).search

theorem mem_importNames {m : Modules} {name id : String} :
    id ∈ importNames m name ↔
      ∃ f, m.findFileNode name = some f ∧ ∃ ref ∈ f.imports, ref.name = id := by
  unfold importNames
  cases m.findFileNode name with
  | none => simp
  | some f => simp

theorem ends_imports {m : Modules} {name id : String}
    (hends : ∀ name f, m.findFileNode name = some f → Ends (importGraph m) f.ref)
    (hid : id ∈ importNames m name) : id ≠ name ∧ (m.findFileNode id).isSome := by
  obtain ⟨f, hf, ref, href, rfl⟩ := mem_importNames.mp hid
  have hnext := importGraph_ref hf
  obtain ⟨successors, hsuccessors, -⟩ := (hends name f hf).successor hnext href
  obtain ⟨g, hg, -⟩ := Option.map_eq_some_iff.mp hsuccessors
  obtain ⟨hfind, hgref⟩ := derefFile_eq_some.mp hg
  refine ⟨?_, ?_⟩
  · rintro rfl
    have heq : g = f := Option.some.inj (hfind.symm.trans hf)
    rw [heq] at hgref
    rw [← hgref] at href
    exact (hends _ f hf).not_mem hnext href
  · rw [Modules.findFileNode, hfind]
    rfl

/-! ## Calls that compile no other module -/

theorem mem_requiredRefs {m : Modules} {requested : List String} {ref : FileRef} :
    ref ∈ requiredRefs project m file requested ↔
      ∃ id, Requires project file requested id ∧
        (m.findFileNode id).map FileNode.ref = some ref := by
  unfold requiredRefs Requires
  simp only [List.mem_filterMap, Option.bind_eq_some_iff]
  tauto

theorem name_of_map_ref {m : Modules} {id : String} {ref : FileRef}
    (h : (m.findFileNode id).map FileNode.ref = some ref) : ref.name = id := by
  obtain ⟨f, hf, rfl⟩ := Option.map_eq_some_iff.mp h
  exact name_of_findFile hf

theorem findFileNode_opened (s : Session σ) {file id : String} (h : id ≠ file) :
    (opened s file).1.findFileNode id = s.findFileNode id :=
  findFileNode_openFile_ne _ h

theorem findFileNode_opened_self (s : Session σ) (file : String) :
    (opened s file).1.findFileNode file = some (opened s file).2 :=
  findFileNode_openFile _ file

theorem mem_requiredRefs_opened {requested : List String}
    (h : ∀ id, Requires project file requested id → id ≠ file) {ref : FileRef} :
    ref ∈ requiredRefs project (opened s file).1.toModules file requested ↔
      ref ∈ requiredRefs project s.toModules file requested := by
  rw [mem_requiredRefs, mem_requiredRefs]
  constructor
  · rintro ⟨id, hid, href⟩
    rw [findFileNode_opened s (h id hid)] at href
    exact ⟨id, hid, href⟩
  · rintro ⟨id, hid, href⟩
    rw [← findFileNode_opened s (h id hid)] at href
    exact ⟨id, hid, href⟩

theorem mem_imports_cached (h : Cached project file (opened s file).1 u)
    (hother : ∀ id, Requires project file u.requested id → id ≠ file) {g : FileNode}
    (hg : u.findFileNode file = some g) (ref : FileRef) :
    ref ∈ g.imports ↔ ref ∈ (opened s file).2.imports ∨
      ref ∈ requiredRefs project s.toModules file u.requested := by
  have hown := h.own _ g (findFileNode_opened_self s file) hg ref
  rw [newRequests_opened, mem_requiredRefs_opened hother] at hown
  rw [hown]
  constructor
  · rintro (h | ⟨-, h⟩)
    · exact Or.inl h
    · exact Or.inr h
  · rintro (h | h)
    · exact Or.inl h
    · right
      refine ⟨?_, h⟩
      rintro rfl
      obtain ⟨id, hid, href⟩ := mem_requiredRefs.mp h
      apply hother id hid
      rw [← name_of_map_ref href, name_opened]

theorem findFile_of_cached (h : Cached project file (opened s file).1 u) (ref : FileRef) :
    (∃ f, derefFile (opened s file).1.fileNodes ref = some f) ↔
      ∃ g, derefFile u.fileNodes ref = some g := by
  have hrefs := h.refs ref.name
  unfold Modules.findFileNode at hrefs
  constructor
  · rintro ⟨f, hf⟩
    obtain ⟨hfind, hf⟩ := derefFile_eq_some.mp hf
    rw [hfind] at hrefs
    obtain ⟨g, hg, hgref⟩ := Option.map_eq_some_iff.mp hrefs
    exact ⟨g, derefFile_eq_some.mpr ⟨hg, hgref.trans hf⟩⟩
  · rintro ⟨g, hg⟩
    obtain ⟨hfind, hg⟩ := derefFile_eq_some.mp hg
    rw [hfind] at hrefs
    obtain ⟨f, hf, hfref⟩ := Option.map_eq_some_iff.mp hrefs.symm
    exact ⟨f, derefFile_eq_some.mpr ⟨hf, hfref.trans hg⟩⟩

theorem importsWith_cached (h : Cached project file (opened s file).1 u)
    (hother : ∀ id, Requires project file u.requested id → id ≠ file) (ref : FileRef) :
    Option.Rel (fun a b => ∀ r, r ∈ a ↔ r ∈ b)
      (importsWith (opened s file).1.toModules file
        (requiredRefs project s.toModules file u.requested) ref)
      (importGraph u.toModules ref) := by
  unfold importsWith importGraph
  cases hf : derefFile (opened s file).1.fileNodes ref with
  | none =>
    cases hg : derefFile u.fileNodes ref with
    | none => exact .none
    | some g =>
      obtain ⟨f, hf'⟩ := (findFile_of_cached h ref).mpr ⟨g, hg⟩
      rw [hf'] at hf
      cases hf
  | some f =>
    obtain ⟨g, hg⟩ := (findFile_of_cached h ref).mp ⟨f, hf⟩
    rw [hg]
    apply Option.Rel.some
    intro r
    obtain ⟨hfindf, -⟩ := derefFile_eq_some.mp hf
    obtain ⟨hfindg, -⟩ := derefFile_eq_some.mp hg
    split
    · rename_i hname
      rw [hname] at hfindf hfindg
      obtain rfl : (opened s file).2 = f :=
        Option.some.inj ((findFileNode_opened_self s file).symm.trans hfindf)
      rw [mem_imports_cached h hother hfindg, List.mem_append]
    · rename_i hname
      have hsame := h.others ref.name hname
      unfold Modules.findFileNode at hsame
      rw [hfindf, hfindg] at hsame
      have himports : g.imports = f.imports := Option.some.inj hsame
      rw [himports]

/-- What the compilation of a file with its history comes to. -/
structure CompiledFile (project : Project σ) (file : String) (s u : Session σ) : Prop where
  later : s.calls <+: u.calls
  lands : (∀ c ∈ newCalls s u, Restores c) → u.currentFile = file
  cases : Cached project file (opened s file).1 u ∨ Fresh project file (opened s file).1 u

theorem compiledFile_of_progress (h : GraphProgress project file (opened s file).1 u) :
    CompiledFile project file s u := by
  obtain ⟨hcurrent, horigin, -, hcalls, -⟩ := opened_same s file
  constructor
  · rw [← hcalls]
    exact h.later.calls
  · intro hall
    rw [← newCalls_opened s u file] at hall
    exact (h.later.current hall).trans hcurrent
  · apply h.cases hcurrent horigin
    rw [findFileNode_opened_self]
    rfl

theorem opened_fileNodes (s : Session σ) (file : String) :
    (s.openFile file).1.fileNodes = (opened s file).1.fileNodes := by
  apply openFile_congr
  · rfl
  · rfl

theorem mem_importNames_opened (s : Session σ) {file id : String} :
    id ∈ importNames s.toModules file ↔ ∃ ref ∈ (opened s file).2.imports, ref.name = id := by
  have hopened : importNames (opened s file).1.toModules file = importNames s.toModules file :=
    importNames_openFile _ file
  rw [← hopened, mem_importNames]
  constructor
  · rintro ⟨f, hf, href⟩
    obtain rfl : (opened s file).2 = f :=
      Option.some.inj ((findFileNode_opened_self s file).symm.trans hf)
    exact href
  · intro href
    exact ⟨_, findFileNode_opened_self s file, href⟩

theorem ends_cached (h : Cached project file (opened s file).1 u)
    (hother : ∀ id, Requires project file u.requested id → id ≠ file) :
    (∀ name f, (s.openFile file).1.findFileNode name = some f →
      Ends (importsWith (s.openFile file).1.toModules file
        (requiredRefs project s.toModules file u.requested)) f.ref) ↔
    ∀ name g, u.findFileNode name = some g → Ends (importGraph u.toModules) g.ref := by
  have hgraph : importsWith (s.openFile file).1.toModules file
      (requiredRefs project s.toModules file u.requested) =
      importsWith (opened s file).1.toModules file
        (requiredRefs project s.toModules file u.requested) := by
    funext ref
    rw [importsWith, importsWith, opened_fileNodes]
  have hfind : ∀ name, (s.openFile file).1.findFileNode name =
      (opened s file).1.findFileNode name := by
    intro name
    rw [Modules.findFileNode, Modules.findFileNode, opened_fileNodes]
  rw [hgraph]
  constructor
  · intro hends name g hg
    have hmap := h.refs name
    rw [hg] at hmap
    obtain ⟨f, hf, href⟩ := Option.map_eq_some_iff.mp hmap.symm
    have hend := hends name f ((hfind name).trans hf)
    rwa [href, ends_iff_of_rel (importsWith_cached h hother)] at hend
  · intro hends name f hf
    rw [hfind] at hf
    have hmap := h.refs name
    rw [hf] at hmap
    obtain ⟨g, hg, href⟩ := Option.map_eq_some_iff.mp hmap
    have hend := hends name g hg
    rwa [href, ← ends_iff_of_rel (importsWith_cached h hother)] at hend

theorem exists_findFileNode_cached (h : Cached project file (opened s file).1 u) :
    ∃ g, u.findFileNode file = some g := by
  rw [← Option.isSome_iff_exists, isSome_of_refs h.refs, findFileNode_opened_self]
  rfl

theorem settled_of_goodCalls (h : CompiledFile project file s u)
    (hgood : ∀ c ∈ newCalls s u ++ [recordOf s u file], GoodCall project c) :
    Settled project s file u.requested := by
  have hown : GoodCall project (recordOf s u file) :=
    hgood _ (List.mem_append_right _ (List.mem_singleton_self _))
  have hends := (lookups_iff_ends u.toModules).mp hown.lookups
  have himports : ∀ id, id ∈ importNames u.toModules file ↔ Requires project file u.requested id :=
    hown.imports (file, u.requested) List.mem_cons_self
  have hrestores : ∀ c ∈ newCalls s u, Restores c :=
    fun c hc => (hgood c (List.mem_append_left _ hc)).current
  have hother : ∀ id, Requires project file u.requested id → id ≠ file :=
    fun id hid => (ends_imports hends ((himports id).mpr hid)).1
  have hcached : Cached project file (opened s file).1 u := by
    rcases h.cases with hcached | ⟨path, hpath, id, hid, -, hself⟩
    · exact hcached
    · rw [newRequests_opened] at hpath
      rw [newCalls_opened] at hself
      exact absurd (hself hrestores) (hother id ⟨path, hpath, hid⟩)
  constructor
  · exact hown.current.symm.trans (h.lands hrestores)
  · intro id hid
    refine ⟨hother id hid, ?_, ?_⟩
    · obtain ⟨path, hpath, hid⟩ := hid
      rw [← newRequests_opened s u file] at hpath
      obtain ⟨id', hid', hloaded⟩ := hcached.resolved path hpath
      obtain rfl : id = id' := Option.some.inj (hid.symm.trans hid')
      rwa [(opened_same s file).2.2.1] at hloaded
    · have hsome := (ends_imports hends ((himports id).mpr hid)).2
      rwa [isSome_of_refs hcached.refs, findFileNode_opened s (hother id hid)] at hsome
  · intro id hid
    apply (himports id).mp
    obtain ⟨ref, href, hname⟩ := (mem_importNames_opened s).mp hid
    obtain ⟨g, hg⟩ := exists_findFileNode_cached hcached
    exact mem_importNames.mpr
      ⟨g, hg, ref, (mem_imports_cached hcached hother hg ref).mpr (Or.inl href), hname⟩
  · exact (ends_cached hcached hother).mpr hends

theorem goodCalls_of_settled (h : CompiledFile project file s u)
    (hsettled : Settled project s file u.requested) :
    ∀ c ∈ newCalls s u ++ [recordOf s u file], GoodCall project c := by
  have hother : ∀ id, Requires project file u.requested id → id ≠ file :=
    fun id hid => (hsettled.known id hid).1
  have hcached : Cached project file (opened s file).1 u := by
    rcases h.cases with hcached | ⟨path, hpath, id, hid, hfresh, -⟩
    · exact hcached
    · rw [newRequests_opened] at hpath
      rw [(opened_same s file).2.2.1] at hfresh
      exact absurd (hsettled.known id ⟨path, hpath, hid⟩).2.1 hfresh
  have hcalls : newCalls s u = [] := by
    rw [newCalls, hcached.calls, (opened_same s file).2.2.2.1, List.drop_length]
  intro c hc
  rw [hcalls, List.nil_append, List.mem_singleton] at hc
  subst hc
  constructor
  · rw [recordOf, hcached.current, (opened_same s file).1]
    exact hsettled.current.symm
  · intro e he id
    rw [recordOf, hcalls, List.map_nil, List.mem_singleton] at he
    subst he
    obtain ⟨g, hg⟩ := exists_findFileNode_cached hcached
    constructor
    · intro hid
      obtain ⟨g', hg', ref, href, hname⟩ := mem_importNames.mp hid
      obtain rfl : g = g' := Option.some.inj (hg.symm.trans hg')
      rcases (mem_imports_cached hcached hother hg ref).mp href with href | href
      · exact hsettled.imports id ((mem_importNames_opened s).mpr ⟨ref, href, hname⟩)
      · obtain ⟨id', hid', href⟩ := mem_requiredRefs.mp href
        rw [← hname, name_of_map_ref href]
        exact hid'
    · intro hid
      obtain ⟨hne, -, hnode⟩ := hsettled.known id hid
      obtain ⟨k, hk⟩ := Option.isSome_iff_exists.mp hnode
      refine mem_importNames.mpr ⟨g, hg, k.ref, ?_, name_of_findFile hk⟩
      rw [mem_imports_cached hcached hother hg]
      right
      rw [mem_requiredRefs]
      exact ⟨id, hid, by rw [hk]; rfl⟩
  · apply (lookups_iff_ends u.toModules).mpr
    exact (ends_cached hcached hother).mp hsettled.ends

/-- INTERNAL: **the module graph**: the calls of `compile_file` that a call comes to leave the
module graph, the current file and the searches as they have to be, exactly when no other
module was left to compile for the file. -/
theorem goodCalls_iff_settled {depth : ℕ} {b : Bool}
    (h : runFrom (compileFile project depth file) s = (.ok (.ok b), t)) :
    ∃ c, t.calls.getLast? = some c ∧ c.file = file ∧ c.before = s.toModules ∧
      c.after = t.toModules ∧
      ((∀ c' ∈ t.calls.drop s.calls.length, GoodCall project c') ↔
        Settled project s file c.requested) := by
  cases depth with
  | zero => simp [compileFile] at h
  | succ depth =>
    obtain ⟨forms, u, hforms, rfl⟩ := compileFile_ok h
    have hprogress := progress_compileForms (fun id s b t => called_compileFile) forms
      (opened s file).2.ref false _ _ _ hforms
    rw [name_opened] at hprogress
    have hcompiled := compiledFile_of_progress hprogress
    refine ⟨recordOf s u file, List.getLast?_concat, rfl, rfl, rfl, ?_⟩
    rw [newCalls_record hcompiled.later]
    exact ⟨settled_of_goodCalls hcompiled, goodCalls_of_settled hcompiled⟩

/-! ## A file that requires two others -/

/-- What is built of a number and of a `require`. -/
def buildSimple : Object → BuildProgram Unit
  | .integer value => .done (some (.expression (.constInt value)))
  | .pair (.symbol "require") (.pair (.string path) .null) => .require path (.done none)
  | _ => .failed

/-- A directory with the files `main`, which requires `a` and `b`, and these two. -/
def twoModules : Project Unit where
  projectRoot := ""
  parentPath _ := ""
  findModule path _ := if path = "a" ∨ path = "b" then some path else none
  withoutExtension id := id
  readForms id :=
    .ok (if id = "main" then
      some [.ofList [.symbol "require", .string "a"], .ofList [.symbol "require", .string "b"]]
    else if id = "a" ∨ id = "b" then some [.integer 1] else none)
  build := buildSimple
  buildLambda _ := .failed
  stateBodies _ _ := []
  generate f _ := ⟨f.anonNameCounter, some (if f.children.isEmpty then none else some []), true⟩
  loadModule _ rest := (true, rest)

/-- A compiler that has compiled nothing yet and is at a file. -/
def startAt (file : String) : Session Unit where
  currentFile := file
  fileNodes := []
  loadedFiles := []
  inputOrigin := .Default
  globalEnv := ⟨[], []⟩
  globalSnapshot := none
  replCounter := 0
  nextNode := 0
  rest := ()
  requested := []
  calls := []

/-- A compiler that is at `main` and has loaded what it requires. -/
def modulesLoaded : Session Unit :=
  { startAt "main" with
    fileNodes := [FileNode.new "a" 0, FileNode.new "b" 1]
    loadedFiles := ["a", "b"]
    nextNode := 2 }

/-- A file whose modules are loaded is compiled as it has to be when the compiler is at it. -/
theorem goodCalls_modulesLoaded :
    ∃ t, runFrom (compileFile twoModules 1 "main") modulesLoaded = (.ok (.ok false), t) ∧
      ∀ c ∈ t.calls, GoodCall twoModules c := by
  have hrun : ∃ t, runFrom (compileFile twoModules 1 "main") modulesLoaded =
      (.ok (.ok false), t) ∧ t.calls.map CallRecord.requested = [["a", "b"]] := ⟨_, rfl, rfl⟩
  obtain ⟨t, ht, hrequested⟩ := hrun
  refine ⟨t, ht, ?_⟩
  obtain ⟨c, hlast, -, -, -, hiff⟩ := goodCalls_iff_settled ht
  have hc : c.requested = ["a", "b"] := by
    have hmem := List.mem_map_of_mem (f := CallRecord.requested) (List.mem_of_getLast? hlast)
    rw [hrequested] at hmem
    exact List.mem_singleton.mp hmem
  apply hiff.mpr
  rw [hc]
  have hresolve : ∀ path ∈ ["a", "b"], ∀ id, twoModules.findModule path "" = some id →
      id = path := by
    intro path hpath id hid
    obtain rfl | rfl := List.mem_pair.mp hpath
    · exact (Option.some.inj hid).symm
    · exact (Option.some.inj hid).symm
  constructor
  · rfl
  · rintro id ⟨path, hpath, hid⟩
    obtain rfl := hresolve path hpath id hid
    obtain rfl | rfl := List.mem_pair.mp hpath
    · decide
    · decide
  · intro id hid
    cases hid
  · intro name f hf
    have hmem := List.mem_of_find?_eq_some hf
    have hmem : f ∈ [FileNode.new "main" 2, FileNode.new "a" 0, FileNode.new "b" 1] := hmem
    rw [List.mem_cons, List.mem_pair] at hmem
    rcases hmem with rfl | rfl | rfl
    · refine .intro [⟨"a", 0⟩, ⟨"b", 1⟩] rfl ?_
      intro ref href
      obtain rfl | rfl := List.mem_pair.mp href
      · exact .intro [] rfl (by simp)
      · exact .intro [] rfl (by simp)
    · exact .intro [] rfl (by simp)
    · exact .intro [] rfl (by simp)

/-- `require` of two modules that are not loaded: the second is imported by the first, and the
compiler stays at the second. -/
theorem not_goodCalls_twoModules :
    ∃ t, runFrom (compileFile twoModules 2 "main") (startAt "main") = (.ok (.ok false), t) ∧
      ∃ c ∈ t.calls, c.file = "main" ∧ c.requested = ["a", "b"] ∧
        importNames c.after "main" = ["a"] ∧ importNames c.after "a" = ["b"] ∧
        c.after.currentFile = "b" ∧ ¬ GoodCall twoModules c := by
  refine ⟨_, rfl, _, List.mem_cons_of_mem _ (List.mem_cons_of_mem _ List.mem_cons_self), ?_⟩
  refine ⟨rfl, rfl, rfl, rfl, rfl, ?_⟩
  intro hgood
  have hcurrent := hgood.current
  revert hcurrent
  decide

end Soot.Analysis
