import Soot.Model.Modules

/-!
# The module graph after a compilation

Whatever a compilation does besides requiring modules leaves the module graph as it is. A call
of `compile_file` that returns did what it has to do, itself and in the calls it made, if and
only if nothing but the file itself was left to compile: the compiler does not find back to
the file after it compiled another one.
-/

set_option autoImplicit false

namespace Soot.Analysis

open Soot.Computation Soot.Program Soot.Model StatefulExcept

variable {σ : Type} {project : Project σ} {s t u : Session σ} {file : String}

/-! ## Files -/

/-- What the module graph has of a file. -/
def graphOf (f : FileNode) : String × ℕ × List FileRef := (f.name, f.serial, f.imports)

theorem name_of_findFile {files : List FileNode} {id : String} {f : FileNode}
    (h : findFile files id = some f) : f.name = id := by
  simpa using List.find?_some h

theorem findFile_map (files : List FileNode) (name id : String) {f : FileNode → FileNode}
    (hf : ∀ g, (f g).name = g.name) :
    findFile (files.map fun g => if g.name = name then f g else g) id =
      (findFile files id).map fun g => if id = name then f g else g := by
  induction files with
  | nil => rfl
  | cons g files ih =>
    have hname : (if g.name = name then f g else g).name = g.name := by
      split
      · exact hf g
      · rfl
    unfold findFile at ih ⊢
    rw [List.map_cons, List.find?_cons, List.find?_cons, hname]
    by_cases hg : g.name = id
    · subst hg
      simp
    · rw [beq_eq_false_iff_ne.mpr hg]
      exact ih

theorem findFileNode_updateFile (s : Modules) (name id : String) {f : FileNode → FileNode}
    (hf : ∀ g, (f g).name = g.name) :
    (s.updateFile name f).findFileNode id =
      (s.findFileNode id).map fun g => if id = name then f g else g :=
  findFile_map s.fileNodes name id hf

theorem graphOf_apply (change : FileChange) (f : FileNode) :
    graphOf (change.apply f) = graphOf f := by
  cases change with
  | addChild child => rfl
  | releaseChild id =>
    unfold FileChange.apply FileNode.releaseChild
    dsimp only
    split
    · rfl
    · rfl
  | renameChild id name => rfl
  | setChildBody id body => rfl
  | bind name node => rfl
  | removeNamed name => rfl
  | addPlaceholder name =>
    unfold FileChange.apply FileNode.addPlaceholder
    dsimp only
    split
    · rfl
    · rfl

/-! ## Steps that leave the graph alone -/

/-- The module graph, the history and the compiler's place in it are as they were. -/
structure SameGraph (s t : Session σ) : Prop where
  current : t.currentFile = s.currentFile
  origin : t.inputOrigin = s.inputOrigin
  loaded : t.loadedFiles = s.loadedFiles
  calls : t.calls = s.calls
  requested : t.requested = s.requested
  files : ∀ id, (t.findFileNode id).map graphOf = (s.findFileNode id).map graphOf

theorem sameGraph_refl (s : Session σ) : SameGraph s s :=
  ⟨rfl, rfl, rfl, rfl, rfl, fun _ => rfl⟩

theorem sameGraph_trans (s t u : Session σ) (h : SameGraph s t) (h' : SameGraph t u) :
    SameGraph s u :=
  ⟨h'.current.trans h.current, h'.origin.trans h.origin, h'.loaded.trans h.loaded,
    h'.calls.trans h.calls, h'.requested.trans h.requested,
    fun id => (h'.files id).trans (h.files id)⟩

theorem sameGraph_modifyFile (name : String) {f : FileNode → FileNode}
    (hf : ∀ g, graphOf (f g) = graphOf g) :
    Respects SameGraph (modifyFile name f : CompilerM σ Unit) := by
  apply respects_modify
  intro s
  refine ⟨rfl, rfl, rfl, rfl, rfl, fun id => ?_⟩
  have hname : ∀ g, (f g).name = g.name := fun g => congrArg Prod.fst (hf g)
  have hfind := findFileNode_updateFile s.toModules name id hname
  rw [hfind, Option.map_map]
  congr 1
  funext g
  simp only [Function.comp_apply]
  split
  · exact hf g
  · rfl

theorem sameGraph_get : Respects SameGraph (get : CompilerM σ (Session σ)) :=
  respects_get sameGraph_refl

theorem sameGraph_pure {α : Type} (a : α) : Respects SameGraph (pure a : CompilerM σ α) :=
  respects_pure sameGraph_refl a

theorem sameGraph_throw {α : Type} (e : CompileFault) :
    Respects SameGraph (throw e : CompilerM σ α) :=
  respects_throw sameGraph_refl e

theorem sameGraph_bind {α β : Type} {x : CompilerM σ α} {f : α → CompilerM σ β}
    (hx : Respects SameGraph x) (hf : ∀ a, Respects SameGraph (f a)) :
    Respects SameGraph (x >>= f) :=
  respects_bind sameGraph_trans hx hf

theorem graphOf_withTopLevel (f : FileNode) (l : Locals) (id body : ℕ) :
    graphOf (f.withTopLevel l id body) = graphOf f := by
  have hadded : graphOf (if (l.topLevel.or f.topLevel).isSome then f
      else { f.addChild (.function (.new id "top-level")) with topLevel := id }) = graphOf f := by
    split
    · rfl
    · rfl
  unfold FileNode.withTopLevel
  dsimp only
  split
  · exact hadded
  · exact hadded

theorem sameGraph_ensureTopLevel (l : Locals) :
    Respects SameGraph (ensureTopLevel file l : CompilerM σ Locals) := by
  unfold ensureTopLevel
  apply sameGraph_bind sameGraph_get
  intro s
  split
  · exact sameGraph_throw _
  · apply sameGraph_bind
    · apply sameGraph_modifyFile
      exact fun g => graphOf_withTopLevel g l _ _
    · intro _
      apply sameGraph_bind
      · exact respects_modify fun s => ⟨rfl, rfl, rfl, rfl, rfl, fun _ => rfl⟩
      · exact fun _ => sameGraph_pure _

theorem sameGraph_addToTopLevel (l : Locals) (node : Node) :
    Respects SameGraph (addToTopLevel file l node : CompilerM σ Locals) := by
  unfold addToTopLevel
  apply sameGraph_bind (sameGraph_ensureTopLevel l)
  intro l
  apply sameGraph_bind sameGraph_get
  intro s
  split
  · exact sameGraph_bind (sameGraph_modifyFile _ fun g => rfl) fun _ => sameGraph_pure _
  · exact sameGraph_throw _

theorem sameGraph_processNode (isRepl : Bool) (l : Locals) (node : Option Built) :
    Respects SameGraph (processNode file isRepl l node : CompilerM σ Locals) := by
  have hchild : ∀ child : Built, Respects SameGraph (do
      modifyFile file fun f => f.addChild child
      return l : CompilerM σ Locals) := fun child =>
    sameGraph_bind (sameGraph_modifyFile _ fun g => rfl) fun _ => sameGraph_pure _
  cases node with
  | none => exact sameGraph_pure l
  | some node =>
    cases node with
    | expression node =>
      simp only [processNode]
      split
      · exact sameGraph_throw _
      · split
        · exact sameGraph_pure l
        · exact sameGraph_addToTopLevel l _
    | function fn =>
      simp only [processNode]
      apply sameGraph_bind sameGraph_get
      intro s
      split
      · exact hchild (.function fn)
      · split
        · exact hchild (.function fn)
        · exact sameGraph_bind (sameGraph_modifyFile _ fun g => rfl) fun _ => sameGraph_pure _
    | typeDeclaration type =>
      simp only [processNode]
      apply sameGraph_bind sameGraph_get
      intro s
      split
      · exact sameGraph_pure l
      · exact hchild (.typeDeclaration type)
    | enumDeclaration name => exact hchild (.enumDeclaration name)
    | stateScript type => exact hchild (.stateScript type)
    | data decl => exact hchild (.data decl)
    | heapDefine decl store =>
      exact sameGraph_bind (sameGraph_modifyFile _ fun g => rfl) fun _ =>
        sameGraph_addToTopLevel l store
    | staticDefine decl stores =>
      simp only [processNode]
      apply sameGraph_bind
      · exact sameGraph_modifyFile _ fun g => rfl
      · intro _
        apply sameGraph_bind (sameGraph_ensureTopLevel l)
        intro l
        exact respects_foldlM sameGraph_refl sameGraph_trans
          (fun l store => sameGraph_addToTopLevel l store) stores l

theorem sameGraph_generateFile (ref : FileRef) :
    Respects SameGraph (generateFile project ref) := by
  unfold generateFile
  apply sameGraph_bind sameGraph_get
  intro s
  split
  · exact sameGraph_throw _
  · apply sameGraph_bind
    · exact sameGraph_modifyFile _ fun g => rfl
    · intro _
      split
      · exact sameGraph_throw _
      · exact sameGraph_pure _
      · exact sameGraph_bind (sameGraph_modifyFile _ fun g => rfl) fun _ => sameGraph_pure _

theorem sameGraph_rest {f : Session σ → Session σ} (hf : ∀ s, SameGraph s (f s)) :
    Respects SameGraph (modify f : CompilerM σ Unit) :=
  respects_modify hf

theorem sameGraph_rebuildOwner (owner : FileRef) :
    Respects SameGraph (rebuildOwner project file owner) := by
  unfold rebuildOwner
  split
  · exact sameGraph_pure _
  · apply sameGraph_bind (sameGraph_generateFile owner)
    intro made
    apply sameGraph_rest
    intro s
    split
    · exact ⟨rfl, rfl, rfl, rfl, rfl, fun _ => rfl⟩
    · exact sameGraph_refl s

/-! ## Requests and calls -/

/-- The calls that returned between two states. -/
def newCalls (s t : Session σ) : List CallRecord := t.calls.drop s.calls.length

/-- The paths asked for between two states. -/
def newRequests (s t : Session σ) : List String := t.requested.drop s.requested.length

/-- A call left the compiler's current file as it was. -/
def Restores (c : CallRecord) : Prop := c.after.currentFile = c.before.currentFile

/-- The history only grows, and the current file is the same if every call restored it. -/
structure Later (s t : Session σ) : Prop where
  calls : s.calls <+: t.calls
  requested : s.requested <+: t.requested
  current : (∀ c ∈ newCalls s t, Restores c) → t.currentFile = s.currentFile

theorem newCalls_append (h : Later s t) (h' : Later t u) :
    newCalls s u = newCalls s t ++ newCalls t u := by
  obtain ⟨a, ha⟩ := h.calls
  obtain ⟨b, hb⟩ := h'.calls
  unfold newCalls
  rw [← hb, ← ha, List.append_assoc, List.drop_left, List.drop_left, ← List.append_assoc,
    List.drop_left]

theorem newRequests_append (h : Later s t) (h' : Later t u) :
    newRequests s u = newRequests s t ++ newRequests t u := by
  obtain ⟨a, ha⟩ := h.requested
  obtain ⟨b, hb⟩ := h'.requested
  unfold newRequests
  rw [← hb, ← ha, List.append_assoc, List.drop_left, List.drop_left, ← List.append_assoc,
    List.drop_left]

theorem later_trans (h : Later s t) (h' : Later t u) : Later s u := by
  refine ⟨h.calls.trans h'.calls, h.requested.trans h'.requested, fun hall => ?_⟩
  rw [newCalls_append h h'] at hall
  exact (h'.current fun c hc => hall c (List.mem_append_right _ hc)).trans
    (h.current fun c hc => hall c (List.mem_append_left _ hc))

theorem SameGraph.later (h : SameGraph s t) : Later s t :=
  ⟨h.calls ▸ List.prefix_refl _, h.requested ▸ List.prefix_refl _, fun _ => h.current⟩

theorem SameGraph.newRequests (h : SameGraph s t) : newRequests s t = [] := by
  rw [Analysis.newRequests, h.requested, List.drop_length]

/-- Every module asked for was loaded: the file imports them now, and nothing else changed in
the module graph. -/
structure Cached (project : Project σ) (file : String) (s t : Session σ) : Prop where
  current : t.currentFile = s.currentFile
  origin : t.inputOrigin = s.inputOrigin
  loaded : t.loadedFiles = s.loadedFiles
  calls : t.calls = s.calls
  resolved : ∀ path ∈ newRequests s t,
    ∃ id, resolveRequire project .Default path file = some id ∧ id ∈ s.loadedFiles
  refs : ∀ id, (t.findFileNode id).map FileNode.ref = (s.findFileNode id).map FileNode.ref
  others : ∀ id, id ≠ file →
    (t.findFileNode id).map FileNode.imports = (s.findFileNode id).map FileNode.imports
  own : ∀ f g, s.findFileNode file = some f → t.findFileNode file = some g → ∀ ref,
    ref ∈ g.imports ↔ ref ∈ f.imports ∨
      ref ≠ f.ref ∧ ref ∈ requiredRefs project s.toModules file (newRequests s t)

/-- A module asked for was not loaded; if every call restored the current file, it was the
file itself. -/
def Fresh (project : Project σ) (file : String) (s t : Session σ) : Prop :=
  ∃ path ∈ newRequests s t, ∃ id, resolveRequire project .Default path file = some id ∧
    id ∉ s.loadedFiles ∧ ((∀ c ∈ newCalls s t, Restores c) → id = file)

/-- What compiling a part of a file comes to. -/
structure GraphProgress (project : Project σ) (file : String) (s t : Session σ) : Prop where
  later : Later s t
  cases : s.currentFile = file → s.inputOrigin = .Default → (s.findFileNode file).isSome →
    Cached project file s t ∨ Fresh project file s t

theorem requiredRefs_congr (h : ∀ id,
    (t.findFileNode id).map FileNode.ref = (s.findFileNode id).map FileNode.ref)
    (requested : List String) :
    requiredRefs project t.toModules file requested =
      requiredRefs project s.toModules file requested := by
  unfold requiredRefs
  congr 1
  funext path
  congr 1
  funext id
  exact h id

theorem SameGraph.cached (h : SameGraph s t) : Cached project file s t := by
  have hmap : ∀ {α : Type} (k : String × ℕ × List FileRef → α) (id : String),
      (t.findFileNode id).map (fun f => k (graphOf f)) =
        (s.findFileNode id).map fun f => k (graphOf f) := by
    intro α k id
    have hid := congrArg (Option.map k) (h.files id)
    rwa [Option.map_map, Option.map_map] at hid
  constructor
  · exact h.current
  · exact h.origin
  · exact h.loaded
  · exact h.calls
  · simp [h.newRequests]
  · exact hmap fun k => (⟨k.1, k.2.1⟩ : FileRef)
  · exact fun id _ => hmap (fun k => k.2.2) id
  · intro f g hf hg ref
    have himports := hmap (fun k => k.2.2) file
    rw [hf, hg] at himports
    have heq : g.imports = f.imports := Option.some.inj himports
    simp [heq, h.newRequests, requiredRefs]

theorem SameGraph.progress (h : SameGraph s t) : GraphProgress project file s t :=
  ⟨h.later, fun _ _ _ => Or.inl h.cached⟩

theorem isSome_of_refs (h : ∀ id,
    (t.findFileNode id).map FileNode.ref = (s.findFileNode id).map FileNode.ref) (id : String) :
    (t.findFileNode id).isSome = (s.findFileNode id).isSome := by
  have hid := congrArg Option.isSome (h id)
  rwa [Option.isSome_map, Option.isSome_map] at hid

theorem Cached.trans (h : Cached project file s t) (h' : Cached project file t u)
    (hl : Later s t) (hl' : Later t u) (hsome : (s.findFileNode file).isSome) :
    Cached project file s u := by
  have hrequests := newRequests_append hl hl'
  constructor
  · exact h'.current.trans h.current
  · exact h'.origin.trans h.origin
  · exact h'.loaded.trans h.loaded
  · exact h'.calls.trans h.calls
  · intro path hpath
    rw [hrequests] at hpath
    rcases List.mem_append.mp hpath with hpath | hpath
    · exact h.resolved path hpath
    · obtain ⟨id, hid, hmem⟩ := h'.resolved path hpath
      exact ⟨id, hid, h.loaded ▸ hmem⟩
  · exact fun id => (h'.refs id).trans (h.refs id)
  · exact fun id hid => (h'.others id hid).trans (h.others id hid)
  · intro f g hf hg ref
    obtain ⟨k, hk⟩ := Option.isSome_iff_exists.mp ((isSome_of_refs h.refs file).trans hsome)
    have href : k.ref = f.ref := by
      have hmap := h.refs file
      rw [hf, hk] at hmap
      exact Option.some.inj hmap
    rw [h'.own k g hk hg, h.own f k hf hk, hrequests, href,
      requiredRefs_congr h.refs]
    unfold requiredRefs
    rw [List.filterMap_append, List.mem_append]
    tauto

theorem GraphProgress.trans (h : GraphProgress project file s t)
    (h' : GraphProgress project file t u) :
    GraphProgress project file s u := by
  refine ⟨later_trans h.later h'.later, fun hcurrent horigin hsome => ?_⟩
  have hcalls := newCalls_append h.later h'.later
  have hrequests := newRequests_append h.later h'.later
  rcases h.cases hcurrent horigin hsome with hcached | ⟨path, hpath, id, hid, hfresh, hself⟩
  · have hsome' := (isSome_of_refs hcached.refs file).trans hsome
    rcases h'.cases (hcached.current.trans hcurrent) (hcached.origin.trans horigin) hsome' with
      hcached' | ⟨path, hpath, id, hid, hfresh, hself⟩
    · exact Or.inl (hcached.trans hcached' h.later h'.later hsome)
    · refine Or.inr ⟨path, ?_, id, hid, hcached.loaded ▸ hfresh, fun hall => hself ?_⟩
      · rw [hrequests]
        exact List.mem_append_right _ hpath
      · intro c hc
        exact hall c (hcalls ▸ List.mem_append_right _ hc)
  · refine Or.inr ⟨path, ?_, id, hid, hfresh, fun hall => hself ?_⟩
    · rw [hrequests]
      exact List.mem_append_left _ hpath
    · intro c hc
      exact hall c (hcalls ▸ List.mem_append_left _ hc)

theorem progress_refl (s : Session σ) : GraphProgress project file s s :=
  (sameGraph_refl s).progress

theorem achieves_progress {α : Type} {x : CompilerM σ α} (h : Respects SameGraph x) :
    Achieves (GraphProgress project file) x :=
  fun s a t hrun => (h.achieves s a t hrun).progress

theorem progress_bind {α β : Type} {x : CompilerM σ α} {f : α → CompilerM σ β}
    (hx : Achieves (GraphProgress project file) x)
    (hf : ∀ a, Achieves (GraphProgress project file) (f a)) :
    Achieves (GraphProgress project file) (x >>= f) :=
  achieves_bind (fun _ _ _ => GraphProgress.trans) hx hf

theorem progress_forM {α : Type} {f : α → CompilerM σ Unit}
    (hf : ∀ a, Achieves (GraphProgress project file) (f a)) (l : List α) :
    Achieves (GraphProgress project file) (l.forM f) :=
  achieves_forM progress_refl (fun _ _ _ => GraphProgress.trans) hf l

/-! ## Requiring a module -/

/-- A session in which a file imports another one. -/
def withEdge (s : Session σ) (fromFile : Option FileRef) (target : String) : Session σ :=
  match fromFile, s.findFileNode target with
  | some source, some dep =>
    { s with
      toModules := s.toModules.updateFile source.name fun f =>
        if f.serial = source.serial then f.addImport dep.ref else f }
  | _, _ => s

theorem runFrom_addImportEdge (s : Session σ) (fromFile : Option FileRef) (target : String) :
    runFrom (addImportEdge fromFile target : CompilerM σ Unit) s =
      (.ok (), withEdge s fromFile target) := by
  unfold addImportEdge withEdge
  rw [runFrom_bind, runFrom_get]
  dsimp only
  cases fromFile with
  | none => rfl
  | some source =>
    cases s.findFileNode target with
    | none => rfl
    | some dep => rfl

/-- What a nested call of `compile_file` leaves behind when it returns a result. -/
structure Called (id : String) (s t : Session σ) : Prop where
  requested : t.requested = s.requested
  calls : ∃ inner c, t.calls = s.calls ++ (inner ++ [c]) ∧
    c.before.currentFile = s.currentFile ∧ c.after.currentFile = t.currentFile
  lands : (∀ c ∈ newCalls s t, Restores c) → t.currentFile = id

theorem Called.later {id : String} (h : Called id s t) : Later s t := by
  obtain ⟨inner, c, hcalls, hbefore, hafter⟩ := h.calls
  refine ⟨⟨_, hcalls.symm⟩, h.requested ▸ List.prefix_refl _, fun hall => ?_⟩
  have hc : Restores c := by
    apply hall c
    rw [newCalls, hcalls, List.drop_left]
    exact List.mem_append_right _ (List.mem_singleton_self c)
  rw [← hafter, hc, hbefore]

theorem withEdge_same (s : Session σ) (fromFile : Option FileRef) (target : String) :
    (withEdge s fromFile target).calls = s.calls ∧
      (withEdge s fromFile target).requested = s.requested ∧
      (withEdge s fromFile target).currentFile = s.currentFile := by
  unfold withEdge
  split
  · exact ⟨rfl, rfl, rfl⟩
  · exact ⟨rfl, rfl, rfl⟩

section Requiring

variable {compile : String → CompilerM σ (Except Unit Bool)}

theorem requireFile_cases {path : String}
    (h : runFrom (requireFile project compile path) s = (.ok (), t)) :
    ∃ id, resolveRequire project s.inputOrigin path s.currentFile = some id ∧
      ((id ∈ s.loadedFiles ∧
          t = withEdge s ((s.findFileNode s.currentFile).map FileNode.ref) id) ∨
        (id ∉ s.loadedFiles ∧ ∃ b u,
          runFrom (compile id) { s with loadedFiles := id :: s.loadedFiles } = (.ok (.ok b), u) ∧
            t.calls = u.calls ∧ t.requested = u.requested ∧ t.currentFile = u.currentFile)) := by
  unfold requireFile at h
  rw [runFrom_bind, runFrom_get] at h
  dsimp only at h
  split at h
  · simp at h
  · rename_i id hid
    refine ⟨id, hid, ?_⟩
    split at h
    · rename_i hloaded
      rw [runFrom_addImportEdge] at h
      cases h
      exact Or.inl ⟨hloaded, rfl⟩
    · rename_i hloaded
      right
      refine ⟨hloaded, ?_⟩
      obtain ⟨⟨⟩, v, hv, h⟩ := runFrom_bind_ok.mp h
      cases hv
      obtain ⟨result, u, hu, h⟩ := runFrom_bind_ok.mp h
      cases result with
      | error e =>
        cases e
        simp [requireLoaded, runFrom_bind] at h
      | ok b =>
        refine ⟨b, u, hu, ?_⟩
        cases b with
        | false =>
          cases h
          exact ⟨rfl, rfl, rfl⟩
        | true =>
          simp only [requireLoaded, runFrom_bind, runFrom_get, runFrom_modify] at h
          split at h
          · rw [runFrom_addImportEdge] at h
            cases h
            exact withEdge_same _ _ _
          · simp [runFrom_bind] at h

theorem cached_withEdge {path id : String}
    (hid : resolveRequire project .Default path file = some id) (hloaded : id ∈ s.loadedFiles)
    {f : FileNode} (hf : s.findFileNode file = some f) :
    Cached project file s
      (withEdge { s with requested := s.requested ++ [path] } (some f.ref) id) := by
  have hname : f.name = file := name_of_findFile hf
  have hrequests : newRequests s
      (withEdge { s with requested := s.requested ++ [path] } (some f.ref) id) = [path] := by
    unfold newRequests
    rw [(withEdge_same _ _ _).2.1]
    simp
  have hrefs : requiredRefs project s.toModules file [path] =
      ((s.findFileNode id).map FileNode.ref).toList := by
    unfold requiredRefs
    rw [List.filterMap_cons, hid, List.filterMap_nil, Option.bind_some]
    cases s.findFileNode id with
    | none => rfl
    | some dep => rfl
  have hresolved : ∀ p ∈ [path],
      ∃ id, resolveRequire project .Default p file = some id ∧ id ∈ s.loadedFiles := by
    intro p hp
    rw [List.mem_singleton.mp hp]
    exact ⟨id, hid, hloaded⟩
  cases hdep : s.findFileNode id with
  | none =>
    have hsame : withEdge { s with requested := s.requested ++ [path] } (some f.ref) id =
        { s with requested := s.requested ++ [path] } := by
      simp [withEdge, hdep]
    rw [hsame] at hrequests ⊢
    refine ⟨rfl, rfl, rfl, rfl, by rwa [hrequests], fun _ => rfl, fun _ _ => rfl, ?_⟩
    intro f' g hf' hg ref
    rw [hrequests, hrefs, hdep]
    have hsome : some f' = some g := hf'.symm.trans hg
    cases hsome
    simp
  | some dep =>
    have hedge : withEdge { s with requested := s.requested ++ [path] } (some f.ref) id =
        { s with
          requested := s.requested ++ [path]
          toModules := s.toModules.updateFile f.name fun g =>
            if g.serial = f.serial then g.addImport dep.ref else g } := by
      simp [withEdge, hdep, FileNode.ref]
    have hshape : ∀ g : FileNode, (if g.serial = f.serial then g.addImport dep.ref else g).ref =
        g.ref := by
      intro g
      split
      · unfold FileNode.addImport
        split
        · rfl
        · rfl
      · rfl
    have hfind : ∀ id', (s.toModules.updateFile f.name fun g =>
        if g.serial = f.serial then g.addImport dep.ref else g).findFileNode id' =
        (s.findFileNode id').map fun g =>
          if id' = f.name then if g.serial = f.serial then g.addImport dep.ref else g else g :=
      fun id' => findFileNode_updateFile s.toModules f.name id' fun g =>
        congrArg FileRef.name (hshape g)
    rw [hedge] at hrequests ⊢
    refine ⟨rfl, rfl, rfl, rfl, by rwa [hrequests], ?_, ?_, ?_⟩
    · intro id'
      rw [hfind, Option.map_map]
      congr 1
      funext g
      simp only [Function.comp_apply]
      split
      · exact hshape g
      · rfl
    · intro id' hne
      rw [hfind, hname, Option.map_map]
      congr 1
      funext g
      simp [hne]
    · intro f' g hf' hg ref
      rw [hrequests, hrefs, hdep]
      obtain rfl : f = f' := Option.some.inj (hf.symm.trans hf')
      rw [hfind, hf, hname, Option.map_some, if_pos rfl, if_pos rfl, Option.some.injEq] at hg
      rw [← hg]
      unfold FileNode.addImport
      simp only [Option.map_some, Option.toList_some, List.mem_singleton]
      split
      · rename_i hself
        rcases hself with hself | hmem
        · rw [hself]
          tauto
        · constructor
          · exact Or.inl
          · rintro (h | ⟨-, rfl⟩)
            · exact h
            · exact hmem
      · rename_i hnew
        rw [not_or] at hnew
        simp only [List.mem_append, List.mem_singleton]
        constructor
        · rintro (h | rfl)
          · exact Or.inl h
          · exact Or.inr ⟨hnew.1, rfl⟩
        · rintro (h | ⟨-, rfl⟩)
          · exact Or.inl h
          · exact Or.inr rfl

theorem sameGraph_addRequire (file path : String) : Respects SameGraph (do
    let s ← get
    match resolveRequire project s.inputOrigin path file with
    | none => pure ()
    | some id =>
      let name := project.withoutExtension id
      if name ≠ "" ∧ name ≠ project.withoutExtension file then
        modifyFile file fun f => f.addRequire name
      else pure () : CompilerM σ Unit) := by
  apply sameGraph_bind sameGraph_get
  intro s
  split
  · exact sameGraph_pure _
  · dsimp only
    split
    · apply sameGraph_modifyFile
      intro g
      unfold FileNode.addRequire
      split
      · rfl
      · rfl
    · exact sameGraph_pure _

theorem buildRequire_cases {path : String}
    (h : runFrom (buildRequire project compile file path) s = (.ok (), t)) :
    ∃ u, runFrom (requireFile project compile path)
      { s with requested := s.requested ++ [path] } = (.ok (), u) ∧ SameGraph u t := by
  obtain ⟨⟨⟩, v, hv, h⟩ := runFrom_bind_ok.mp h
  cases hv
  obtain ⟨⟨⟩, u, hu, h⟩ := runFrom_bind_ok.mp h
  refine ⟨u, hu, ?_⟩
  exact (sameGraph_addRequire file path).achieves u () t h

variable (hcompile : ∀ id s b t, runFrom (compile id) s = (.ok (.ok b), t) → Called id s t)

include hcompile

theorem progress_buildRequire (path : String) :
    Achieves (GraphProgress project file) (buildRequire project compile file path) := by
  intro s a t h
  obtain ⟨u, hu, hut⟩ := buildRequire_cases h
  suffices GraphProgress project file s u from this.trans hut.progress
  obtain ⟨id, hid, hcases⟩ := requireFile_cases hu
  have hrequests : ∀ {v : Session σ}, v.requested = s.requested ++ [path] →
      newRequests s v = [path] := by
    intro v hv
    rw [newRequests, hv, List.drop_left]
  rcases hcases with ⟨hloaded, rfl⟩ | ⟨hfresh, b, v, hv, hcalls, hrequested, hcurrent⟩
  · obtain ⟨hsame, hreq, hcur⟩ := withEdge_same { s with requested := s.requested ++ [path] }
      ((s.findFileNode s.currentFile).map FileNode.ref) id
    have hlater : Later s (withEdge { s with requested := s.requested ++ [path] }
        ((s.findFileNode s.currentFile).map FileNode.ref) id) := by
      refine ⟨?_, ?_, fun _ => hcur⟩
      · rw [hsame]
      · rw [hreq]
        exact List.prefix_append _ _
    refine ⟨hlater, ?_⟩
    intro hfile horigin hsome
    left
    obtain ⟨f, hf⟩ := Option.isSome_iff_exists.mp hsome
    have hid' : resolveRequire project .Default path file = some id := by
      rw [← horigin, ← hfile]
      exact hid
    have hcached : Cached project file s
        (withEdge { s with requested := s.requested ++ [path] } (some f.ref) id) :=
      cached_withEdge (s := s) hid' hloaded hf
    have href : (s.findFileNode s.currentFile).map FileNode.ref = some f.ref := by
      rw [hfile, hf]
      rfl
    have hgoal : Cached project file s (withEdge { s with requested := s.requested ++ [path] }
        ((s.findFileNode s.currentFile).map FileNode.ref) id) := by
      rw [href]
      exact hcached
    exact hgoal
  · have hcalled := hcompile _ _ _ _ hv
    have hlater : Later
        { s with requested := s.requested ++ [path], loadedFiles := id :: s.loadedFiles } v :=
      hcalled.later
    have hnew : newCalls s u = newCalls
        { s with requested := s.requested ++ [path], loadedFiles := id :: s.loadedFiles } v := by
      rw [newCalls, newCalls, hcalls]
    have hreq : u.requested = s.requested ++ [path] := hrequested.trans hcalled.requested
    refine ⟨⟨?_, ?_, ?_⟩, ?_⟩
    · rw [hcalls]
      exact hlater.calls
    · rw [hreq]
      exact List.prefix_append _ _
    · intro hall
      rw [hcurrent]
      exact hlater.current (hnew ▸ hall)
    · intro hfile horigin _
      right
      refine ⟨path, ?_, id, ?_, hfresh, ?_⟩
      · rw [hrequests hreq]
        exact List.mem_singleton_self path
      · rw [← horigin, ← hfile]
        exact hid
      · intro hall
        have hland := hcalled.lands (hnew ▸ hall)
        have hstay := hlater.current (hnew ▸ hall)
        rw [← hland, hstay]
        exact hfile

theorem progress_runBuild (program : BuildProgram σ) :
    Achieves (GraphProgress project file) (runBuild project compile file program) := by
  induction program with
  | done node => exact achieves_progress (sameGraph_pure node)
  | failed => exact achieves_progress (sameGraph_throw _)
  | read next ih =>
    rw [runBuild]
    apply progress_bind
    · exact achieves_progress sameGraph_get
    · exact fun s => ih s
  | changeFile change next ih =>
    rw [runBuild]
    apply progress_bind
    · exact achieves_progress (sameGraph_modifyFile file (graphOf_apply change))
    · exact fun _ => ih
  | bindGlobal name node next ih =>
    rw [runBuild]
    apply progress_bind
    · exact achieves_progress
        (sameGraph_rest fun s => ⟨rfl, rfl, rfl, rfl, rfl, fun _ => rfl⟩)
    · exact fun _ => ih
  | changeRest rest next ih =>
    rw [runBuild]
    apply progress_bind
    · exact achieves_progress
        (sameGraph_rest fun s => ⟨rfl, rfl, rfl, rfl, rfl, fun _ => rfl⟩)
    · exact fun _ => ih
  | require path next ih =>
    rw [runBuild]
    apply progress_bind
    · exact progress_buildRequire hcompile path
    · exact fun _ => ih

theorem progress_compileStateBody (name : String) (form : Object) :
    Achieves (GraphProgress project file) (compileStateBody project compile file name form) := by
  unfold compileStateBody
  apply progress_bind
  · exact progress_runBuild hcompile _
  · intro node
    apply achieves_progress
    split
    · exact sameGraph_modifyFile _ fun g => rfl
    · exact sameGraph_pure _

theorem progress_compileStateScripts :
    Achieves (GraphProgress project file) (compileStateScripts project compile file) := by
  unfold compileStateScripts
  apply progress_bind
  · exact achieves_progress sameGraph_get
  · intro s
    apply progress_forM
    intro type
    unfold compileStateScript
    apply progress_bind
    · exact achieves_progress sameGraph_get
    · intro s
      apply progress_forM
      exact fun body => progress_compileStateBody hcompile body.1 body.2

theorem progress_compileForms (forms : List Object) (ref : FileRef) (isRepl : Bool) :
    Achieves (GraphProgress project ref.name) (compileForms project compile forms ref isRepl) := by
  unfold compileForms
  apply progress_bind
  · apply achieves_foldlM progress_refl (fun _ _ _ => GraphProgress.trans)
    intro l form
    unfold compileForm
    apply progress_bind
    · exact progress_runBuild hcompile _
    · exact fun node => achieves_progress (sameGraph_processNode isRepl l node)
  · intro l
    apply progress_bind
    · exact progress_compileStateScripts hcompile
    · intro _
      apply achieves_progress
      apply sameGraph_bind (sameGraph_generateFile ref)
      intro made
      apply sameGraph_bind
      · apply respects_forM sameGraph_refl sameGraph_trans
        exact fun owner => sameGraph_rebuildOwner owner
      · intro _
        split
        · exact sameGraph_pure _
        · split
          · exact sameGraph_pure _
          · apply sameGraph_bind
            · exact sameGraph_rest fun s => ⟨rfl, rfl, rfl, rfl, rfl, fun _ => rfl⟩
            · exact fun _ => sameGraph_pure _

end Requiring

end Soot.Analysis
