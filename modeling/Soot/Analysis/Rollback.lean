import Soot.Analysis.CompileCalls
import Soot.Model.Rollback

/-!
# Failed compilations that leave no trace

A compilation whose steps spare its file leaves the snapshot of the global environment, every
other file, and what the rollback does not restore of its own file as they were; so when it
throws, the rollback restores the rest.
-/

set_option autoImplicit false

namespace Soot.Analysis

open Soot.Computation Soot.Program Soot.Model StatefulExcept

variable {l : Locals}

variable {σ : Type} {project : Project σ} {compile : String → CompilerM σ (Except Unit Bool)}
  {nested : String → Session σ → Prop} {s s₀ t : Session σ} {f₀ f g : FileNode} {owns : Bool}
  {file : String}

/-! ## What a sparing step keeps -/

/-- What a rollback needs of a file: it has the children it had first, and nothing new in the
tables that are not restored. -/
structure SameKept (f₀ f : FileNode) : Prop where
  serial : f.serial = f₀.serial
  imports : f.imports = f₀.imports
  requires : f.requires = f₀.requires
  names : f.anonNameCounter = f₀.anonNameCounter
  children : f₀.children <+: f.children

/-- What a rollback needs of a session. -/
structure Intact (s₀ : Session σ) (f₀ : FileNode) (owns : Bool) (file : String) (s : Session σ) :
    Prop where
  snapshot : s.globalSnapshot = some s₀.globalEnv
  loaded : s.loadedFiles = s₀.loadedFiles
  others : ∀ id, id ≠ file → s.findFileNode id = s₀.findFileNode id
  own : ∃ f, s.findFileNode file = some f ∧ (owns = false → SameKept f₀ f)

/-- What is left to a rollback: the global environment and every file but its own are what they
were, or will be. -/
structure Restorable (s₀ : Session σ) (f₀ : FileNode) (owns : Bool) (file : String)
    (s : Session σ) : Prop where
  globals : s.globalEnv.rollback s.globalSnapshot = s₀.globalEnv
  others : ∀ id, id ≠ file → (s.findFileNode id).map contents = (s₀.findFileNode id).map contents
  own : ∃ f, s.findFileNode file = some f ∧ (owns = false → SameKept f₀ f)

theorem Intact.restorable (h : Intact s₀ f₀ owns file s) : Restorable s₀ f₀ owns file s := by
  refine ⟨?_, ?_, h.own⟩
  · rw [h.snapshot]
    rfl
  · intro id hid
    rw [h.others id hid]

/-- A nested compilation that fails as it should leaves all to the rollback. -/
def FailsSparing (compile : String → CompilerM σ (Except Unit Bool))
    (nested : String → Session σ → Prop) (s₀ : Session σ) (f₀ : FileNode) (owns : Bool)
    (file : String) : Prop :=
  ∀ id path s, Intact s₀ f₀ owns file s → nested id s →
    Yields (compile id)
      { s with requested := s.requested ++ [path], loadedFiles := id :: s.loadedFiles }
      (fun r t => r = .error () ∧ Restorable s₀ f₀ owns file t)
      fun _ t => Restorable s₀ f₀ owns file t

theorem Intact.congr (h : Intact s₀ f₀ owns file s)
    (hsnapshot : t.globalSnapshot = s.globalSnapshot) (hloaded : t.loadedFiles = s.loadedFiles)
    (hfind : ∀ id, t.findFileNode id = s.findFileNode id) : Intact s₀ f₀ owns file t := by
  constructor
  · rw [hsnapshot, h.snapshot]
  · rw [hloaded, h.loaded]
  · intro id hid
    rw [hfind, h.others id hid]
  · rw [hfind]
    exact h.own

theorem Intact.update (h : Intact s₀ f₀ owns file s) {k : FileNode → FileNode}
    (hname : ∀ g, (k g).name = g.name)
    (hkept : owns = false → ∀ g, s.findFileNode file = some g → SameKept f₀ g →
      SameKept f₀ (k g)) :
    Intact s₀ f₀ owns file { s with toModules := s.toModules.updateFile file k } := by
  have hfind : ∀ id, (s.toModules.updateFile file k).findFileNode id =
      (s.findFileNode id).map fun g => if id = file then k g else g :=
    fun id => findFileNode_updateFile s.toModules file id hname
  constructor
  · exact h.snapshot
  · exact h.loaded
  · intro id hid
    rw [← h.others id hid]
    change (s.toModules.updateFile file k).findFileNode id = _
    simp [hfind, hid]
  · obtain ⟨g, hg, hsame⟩ := h.own
    refine ⟨k g, ?_, fun howns => hkept howns g hg (hsame howns)⟩
    change (s.toModules.updateFile file k).findFileNode file = _
    simp [hfind, hg]

/-! ## Children -/

theorem prefix_map {α : Type} {kept l : List α} {k : α → α} (h : kept <+: l)
    (hk : ∀ c ∈ kept, k c = c) : kept <+: l.map k := by
  obtain ⟨rest, rfl⟩ := h
  rw [List.map_append, List.map_congr_left hk, List.map_id']
  exact List.prefix_append _ _

theorem prefix_filter {α : Type} {kept l : List α} {p : α → Bool} (h : kept <+: l)
    (hp : ∀ c ∈ kept, p c = true) : kept <+: l.filter p := by
  obtain ⟨rest, rfl⟩ := h
  rw [List.filter_append, List.filter_eq_self.mpr hp]
  exact List.prefix_append _ _

theorem prefix_eraseP {α : Type} {kept l : List α} {p : α → Bool} (h : kept <+: l)
    (hp : ∀ c ∈ kept, p c = false) : kept <+: l.eraseP p := by
  obtain ⟨rest, rfl⟩ := h
  rw [List.eraseP_append_right _ fun c hc => by simp [hp c hc]]
  exact List.prefix_append _ _

theorem SameKept.of_children (h : SameKept f₀ f) {children : List Built}
    (hkeep : f₀.children <+: children) : SameKept f₀ { f with children } :=
  ⟨h.serial, h.imports, h.requires, h.names, hkeep⟩

theorem ne_of_spared {kept : List Built} {id : ℕ} (h : ∀ c ∈ kept, c.functionId ≠ some id)
    {fn : FunctionDecl} (hc : .function fn ∈ kept) : fn.id ≠ id :=
  fun hid => h _ hc (congrArg some hid)

theorem SameKept.apply {change : FileChange} (h : SameKept f₀ f)
    (hspares : SparesChildren f₀.children change) : SameKept f₀ (change.apply f) := by
  cases change with
  | addChild child => exact h.of_children (h.children.trans (List.prefix_append _ _))
  | releaseChild id =>
    unfold FileChange.apply FileNode.releaseChild
    dsimp only
    split
    · apply h.of_children
      apply prefix_eraseP h.children
      intro c hc
      simpa using hspares c hc
    · exact h
  | renameChild id name =>
    apply h.of_children
    apply prefix_map h.children
    intro c hc
    cases c with
    | function fn => simp [ne_of_spared hspares hc]
    | _ => rfl
  | setChildBody id body =>
    apply h.of_children
    apply prefix_map h.children
    intro c hc
    cases c with
    | function fn => simp [ne_of_spared hspares hc]
    | _ => rfl
  | bind name node => exact ⟨h.serial, h.imports, h.requires, h.names, h.children⟩
  | removeNamed name =>
    have hkeep : f₀.children <+: f.children.filter fun c => c.declaredName != some name := by
      apply prefix_filter h.children
      intro c hc
      simpa using hspares c hc
    exact ⟨h.serial, h.imports, h.requires, h.names, hkeep⟩
  | addPlaceholder name =>
    unfold FileChange.apply FileNode.addPlaceholder
    dsimp only
    split
    · exact h
    · exact ⟨h.serial, h.imports, h.requires, h.names, h.children⟩

/-! ## The builder -/

theorem name_apply (change : FileChange) (f : FileNode) : (change.apply f).name = f.name :=
  congrArg Prod.fst (graphOf_apply change f)

theorem Intact.withEdge (h : Intact s₀ f₀ owns file s) {id : String}
    (himports : (owns ∧ s.currentFile = file) ∨ ∀ f dep, s.findFileNode s.currentFile = some f →
      s.findFileNode id = some dep → dep.ref = f.ref ∨ dep.ref ∈ f.imports) :
    Intact s₀ f₀ owns file
      (withEdge s ((s.findFileNode s.currentFile).map FileNode.ref) id) := by
  unfold Analysis.withEdge
  split
  · rename_i source dep hsource hdep
    obtain ⟨f, hf, rfl⟩ := Option.map_eq_some_iff.mp hsource
    have hname : f.name = s.currentFile := name_of_findFile hf
    have hk : ∀ g : FileNode, (if g.serial = f.ref.serial then g.addImport dep.ref else g).name =
        g.name := by
      intro g
      split
      · unfold FileNode.addImport
        split
        · rfl
        · rfl
      · rfl
    rcases himports with ⟨howns, hcurrent⟩ | hpresent
    · have hfile : f.ref.name = file := hname.trans hcurrent
      rw [hfile]
      apply h.update hk
      intro hnot
      rw [hnot] at howns
      cases howns
    · apply h.congr
      · rfl
      · rfl
      · intro id'
        have hfind := findFileNode_updateFile s.toModules f.ref.name id' hk
        change (s.toModules.updateFile f.ref.name _).findFileNode id' = _
        rw [hfind]
        by_cases hid : id' = f.ref.name
        · have hfound : s.findFileNode id' = some f := by rwa [hid, FileNode.ref, hname]
          rw [hfound]
          simp [hid, FileNode.addImport, hpresent f dep hf hdep]
        · simp [hid]
  · exact h

theorem origin_withEdge (s : Session σ) (fromFile : Option FileRef) (target : String) :
    (Analysis.withEdge s fromFile target).inputOrigin = s.inputOrigin := by
  unfold Analysis.withEdge
  split
  · rfl
  · rfl

theorem requires_withEdge (s : Session σ) (fromFile : Option FileRef) (target name : String) :
    ((Analysis.withEdge s fromFile target).findFileNode name).map FileNode.requires =
      (s.findFileNode name).map FileNode.requires := by
  unfold Analysis.withEdge
  split
  · rename_i source dep hdep
    have hk : ∀ g : FileNode, (if g.serial = source.serial then g.addImport dep.ref else g).name =
        g.name ∧ (if g.serial = source.serial then g.addImport dep.ref else g).requires =
          g.requires := by
      intro g
      split
      · unfold FileNode.addImport
        split
        · exact ⟨rfl, rfl⟩
        · exact ⟨rfl, rfl⟩
      · exact ⟨rfl, rfl⟩
    have hfind := findFileNode_updateFile s.toModules source.name name fun g => (hk g).1
    change ((s.toModules.updateFile source.name _).findFileNode name).map FileNode.requires = _
    rw [hfind, Option.map_map]
    congr 1
    funext g
    simp only [Function.comp_apply]
    split
    · exact (hk g).2
    · rfl
  · rfl

theorem name_addRequire (g : FileNode) (name : String) : (g.addRequire name).name = g.name := by
  unfold FileNode.addRequire
  split
  · rfl
  · rfl

theorem Intact.addRequire {path : String} (ht : Intact s₀ f₀ owns file t)
    (hspares : SparesLoaded project owns file path s) (horigin : t.inputOrigin = s.inputOrigin)
    (hfiles : (t.findFileNode file).map FileNode.requires =
      (s.findFileNode file).map FileNode.requires) :
    Yields (do
      let s ← get
      match resolveRequire project s.inputOrigin path file with
      | none => pure ()
      | some id =>
        let name := project.withoutExtension id
        if name ≠ "" ∧ name ≠ project.withoutExtension file then
          modifyFile file fun f => f.addRequire name
        else pure () : CompilerM σ Unit) t (fun _ t => Intact s₀ f₀ owns file t)
      fun _ t => Restorable s₀ f₀ owns file t := by
  apply yields_bind
  apply yields_get
  split
  · exact yields_pure ht
  · rename_i id hid
    dsimp only
    split
    · rename_i hname
      apply yields_modify
      apply ht.update fun g => name_addRequire g _
      intro howns g hg hsame
      rw [hg] at hfiles
      obtain ⟨g', hg', hrequires⟩ := Option.map_eq_some_iff.mp hfiles.symm
      rcases hspares.requires with howns' | hpresent
      · rw [howns] at howns'
        cases howns'
      · rw [horigin] at hid
        have hmem := hpresent id g' hid hname.1 hname.2 hg'
        rw [hrequires] at hmem
        rwa [FileNode.addRequire, if_pos hmem]
    · exact yields_pure ht

theorem Intact.buildRequire (h : Intact s₀ f₀ owns file s)
    (hfails : FailsSparing compile nested s₀ f₀ owns file) {path : String}
    (hspares : SparesRequire project nested owns file path s) :
    Yields (buildRequire project compile file path) s (fun _ t => Intact s₀ f₀ owns file t)
      fun _ t => Restorable s₀ f₀ owns file t := by
  have hrequested : Intact s₀ f₀ owns file { s with requested := s.requested ++ [path] } :=
    h.congr rfl rfl fun _ => rfl
  unfold Program.buildRequire
  apply yields_bind
  apply yields_modify
  apply yields_bind
  unfold requireFile
  apply yields_bind
  apply yields_get
  dsimp only
  split
  · exact yields_throw hrequested.restorable
  · rename_i id hid
    obtain ⟨hlisted, hnested⟩ := hspares id hid
    by_cases hloaded : id ∈ s.loadedFiles
    · rw [if_pos hloaded]
      have hlisted := hlisted hloaded
      have himports := hlisted.imports.imp_right fun himports f dep => himports id f dep hid
      apply yields_of_run (runFrom_addImportEdge _ _ id)
      apply (hrequested.withEdge himports).addRequire hlisted
      · exact origin_withEdge _ _ id
      · exact requires_withEdge _ _ id file
    · rw [if_neg hloaded]
      apply yields_bind
      apply yields_modify
      apply yields_bind
      apply (hfails id path s h (hnested hloaded)).mono
      rintro _ t - ⟨rfl, ht⟩
      apply yields_bind
      apply yields_modify
      exact yields_throw ⟨ht.globals, ht.others, ht.own⟩

theorem Intact.runBuild {program : BuildProgram σ} (h : Intact s₀ f₀ owns file s)
    (hfails : FailsSparing compile nested s₀ f₀ owns file)
    (hspares : SparesBuild project compile nested owns f₀.children file program s) :
    Yields (runBuild project compile file program) s (fun _ t => Intact s₀ f₀ owns file t)
      fun _ t => Restorable s₀ f₀ owns file t := by
  induction program generalizing s with
  | done node => exact yields_pure h
  | failed => exact yields_throw h.restorable
  | read next ih =>
    rw [Program.runBuild]
    apply yields_bind
    apply yields_get
    exact ih s h hspares
  | changeFile change next ih =>
    rw [Program.runBuild]
    apply yields_bind
    apply yields_modify
    apply ih _ hspares.2
    apply h.update (name_apply change)
    exact fun _ g _ hg => hg.apply hspares.1
  | bindGlobal name node next ih =>
    rw [Program.runBuild]
    apply yields_bind
    apply yields_modify
    exact ih (h.congr rfl rfl fun _ => rfl) hspares
  | changeRest rest next ih =>
    rw [Program.runBuild]
    apply yields_bind
    apply yields_modify
    exact ih (h.congr rfl rfl fun _ => rfl) hspares
  | require path next ih =>
    rw [Program.runBuild]
    apply yields_bind
    apply (h.buildRequire hfails hspares.1).mono
    intro _ t hrun ht
    exact ih ht (hspares.2 t hrun)

/-! ## Nodes -/

/-- The files that received a method are none, and the top-level function is a new one. -/
structure SparedLocals (kept : List Built) (l : Locals) : Prop where
  owners : l.owners = []
  topLevel : ∀ id, l.topLevel = some id → ∀ c ∈ kept, c.functionId ≠ some id

theorem SameKept.setBody (h : SameKept f₀ f) {id : ℕ}
    (hid : ∀ c ∈ f₀.children, c.functionId ≠ some id) {k : FunctionDecl → FunctionDecl} :
    f₀.children <+: f.children.map fun c =>
      match c with
      | .function fn => if fn.id = id then .function (k fn) else c
      | _ => c := by
  apply prefix_map h.children
  intro c hc
  cases c with
  | function fn => simp [ne_of_spared hid hc]
  | _ => rfl

theorem SameKept.withTopLevel (h : SameKept f₀ f) {id body : ℕ}
    (hid : ∀ c ∈ f₀.children, c.functionId ≠ some id) :
    SameKept f₀ (f.withTopLevel l id body) := by
  have hadded : SameKept f₀ (if (l.topLevel.or f.topLevel).isSome then f
      else { f.addChild (.function (.new id "top-level")) with topLevel := id }) := by
    split
    · exact h
    · exact ⟨h.serial, h.imports, h.requires, h.names,
        h.children.trans (List.prefix_append _ _)⟩
  unfold FileNode.withTopLevel
  dsimp only
  split
  · exact hadded
  · exact ⟨hadded.serial, hadded.imports, hadded.requires, hadded.names, hadded.setBody hid⟩

theorem Intact.ensureTopLevel (h : Intact s₀ f₀ owns file s)
    (hl : SparedLocals f₀.children l) (hspares : SparesTopLevel f₀.children file l s) :
    Yields (ensureTopLevel file l : CompilerM σ Locals) s
      (fun l' t => Intact s₀ f₀ owns file t ∧ SparedLocals f₀.children l' ∧ l'.topLevel.isSome)
      fun _ t => Restorable s₀ f₀ owns file t := by
  unfold Program.ensureTopLevel
  apply yields_bind
  apply yields_get
  split
  · exact yields_throw h.restorable
  · rename_i f hf
    have hnew := hspares f hf
    apply yields_bind
    apply yields_modify
    apply yields_bind
    apply yields_modify
    apply yields_pure
    refine ⟨?_, ⟨hl.owners, ?_⟩, rfl⟩
    · have hupdate := h.update (k := fun g => g.withTopLevel l _ s.nextNode)
        (fun g => congrArg Prod.fst (graphOf_withTopLevel g l _ s.nextNode))
        fun _ g _ hg => hg.withTopLevel hnew
      exact hupdate.congr rfl rfl fun _ => rfl
    · intro id hid
      rw [← Option.some.inj hid]
      exact hnew

theorem Intact.addToTopLevel (h : Intact s₀ f₀ owns file s)
    (hl : SparedLocals f₀.children l) (hspares : SparesTopLevel f₀.children file l s)
    (node : Node) :
    Yields (addToTopLevel file l node : CompilerM σ Locals) s
      (fun l' t => Intact s₀ f₀ owns file t ∧ SparedLocals f₀.children l' ∧ l'.topLevel.isSome)
      fun _ t => Restorable s₀ f₀ owns file t := by
  unfold Program.addToTopLevel
  apply yields_bind
  apply (h.ensureTopLevel hl hspares).mono
  rintro l' t - ⟨ht, hl', hsome⟩
  apply yields_bind
  apply yields_get
  split
  · apply yields_bind
    apply yields_modify
    apply yields_pure
    refine ⟨?_, hl', hsome⟩
    apply ht.update
    · exact fun g => rfl
    · intro _ g _ hg
      apply hg.of_children
      apply prefix_map hg.children
      intro c hc
      cases c with
      | function fn =>
        have hne : some fn.id ≠ l'.topLevel := by
          intro hid
          exact hl'.topLevel fn.id hid.symm _ hc rfl
        simp [hne]
      | _ => rfl
  · exact yields_throw ht.restorable

theorem sparesTopLevel_of_isSome {kept : List Built} (hl : SparedLocals kept l)
    (hsome : l.topLevel.isSome) : SparesTopLevel kept file l s := by
  obtain ⟨id, hid⟩ := Option.isSome_iff_exists.mp hsome
  intro f _ c hc
  rw [hid, Option.some_or, Option.getD_some]
  exact hl.topLevel id hid c hc

theorem Intact.addChild (h : Intact s₀ f₀ owns file s)
    (hl : SparedLocals f₀.children l) (child : Built) :
    Yields (do
        modifyFile file fun f => f.addChild child
        return l : CompilerM σ Locals) s
      (fun l' t => Intact s₀ f₀ owns file t ∧ SparedLocals f₀.children l')
      fun _ t => Restorable s₀ f₀ owns file t := by
  apply yields_bind
  apply yields_modify
  apply yields_pure
  refine ⟨?_, hl⟩
  apply h.update
  · exact fun g => rfl
  · exact fun _ g _ hg => hg.of_children (hg.children.trans (List.prefix_append _ _))

theorem Intact.addData (h : Intact s₀ f₀ owns file s)
    (hspares : SparesTopLevel f₀.children file l s) (decl : DataDecl) :
    Intact s₀ f₀ owns file { s with
      toModules := s.toModules.updateFile file fun f => f.addChild (.data decl) } ∧
    SparesTopLevel f₀.children file l { s with
      toModules := s.toModules.updateFile file fun f => f.addChild (.data decl) } := by
  constructor
  · apply h.update
    · exact fun g => rfl
    · exact fun _ g _ hg => hg.of_children (hg.children.trans (List.prefix_append _ _))
  · intro f hf
    have hfind := findFileNode_updateFile s.toModules file file
      (f := fun f => f.addChild (.data decl)) fun g => rfl
    change (s.toModules.updateFile file _).findFileNode file = _ at hf
    rw [hfind] at hf
    obtain ⟨g, hg, hgf⟩ := Option.map_eq_some_iff.mp hf
    have htop : f.topLevel = g.topLevel := by
      rw [← hgf, if_pos rfl]
      rfl
    rw [htop]
    exact hspares g hg

theorem Intact.addStores (h : Intact s₀ f₀ owns file s)
    (hl : SparedLocals f₀.children l) (hsome : l.topLevel.isSome) (stores : List Node) :
    Yields (stores.foldlM (fun l store => Program.addToTopLevel file l store) l :
        CompilerM σ Locals) s
      (fun l' t => Intact s₀ f₀ owns file t ∧ SparedLocals f₀.children l' ∧ l'.topLevel.isSome)
      fun _ t => Restorable s₀ f₀ owns file t := by
  induction stores generalizing s l with
  | nil => exact yields_pure ⟨h, hl, hsome⟩
  | cons store stores ih =>
    rw [List.foldlM_cons]
    apply yields_bind
    apply (h.addToTopLevel hl (sparesTopLevel_of_isSome hl hsome) store).mono
    rintro l' t - ⟨ht, hl', hsome'⟩
    exact ih ht hl' hsome'

theorem Intact.processNode (h : Intact s₀ f₀ owns file s)
    (hl : SparedLocals f₀.children l) {isRepl : Bool} {node : Option Built}
    (hspares : SparesNode f₀.children file l s node) :
    Yields (processNode file isRepl l node : CompilerM σ Locals) s
      (fun l' t => Intact s₀ f₀ owns file t ∧ SparedLocals f₀.children l')
      fun _ t => Restorable s₀ f₀ owns file t := by
  cases node with
  | none => exact yields_pure ⟨h, hl⟩
  | some node =>
    cases node with
    | expression node =>
      simp only [Program.processNode]
      split
      · exact yields_throw h.restorable
      · rename_i hnew
        split
        · exact yields_pure ⟨h, hl⟩
        · rename_i hempty
          have htop : SparesTopLevel f₀.children file l s := by
            rcases hspares with hnew' | rfl | htop
            · exact absurd hnew' hnew
            · exact absurd rfl hempty
            · exact htop
          exact (h.addToTopLevel hl htop node).mono fun _ _ _ hl' => ⟨hl'.1, hl'.2.1⟩
    | function fn =>
      simp only [Program.processNode]
      apply yields_bind
      apply yields_get
      split
      · exact h.addChild hl _
      · rename_i owner howner
        rw [if_pos (hspares owner howner)]
        exact h.addChild hl _
    | typeDeclaration type =>
      simp only [Program.processNode]
      apply yields_bind
      apply yields_get
      split
      · exact yields_pure ⟨h, hl⟩
      · exact h.addChild hl _
    | enumDeclaration name => exact h.addChild hl _
    | stateScript type => exact h.addChild hl _
    | data decl => exact h.addChild hl _
    | heapDefine decl store =>
      simp only [Program.processNode]
      apply yields_bind
      apply yields_modify
      obtain ⟨hadded, htop⟩ := h.addData hspares decl
      exact (hadded.addToTopLevel hl htop store).mono fun _ _ _ hl' => ⟨hl'.1, hl'.2.1⟩
    | staticDefine decl stores =>
      simp only [Program.processNode]
      apply yields_bind
      apply yields_modify
      obtain ⟨hadded, htop⟩ := h.addData hspares decl
      apply yields_bind
      apply (hadded.ensureTopLevel hl htop).mono
      rintro l' t - ⟨ht, hl', hsome⟩
      have hstores := ht.addStores hl' hsome stores
      exact hstores.mono fun _ _ _ hl'' => ⟨hl''.1, hl''.2.1⟩

/-! ## A compilation -/

theorem Intact.compileStateScript (h : Intact s₀ f₀ owns file s)
    (hfails : FailsSparing compile nested s₀ f₀ owns file) {type : String}
    (hspares : SparesScript project compile nested owns f₀.children file type s) :
    Yields (compileStateScript project compile file type) s
      (fun _ t => Intact s₀ f₀ owns file t) fun _ t => Restorable s₀ f₀ owns file t := by
  unfold Program.compileStateScript
  apply yields_bind
  apply yields_get
  refine yields_forM ?_ _ h hspares
  intro body s h hbody
  unfold compileStateBody
  apply yields_bind
  apply (h.runBuild hfails hbody).mono
  intro node t _ ht
  split
  · apply yields_modify
    apply ht.update
    · exact fun g => rfl
    · intro _ g _ hg
      refine ⟨hg.serial, hg.imports, hg.requires, hg.names, ?_⟩
      exact hg.children.trans (List.prefix_append _ _)
  · exact yields_pure ht

theorem Intact.generateFile (h : Intact s₀ f₀ owns file s) {ref : FileRef}
    (href : ref.name = file) (hspares : SparesNames project owns ref s) :
    Yields (generateFile project ref) s (fun _ t => Intact s₀ f₀ owns file t)
      fun _ t => Restorable s₀ f₀ owns file t := by
  unfold Program.generateFile
  apply yields_bind
  apply yields_get
  split
  · exact yields_throw h.restorable
  · rename_i f hf
    apply yields_bind
    apply yields_modify
    have hnames : Intact s₀ f₀ owns file { s with
        toModules := s.toModules.updateFile ref.name fun f' =>
          { f' with anonNameCounter := (project.generate f s.rest).anonNameCounter } } := by
      rw [href]
      apply h.update
      · exact fun g => rfl
      · intro howns g hg hsame
        have hfound := (derefFile_eq_some.mp hf).1
        rw [href] at hfound
        obtain rfl : g = f := Option.some.inj (hg.symm.trans hfound)
        rcases hspares with howns' | hspares
        · rw [howns] at howns'
          cases howns'
        · exact ⟨hsame.serial, hsame.imports, hsame.requires, (hspares g hf).trans hsame.names,
            hsame.children⟩
    split
    · exact yields_throw hnames.restorable
    · exact yields_pure hnames
    · apply yields_bind
      apply yields_modify
      apply yields_pure
      rw [href] at hnames ⊢
      apply hnames.update
      · exact fun g => rfl
      · exact fun _ g _ hg => ⟨hg.serial, hg.imports, hg.requires, hg.names, hg.children⟩

theorem Intact.compileForms (h : Intact s₀ f₀ owns file s) {forms : List Object} {isRepl : Bool}
    (hname : f₀.ref.name = file) (hfails : FailsSparing compile nested s₀ f₀ owns file)
    (hspares : SparesForms project compile nested owns f₀.children forms f₀.ref isRepl s) :
    Yields (compileForms project compile forms f₀.ref isRepl) s (fun _ _ => True)
      fun _ t => Restorable s₀ f₀ owns file t := by
  subst hname
  unfold Program.compileForms
  apply yields_bind
  have hforms : Yields
      (forms.foldlM (compileForm project compile f₀.ref.name isRepl) ⟨none, none, []⟩) s
      (fun l t => Intact s₀ f₀ owns f₀.ref.name t ∧ SparedLocals f₀.children l)
      fun _ t => Restorable s₀ f₀ owns f₀.ref.name t := by
    apply yields_foldlM (I := fun l t => Intact s₀ f₀ owns f₀.ref.name t ∧
      SparedLocals f₀.children l) _ forms ⟨h, rfl, by simp⟩ hspares.builds
    rintro l form s ⟨h, hl⟩ hform
    unfold compileForm
    apply yields_bind
    apply (h.runBuild hfails hform.1).mono
    intro node t hrun ht
    exact ht.processNode hl (hform.2 node t hrun)
  apply hforms.mono
  rintro l t hrun ⟨ht, hl⟩
  obtain ⟨hscripts, hnames⟩ := hspares.scripts l t hrun
  apply yields_bind
  have hcompiled : Yields (compileStateScripts project compile f₀.ref.name) t
      (fun _ u => Intact s₀ f₀ owns f₀.ref.name u)
      fun _ u => Restorable s₀ f₀ owns f₀.ref.name u := by
    unfold compileStateScripts
    apply yields_bind
    apply yields_get
    exact yields_forM (fun type s h hspares => h.compileStateScript hfails hspares) _ ht hscripts
  apply hcompiled.mono
  intro _ u hrun hu
  apply yields_bind
  apply (hu.generateFile rfl (hnames u hrun)).mono
  intro made v _ hv
  rw [hl.owners, List.dedup_nil]
  apply yields_bind
  apply yields_pure
  split
  · exact yields_pure trivial
  · split
    · exact yields_pure trivial
    · exact yields_bind (yields_modify (yields_pure trivial))

/-! ## The rollback -/

theorem intact_entered (s : Session σ) (filename : String) (isRepl : Bool) (owns : Bool) :
    Intact s (entered s filename isRepl).2.2 owns (entered s filename isRepl).1
      (entered s filename isRepl).2.1 := by
  unfold entered
  dsimp only
  generalize (if isRepl then "<repl-" ++ toString s.replCounter ++ ">" else filename) = name
  constructor
  · unfold Session.openFile
    split
    · rfl
    · rfl
  · exact (openFile_same _ name).2.2.1
  · intro id hid
    exact findFileNode_openFile_ne _ hid
  · exact ⟨_, findFileNode_openFile _ name, fun _ =>
      ⟨rfl, rfl, rfl, rfl, List.prefix_refl _⟩⟩

theorem findFile_drop (files : List FileNode) (name id : String) :
    findFile (files.filter (·.name != name)) id =
      if id = name then none else findFile files id := by
  unfold findFile
  rw [List.find?_filter]
  split
  · rename_i hid
    simp [hid]
  · rename_i hid
    congr 1
    funext f
    by_cases hf : f.name = id
    · simp [hf, hid]
    · simp [hf]

theorem SameKept.contents_rollback (h : SameKept f₀ f) (hname : f.name = f₀.name)
    (hdata : f₀.dataStructs = []) (htop : f₀.topLevel = FileNode.findTopLevel f₀.children) :
    contents (f.rollback f₀.takeSnapshot) = contents f₀ := by
  have htake : f.children.take f₀.children.length = f₀.children := by
    obtain ⟨rest, hrest⟩ := h.children
    rw [← hrest, List.take_left]
  unfold FileNode.rollback FileNode.takeSnapshot contents
  dsimp only
  rw [htake, ← htop, ← hdata, hname, h.serial, h.imports, h.requires, h.names]

/-- A failed compilation has put everything back. -/
structure PutBack (s t : Session σ) : Prop where
  globals : t.globalEnv = s.globalEnv
  snapshot : t.globalSnapshot = none
  files : ∀ id, (t.findFileNode id).map contents = (s.findFileNode id).map contents

theorem putBack_rollback {name : String} (hname : f₀.name = name)
    (h : Restorable s f₀ (s.findFileNode name).isNone name t)
    (hbefore : ∀ f, s.findFileNode name = some f →
      f = f₀ ∧ f.dataStructs = [] ∧ f.topLevel = FileNode.findTopLevel f.children) :
    PutBack s (t.rollback name f₀.takeSnapshot (s.findFileNode name).isNone) := by
  have hfind : ∀ id, (t.toModules.updateFile name fun f => f.rollback f₀.takeSnapshot).findFileNode
      id = (t.findFileNode id).map fun f => if id = name then f.rollback f₀.takeSnapshot else f :=
    fun id => findFileNode_updateFile t.toModules name id fun g => rfl
  have hother : ∀ id, id ≠ name →
      ((t.toModules.updateFile name fun f => f.rollback f₀.takeSnapshot).findFileNode id).map
        contents = (s.findFileNode id).map contents := by
    intro id hid
    rw [hfind, ← h.others id hid]
    simp [hid]
  refine ⟨h.globals, rfl, ?_⟩
  intro id
  cases hs : s.findFileNode name with
  | none =>
    have hdrop : (t.rollback name f₀.takeSnapshot true).findFileNode id =
        if id = name then none else
          (t.toModules.updateFile name fun f => f.rollback f₀.takeSnapshot).findFileNode id :=
      findFile_drop _ name id
    rw [Option.isNone_none, hdrop]
    split
    · rename_i hid
      rw [hid, hs]
    · rename_i hid
      exact hother id hid
  | some f =>
    obtain ⟨rfl, hdata, htop⟩ := hbefore f hs
    have hkeep : (t.rollback name f.takeSnapshot false).findFileNode id =
        (t.toModules.updateFile name fun g => g.rollback f.takeSnapshot).findFileNode id := rfl
    rw [Option.isNone_some, hkeep]
    by_cases hid : id = name
    · obtain ⟨g, hg, hsame⟩ := h.own
      have hgname : g.name = f.name := (name_of_findFile hg).trans hname.symm
      have hsame := hsame (by rw [hs]; rfl)
      rw [hfind]
      simp [hid, hg, hs, hsame.contents_rollback hgname hdata htop]
    · exact hother id hid

/-- A compilation that throws, with steps that spare its file, puts everything back when its
nested compilations do. -/
theorem putBack_of_throws {nested : GlobalNode → String → Session σ → Prop} {forms : List Object}
    {filename : String} {isRepl : Bool}
    (hfails : ∀ f₀ owns file, FailsSparing compile (nested s.globalEnv) s f₀ owns file)
    (hspares : SparesFile project compile nested forms filename isRepl s)
    (hthrow : runFrom (compileForms project compile forms (entered s filename isRepl).2.2.ref isRepl)
      (entered s filename isRepl).2.1 = (.error .thrown, t)) :
    ∃ u, runFrom (compileInternal project compile forms filename isRepl) s = (.ok (.error ()), u) ∧
      PutBack s u := by
  have hname : (entered s filename isRepl).2.2.ref.name = (entered s filename isRepl).1 :=
    name_of_findFile (findFileNode_openFile _ _)
  have hrestorable := ((intact_entered s filename isRepl _).compileForms hname (hfails _ _ _)
    hspares.steps).error hthrow
  have hrun : runFrom (compileInternal project compile forms filename isRepl) s =
      (.ok (.error ()), t.rollback (entered s filename isRepl).1
        (entered s filename isRepl).2.2.takeSnapshot
        (s.findFileNode (entered s filename isRepl).1).isNone) := by
    unfold compileInternal
    rw [runFrom_bind, runFrom_get]
    dsimp only
    rw [runFrom_bind, runFrom_set]
    dsimp only
    rw [runFrom_tryCatch]
    unfold entered at hthrow
    rw [hthrow]
    rfl
  refine ⟨_, hrun, putBack_rollback hname hrestorable ?_⟩
  intro f hf
  refine ⟨?_, hspares.before f hf⟩
  have hopen : (s.enter (entered s filename isRepl).1 isRepl).findFileNode
      (entered s filename isRepl).1 = some f := hf
  unfold entered Session.openFile
  dsimp only
  unfold entered at hopen
  dsimp only at hopen
  rw [hopen]

theorem SameKept.of_contents (h : SameKept f₀ f) (hg : contents g = contents f) :
    SameKept f₀ g := by
  constructor
  · exact (congrArg FileNode.serial hg).trans h.serial
  · exact (congrArg FileNode.imports hg).trans h.imports
  · exact (congrArg FileNode.requires hg).trans h.requires
  · exact (congrArg FileNode.anonNameCounter hg).trans h.names
  · have hchildren := congrArg FileNode.children hg
    rw [show g.children = f.children from hchildren]
    exact h.children

theorem Intact.restorable_putBack (h : Intact s₀ f₀ owns file s) (ht : PutBack s t)
    (hglobals : s.globalEnv = s₀.globalEnv) : Restorable s₀ f₀ owns file t := by
  constructor
  · rw [ht.snapshot]
    exact ht.globals.trans hglobals
  · intro id hid
    rw [ht.files id, h.others id hid]
  · obtain ⟨f, hf, hsame⟩ := h.own
    have hfile := ht.files file
    rw [hf] at hfile
    obtain ⟨g, hg, hcontents⟩ := Option.map_eq_some_iff.mp hfile
    exact ⟨g, hg, fun howns => (hsame howns).of_contents hcontents⟩

/-- The step over one more level of nesting. -/
theorem failsSparing_compileFile (depth : ℕ) :
    ∀ (s₀ : Session σ) f₀ owns file, FailsSparing (compileFile project depth)
      (FailsNested project depth s₀.globalEnv) s₀ f₀ owns file := by
  induction depth with
  | zero => exact fun s₀ f₀ owns file id path s _ h => h.elim
  | succ depth ih =>
    intro s₀ f₀ owns file id path s hintact hnested
    unfold compileFile
    cases hread : project.readForms id with
    | error e =>
      have hrestorable := hintact.restorable
      exact yields_throw ⟨hrestorable.globals, hrestorable.others, hrestorable.own⟩
    | ok read =>
      cases read with
      | none =>
        have hrestorable := hintact.restorable
        exact yields_pure ⟨rfl, hrestorable.globals, hrestorable.others, hrestorable.own⟩
      | some forms =>
        obtain ⟨hglobals, hspares, hthrow⟩ := hnested forms hread
        obtain ⟨u, hrun, hback⟩ := putBack_of_throws (ih (required s id)) hspares
          (Prod.ext hthrow rfl)
        have hput : PutBack s u := ⟨hback.globals, hback.snapshot, hback.files⟩
        have hrestorable := hintact.restorable_putBack hput hglobals
        apply yields_bind
        apply yields_get
        apply yields_bind
        apply yields_modify
        apply yields_bind
        apply yields_bind
        apply yields_modify
        apply yields_of_run hrun
        apply yields_bind
        apply yields_modify
        exact yields_pure ⟨rfl, hrestorable.globals, hrestorable.others, hrestorable.own⟩

/-- INTERNAL: **a compilation that throws leaves no trace** when each of its steps spares the
file it compiles, also when what throws is a module it requires, at any depth. -/
theorem restored_of_sparesFile {depth : ℕ} {forms : List Object} {filename : String} {isRepl : Bool}
    (hspares : SparesFile project (compileFile project depth) (FailsNested project depth) forms
      filename isRepl s)
    (hthrow : runFrom (compileForms project (compileFile project depth) forms
      (entered s filename isRepl).2.2.ref isRepl) (entered s filename isRepl).2.1 =
        (.error .thrown, t)) :
    (runFrom (compileInternal project (compileFile project depth) forms filename isRepl) s).1 =
        .ok (.error ()) ∧
      Restored s
        (runFrom (compileInternal project (compileFile project depth) forms filename isRepl) s).2
        (entered s filename isRepl).1 := by
  obtain ⟨u, hrun, hback⟩ := putBack_of_throws (failsSparing_compileFile depth s) hspares hthrow
  rw [hrun]
  exact ⟨rfl, hback.globals, fun id _ => hback.files id⟩

/-! ## A file that is compiled again -/

/-- A compiler that has loaded `a` and compiled `main`, which declares a type. -/
def compiledOnce : Session Unit :=
  { startAt "main" with
    fileNodes := [{ FileNode.new "main" 0 with children := [.typeDeclaration "vec"] },
      FileNode.new "a" 1]
    loadedFiles := ["a"]
    nextNode := 2 }

/-- The two modules, and the forms of `b` are rejected. -/
def malformedModule : Project Unit :=
  { twoModules with
    readForms := fun id => .ok (if id = "b" then some [.symbol "malformed"] else some [.integer 1]) }

/-- An expression, and then a module that is rejected. -/
def lateFailure : List Object := [.integer 1, .ofList [.symbol "require", .string "b"]]

theorem failsNested_malformed {s : Session Unit} (hfile : s.findFileNode "b" = none) :
    FailsNested malformedModule 1 s.globalEnv "b" s := by
  intro forms hforms
  obtain rfl : [.symbol "malformed"] = forms := Option.some.inj (Except.ok.inj hforms)
  refine ⟨rfl, ?_, ?_⟩
  · constructor
    · intro f hf
      rw [show s.findFileNode "b" = some f from hf] at hfile
      cases hfile
    · constructor
      · refine ⟨⟨trivial, ?_⟩, ?_⟩
        · intro node t hrun
          cases hrun
        · intro l t hrun
          cases hrun
      · intro l t hrun
        cases hrun
  · rfl

theorem restored_lateFailure :
    SparesFile malformedModule (compileFile malformedModule 1) (FailsNested malformedModule 1)
        lateFailure "main" false compiledOnce ∧
      Restored compiledOnce (runFrom (compileInternal malformedModule
        (compileFile malformedModule 1) lateFailure "main" false) compiledOnce).2 "main" := by
  have hspares : SparesFile malformedModule (compileFile malformedModule 1)
      (FailsNested malformedModule 1) lateFailure "main" false compiledOnce := by
    constructor
    · intro f hf
      obtain rfl := Option.some.inj hf
      exact ⟨rfl, rfl⟩
    · constructor
      · refine ⟨⟨trivial, ?_⟩, ?_⟩
        · intro node t hrun
          obtain ⟨⟨⟩, ⟨⟩⟩ := Prod.mk.inj hrun
          refine Or.inr (Or.inr ?_)
          intro f _ c hc
          rw [List.mem_singleton.mp hc]
          simp [Built.functionId]
        · intro l t hrun
          obtain ⟨-, rfl⟩ := Prod.mk.inj hrun
          refine ⟨⟨⟨?_, ?_⟩, ?_⟩, ?_⟩
          · intro id hid
            obtain rfl : "b" = id := Option.some.inj hid
            refine ⟨fun hloaded => ?_, fun _ => failsNested_malformed rfl⟩
            exact absurd hloaded (by decide)
          · intro u hrun
            cases hrun
          · intro node u hrun
            cases hrun
          · intro l' u hrun
            cases hrun
      · intro l t hrun
        cases hrun
  exact ⟨hspares, (restored_of_sparesFile hspares rfl).2⟩

/-- A `require`, and then a form that is rejected. -/
def requireThenFailure : List Object :=
  [.ofList [.symbol "require", .string "a"], .symbol "malformed"]

/-- The file keeps the import and the dependency of the forms that were rejected. -/
theorem not_restored_requireThenFailure :
    (runFrom (compileInternal twoModules (compileFile twoModules 1) requireThenFailure "main"
        false) compiledOnce).1 = .ok (.error ()) ∧
      ((runFrom (compileInternal twoModules (compileFile twoModules 1) requireThenFailure "main"
        false) compiledOnce).2.findFileNode "main").map (fun f => (f.imports, f.requires)) =
          some ([⟨"a", 1⟩], ["a"]) ∧
      ¬ Restored compiledOnce (runFrom (compileInternal twoModules (compileFile twoModules 1)
        requireThenFailure "main" false) compiledOnce).2 "main" := by
  refine ⟨rfl, rfl, ?_⟩
  intro h
  have hfiles := h.files "main" fun hne => absurd rfl hne
  have himports := congrArg (Option.map FileNode.imports) hfiles
  have hnew : some [(⟨"a", 1⟩ : FileRef)] = some [] := himports
  cases hnew

end Soot.Analysis
