import Soot.Computation.DepthFirst
import Soot.Analysis.ModuleRuns

/-!
# Recursive loading is a depth-first walk

A call of `load_module_recursive` walks the require graph, with the paths it has visited as the
marks and the top-level runs as the log (`load_walks`). The calls share the registry: what an
earlier call has loaded is finished for the later ones.
-/

set_option autoImplicit false

namespace Soot.Analysis

open Soot.Computation Soot.Program Soot.Model

variable {host : Host} {searchPaths : List String} {files : String → Option ModuleFile}
  {used : String → Prop}

/-! ## Termination -/

section Termination

variable {known : List String}

theorem unvisited_lt {visited : List String} {a : String} (hknown : a ∈ known)
    (hnew : a ∉ visited) :
    (known.filter (· ∉ a :: visited)).length < (known.filter (· ∉ visited)).length := by
  have hsub : known.filter (· ∉ a :: visited) = (known.filter (· ∉ visited)).filter (· ≠ a) := by
    rw [List.filter_filter]
    refine List.filter_congr ?_
    intro b _
    simp
  rw [hsub]
  refine List.length_filter_lt_length_iff_exists.mpr ⟨a, ?_, by simp⟩
  simp [hknown, hnew]

theorem loadRequired_terminates
    (load : Carbon → String → List String →
      Option (ModuleOutcome × List String × List ModuleEvent))
    (candidates : String → List String) (marks : List String)
    (hload : ∀ c path visited, host.fileExists path = true → (∀ a ∈ marks, a ∈ visited) →
      ∃ outcome visited' events, load c path visited = some (outcome, visited', events) ∧
        ∀ a ∈ visited, a ∈ visited')
    (c : Carbon) (names visited : List String) (hmarks : ∀ a ∈ marks, a ∈ visited) :
    ∃ outcome visited' events,
      loadRequired host load candidates c names visited = some (outcome, visited', events) ∧
        ∀ a ∈ visited, a ∈ visited' := by
  induction names generalizing c visited with
  | nil => exact ⟨_, _, _, rfl, fun _ h => h⟩
  | cons name names ih =>
    rw [loadRequired]
    cases hfind : (candidates name).find? host.fileExists with
    | none => exact ⟨_, _, _, rfl, fun _ h => h⟩
    | some next =>
      obtain ⟨outcome, visited', events, hnext, hsub⟩ :=
        hload c next visited (List.find?_some hfind) hmarks
      simp only [hnext]
      cases outcome with
      | succeeded =>
        obtain ⟨outcome', visited'', events', hrest, hsub'⟩ :=
          ih (runEvents c events) visited' fun a ha => hsub a (hmarks a ha)
        simp only [hrest]
        exact ⟨_, _, _, rfl, fun a ha => hsub' a (hsub a ha)⟩
      | failed => exact ⟨_, _, _, rfl, hsub⟩
      | threw => exact ⟨_, _, _, rfl, hsub⟩

theorem loadModuleRecursive_terminates
    (hknown : ∀ path, host.fileExists path = true → host.canonical path ∈ known) (n : ℕ)
    (c : Carbon) (path : String) (visited : List String)
    (hn : (known.filter (· ∉ visited)).length + 1 ≤ n)
    (hpath : host.canonical path ∈ known ∨ (known.filter (· ∉ visited)).length + 2 ≤ n) :
    ∃ outcome visited' events,
      loadModuleRecursive host searchPaths n c path visited =
        some (outcome, visited', events) ∧ ∀ a ∈ visited, a ∈ visited' := by
  induction n generalizing c path visited with
  | zero => omega
  | succ n ih =>
    rw [loadModuleRecursive]
    by_cases hmem : host.canonical path ∈ visited
    · simp only [hmem, if_true]
      exact ⟨_, _, _, rfl, fun _ h => h⟩
    simp only [hmem, if_false]
    by_cases hreg : (c.byPath (host.canonical path)).isSome = true
    · simp only [hreg, if_true]
      exact ⟨_, _, _, rfl, fun _ h => List.mem_cons_of_mem _ h⟩
    simp only [hreg]
    have hmeasure : (known.filter (· ∉ host.canonical path :: visited)).length + 1 ≤ n := by
      rcases hpath with hpath | hpath
      · have := unvisited_lt hpath hmem
        omega
      · have hle : (known.filter (· ∉ host.canonical path :: visited)).length ≤
            (known.filter (· ∉ visited)).length := by
          refine (List.monotone_filter_right known ?_).length_le
          intro a
          simp
        omega
    cases hload : loadModule host c path with
    | mk outcome events =>
      cases outcome with
      | failed => exact ⟨_, _, _, rfl, fun _ h => List.mem_cons_of_mem _ h⟩
      | threw => exact ⟨_, _, _, rfl, fun _ h => List.mem_cons_of_mem _ h⟩
      | succeeded =>
        simp only
        obtain ⟨outcome', visited', events', hrest, hsub⟩ :=
          loadRequired_terminates (loadModuleRecursive host searchPaths n)
            (requireCandidates host path searchPaths) (host.canonical path :: visited)
            (fun c' path' visited' hexists hmarks => by
              have hle : (known.filter (· ∉ visited')).length ≤
                  (known.filter (· ∉ host.canonical path :: visited)).length := by
                refine (List.monotone_filter_right known ?_).length_le
                intro a ha
                simp only [decide_eq_true_eq] at ha ⊢
                exact fun hin => ha (hmarks a hin)
              exact ih c' path' visited' (by omega) (.inl (hknown path' hexists)))
            (runEvents c events)
            (((runEvents c events).byName (host.stem path)).map (·.file.requires) |>.getD [])
            (host.canonical path :: visited) fun _ h => h
        simp only [hrest]
        cases outcome' with
        | succeeded => exact ⟨_, _, _, rfl, fun a ha => hsub a (List.mem_cons_of_mem _ ha)⟩
        | failed => exact ⟨_, _, _, rfl, fun a ha => hsub a (List.mem_cons_of_mem _ ha)⟩
        | threw => exact ⟨_, _, _, rfl, fun a ha => hsub a (List.mem_cons_of_mem _ ha)⟩

end Termination

/-! ## The registry during a call -/

/-- Every module that is registered under a path has the entry of that path's stem. -/
def RegistryHolds (host : Host) (files : String → Option ModuleFile) (used : String → Prop)
    (c : Carbon) : Prop :=
  ∀ path, c.byPath path ≠ none → ∃ e, c.byName (host.stem path) = some e ∧ e.path = path ∧
    used (host.canonical path) ∧
    files (host.canonical path) = some ⟨e.file.requires, e.file.topLevel.isSome⟩

/-- The registry during a call that began with another: it has what that had, and the files that
were visited. -/
structure InCall (host : Host) (files : String → Option ModuleFile) (used : String → Prop)
    (c₀ c : Carbon) (visited : List String) : Prop where
  holds : RegistryHolds host files used c
  kept : ∀ path, c₀.byPath path ≠ none → c.byPath path ≠ none
  marked : ∀ path, c.byPath path ≠ none → c₀.byPath path ≠ none ∨ host.canonical path ∈ visited

/-- The modules of one state are registered in another, with the same entries. -/
def KeepsModules (host : Host) (c c' : Carbon) : Prop :=
  ∀ path, c.byPath path ≠ none → c'.byPath path ≠ none ∧
    c'.byName (host.stem path) = c.byName (host.stem path)

theorem keepsModules_refl (c : Carbon) : KeepsModules host c c := fun _ h => ⟨h, rfl⟩

theorem KeepsModules.trans {c c' c'' : Carbon} (h : KeepsModules host c c') (h' : KeepsModules host c' c'') :
    KeepsModules host c c'' := by
  intro path hpath
  obtain ⟨hpath', hname⟩ := h path hpath
  obtain ⟨hpath'', hname'⟩ := h' path hpath'
  exact ⟨hpath'', hname'.trans hname⟩

/-- What a part of a call does: its walk, and what that leaves in the registry. -/
structure LoadsPart (host : Host) (searchPaths : List String) (files : String → Option ModuleFile)
    (used : String → Prop) (c₀ c : Carbon) (stack visited : List String)
    (events : List ModuleEvent) (visited' : List String) : Prop where
  walk : Walk (RequireEdge host searchPaths files) (TopLevel files)
    (fun a => c₀.byPath a ≠ none) stack visited (topLevelRuns host events) visited'
  inCall : InCall host files used c₀ (runEvents c events) visited'
  extending : KeepsModules host c (runEvents c events)
  registered : ∀ a ∈ visited', a ∉ visited → c₀.byPath a = none →
    ∃ path, host.canonical path = a ∧ (runEvents c events).byPath path ≠ none

theorem topLevelRuns_append (events events' : List ModuleEvent) :
    topLevelRuns host (events ++ events') =
      topLevelRuns host events ++ topLevelRuns host events' := by
  simp [topLevelRuns]

theorem runEvents_append (c : Carbon) (events events' : List ModuleEvent) :
    runEvents c (events ++ events') = runEvents (runEvents c events) events' := by
  simp [runEvents]

section Parts

variable {c₀ c c' : Carbon} {stack visited visited' visited'' : List String}
  {events events' : List ModuleEvent}

theorem loadsPart_refl (h : InCall host files used c₀ c visited) :
    LoadsPart host searchPaths files used c₀ c stack visited [] visited :=
  ⟨.refl, h, keepsModules_refl c, fun _ hmem hnot => absurd hmem hnot⟩

theorem LoadsPart.trans (h : LoadsPart host searchPaths files used c₀ c stack visited events visited')
    (h' : LoadsPart host searchPaths files used c₀ (runEvents c events) stack visited' events'
      visited'') :
    LoadsPart host searchPaths files used c₀ c stack visited (events ++ events') visited'' where
  walk := by
    rw [topLevelRuns_append]
    exact h.walk.trans h'.walk
  inCall := by
    rw [runEvents_append]
    exact h'.inCall
  extending := by
    rw [runEvents_append]
    exact h.extending.trans h'.extending
  registered := by
    rw [runEvents_append]
    intro a hmem hnot hnone
    by_cases hmid : a ∈ visited'
    · obtain ⟨path, hpath, hreg⟩ := h.registered a hmid hnot hnone
      exact ⟨path, hpath, (h'.extending path hreg).1⟩
    · exact h'.registered a hmem hmid hnone

theorem unregistered (hhost : Cooperates host searchPaths files used) (hall : AllCanonical host c₀)
    (h : InCall host files used c₀ c visited) {path : String} (hnew : host.canonical path ∉ visited)
    (hnone : c.byPath (host.canonical path) = none) (hused : used (host.canonical path))
    (hfile : files (host.canonical path) ≠ none) (path' : String) (hreg : c.byPath path' ≠ none) :
    host.canonical path' ≠ host.canonical path ∧ host.stem path' ≠ host.stem path := by
  have hne : host.canonical path' ≠ host.canonical path := by
    intro heq
    rcases h.marked path' hreg with hold | hmem
    · rw [hall path' hold] at heq
      rw [heq] at hreg
      exact hreg hnone
    · exact hnew (heq ▸ hmem)
  obtain ⟨e, -, -, hused', hfile'⟩ := h.holds path' hreg
  refine ⟨hne, fun hstem => hne ?_⟩
  exact hhost.stems path' path hused' hused (by simp [hfile']) hfile hstem

theorem load_file (hhost : Cooperates host searchPaths files used) (hall : AllCanonical host c₀)
    (h : InCall host files used c₀ c visited) {path : String} (hnew : host.canonical path ∉ visited)
    (hnone : c.byPath (host.canonical path) = none) (hused : used (host.canonical path))
    {f : ModuleFile} (hfile : files (host.canonical path) = some f) :
    ∃ file, loadModule host c path = (.succeeded, [.loaded path (host.stem path) file]) ∧
      f = ⟨file.requires, file.topLevel.isSome⟩ ∧
      InCall host files used c₀ (runEvents c [.loaded path (host.stem path) file])
        (host.canonical path :: visited) ∧
      KeepsModules host c (runEvents c [.loaded path (host.stem path) file]) ∧
      (runEvents c [.loaded path (host.stem path) file]).byPath path ≠ none ∧
      (runEvents c [.loaded path (host.stem path) file]).byName (host.stem path) =
        some ⟨path, host.stem path, file, c.inserted⟩ := by
  have hfresh := unregistered hhost hall h hnew hnone hused (by simp [hfile])
  have hpath : c.byPath path = none := by
    by_contra hreg
    exact (hfresh path hreg).1 rfl
  have hread := hhost.reads c path
  rw [hfile, fileAt, Option.bind_eq_some_iff] at hread
  obtain ⟨file, hfrom, hentries⟩ := hread
  rw [Option.map_eq_some_iff] at hentries
  obtain ⟨table, htable, hf⟩ := hentries
  have hload : loadModule host c path =
      (.succeeded, [.loaded path (host.stem path) file]) := by
    simp [loadModule, hhost.initialized, hpath, hfrom, htable]
  have hrun : runEvents c [.loaded path (host.stem path) file] =
      (c.register (host.stem path) file).insert path (host.stem path) file := by
    simp [runEvents, ModuleEvent.apply, hpath]
  have hextends : KeepsModules host c (runEvents c [.loaded path (host.stem path) file]) := by
    intro path' hreg
    rw [hrun]
    obtain ⟨hcanonical, hstem⟩ := hfresh path' hreg
    have hne : path' ≠ path := fun heq => hcanonical (heq ▸ rfl)
    rw [insert_byPath_of_ne hne, insert_byName_of_ne hstem]
    exact ⟨hreg, rfl⟩
  refine ⟨file, hload, hf.symm, ⟨?_, ?_, ?_⟩, hextends, by simp [hrun], by simp [hrun]⟩
  · intro path' hreg
    by_cases hne : path' = path
    · subst hne
      rw [hrun, insert_byName_self]
      exact ⟨_, rfl, rfl, hused, by rw [hfile, ← hf]⟩
    · rw [hrun, insert_byPath_of_ne hne, register_byPath] at hreg
      obtain ⟨e, he, hrest⟩ := h.holds path' hreg
      exact ⟨e, (hextends path' hreg).2.trans he, hrest⟩
  · exact fun path' hreg => (hextends path' (h.kept path' hreg)).1
  · intro path' hreg
    by_cases hne : path' = path
    · subst hne
      exact .inr List.mem_cons_self
    · rw [hrun, insert_byPath_of_ne hne, register_byPath] at hreg
      exact (h.marked path' hreg).imp_right (List.mem_cons_of_mem _)

theorem loadRequired_loads (stack : List String) (hhost : Cooperates host searchPaths files used)
    {load : Carbon → String → List String →
      Option (ModuleOutcome × List String × List ModuleEvent)} {path : String}
    (hload : ∀ c next visited outcome visited' events, InCall host files used c₀ c visited →
      used (host.canonical next) → files (host.canonical next) ≠ none →
      RequireEdge host searchPaths files (host.canonical path) (host.canonical next) →
      load c next visited = some (outcome, visited', events) →
      outcome = .succeeded ∧ host.canonical next ∈ visited' ∧
        LoadsPart host searchPaths files used c₀ c stack visited events visited')
    {f : ModuleFile} (hused : used (host.canonical path))
    (hfile : files (host.canonical path) = some f) {names : List String}
    (hnames : ∀ name ∈ names, name ∈ f.requires) {outcome : ModuleOutcome}
    (h : InCall host files used c₀ c visited)
    (hresult : loadRequired host load (requireCandidates host path searchPaths) c names visited =
      some (outcome, visited', events)) :
    outcome = .succeeded ∧ LoadsPart host searchPaths files used c₀ c stack visited events visited' ∧
      ∀ name ∈ names, ∃ next, resolve host searchPaths path name = some next ∧
        host.canonical next ∈ visited' := by
  induction names generalizing c visited visited' events with
  | nil =>
    simp only [loadRequired, Option.some.injEq, Prod.mk.injEq] at hresult
    obtain ⟨rfl, rfl, rfl⟩ := hresult
    exact ⟨rfl, loadsPart_refl h, by simp⟩
  | cons name names ih =>
    obtain ⟨next, hnext, hnextFile⟩ :=
      hhost.found path f name hused hfile (hnames name List.mem_cons_self)
    have hedge : RequireEdge host searchPaths files (host.canonical path) (host.canonical next) :=
      ⟨path, f, name, next, rfl, hfile, hnames name List.mem_cons_self, hnext, rfl⟩
    have hfind : (requireCandidates host path searchPaths name).find? host.fileExists =
      some next := hnext
    rw [loadRequired, hfind] at hresult
    cases hfirst : load c next visited with
    | none => simp [hfirst] at hresult
    | some first =>
      obtain ⟨firstOutcome, visited₁, events₁⟩ := first
      obtain ⟨rfl, hmem, hloads⟩ := hload c next visited firstOutcome visited₁ events₁ h
        (hhost.closed _ _ hused hedge) hnextFile hedge hfirst
      simp only [hfirst, Option.map_eq_some_iff, Prod.exists] at hresult
      obtain ⟨outcome', visited₂, events₂, hrest, heq⟩ := hresult
      simp only [Prod.mk.injEq] at heq
      obtain ⟨rfl, rfl, rfl⟩ := heq
      obtain ⟨hsucceeded, hloads', hall⟩ :=
        ih (fun name' hname' => hnames name' (List.mem_cons_of_mem _ hname')) hloads.inCall hrest
      refine ⟨hsucceeded, hloads.trans hloads', ?_⟩
      intro name' hname'
      rcases List.mem_cons.mp hname' with rfl | hname'
      · exact ⟨next, hnext, hloads'.walk.subset _ hmem⟩
      · exact hall name' hname'

theorem runTopLevel_eq (hhost : Cooperates host searchPaths files used) {name : String}
    {e : ModuleEntry} (he : c.byName name = some e) :
    runTopLevel host c name =
      (.succeeded, if e.file.topLevel.isSome then [.ranTopLevel e.path] else []) := by
  unfold runTopLevel
  cases htop : e.file.topLevel with
  | none => simp [he, htop]
  | some lambda => simp [he, htop, hhost.quiet]

theorem loadsPart_node {path : String} {file : FileImage}
    (hnew : host.canonical path ∉ visited) (hnone : c₀.byPath (host.canonical path) = none)
    (hopen : ∀ s ∈ stack, LeadsTo host searchPaths files s (host.canonical path))
    (hfile : files (host.canonical path) = some ⟨file.requires, file.topLevel.isSome⟩)
    {loaded : ModuleEvent} (hlog : topLevelRuns host [loaded] = [])
    (hextends : KeepsModules host c (runEvents c [loaded]))
    (hpath : (runEvents c [loaded]).byPath path ≠ none)
    (h : LoadsPart host searchPaths files used c₀ (runEvents c [loaded])
      (host.canonical path :: stack) (host.canonical path :: visited) events visited')
    (hnext : ∀ b, RequireEdge host searchPaths files (host.canonical path) b → b ∈ visited') :
    LoadsPart host searchPaths files used c₀ c stack visited
      ([loaded] ++ events ++ if file.topLevel.isSome then [.ranTopLevel path] else [])
      visited' := by
  have hrun : runEvents c
      ([loaded] ++ events ++ if file.topLevel.isSome then [.ranTopLevel path] else []) =
      runEvents (runEvents c [loaded]) events := by
    rw [runEvents_append, runEvents_append]
    split <;> rfl
  have hlast : topLevelRuns host (if file.topLevel.isSome then [.ranTopLevel path] else []) =
      if TopLevel files (host.canonical path) then [host.canonical path] else [] := by
    simp only [TopLevel, hfile, Option.any_some]
    split <;> rfl
  refine ⟨?_, by rw [hrun]; exact h.inCall, by rw [hrun]; exact hextends.trans h.extending, ?_⟩
  · rw [topLevelRuns_append, topLevelRuns_append, hlog, List.nil_append, hlast]
    exact .node hnew (by simpa using hnone) hopen h.walk fun b hb => .inl (hnext b hb)
  · rw [hrun]
    intro a hmem hnot hold
    by_cases hne : a = host.canonical path
    · exact ⟨path, hne.symm, (h.extending path hpath).1⟩
    · exact h.registered a hmem (by simp [hne, hnot]) hold

theorem load_walks (hhost : Cooperates host searchPaths files used) (hall : AllCanonical host c₀)
    (n : ℕ) (path : String) (outcome : ModuleOutcome) (h : InCall host files used c₀ c visited)
    (hused : used (host.canonical path)) (hfile : files (host.canonical path) ≠ none)
    (hopen : ∀ s ∈ stack, LeadsTo host searchPaths files s (host.canonical path))
    (hresult : loadModuleRecursive host searchPaths n c path visited =
      some (outcome, visited', events)) :
    outcome = .succeeded ∧ host.canonical path ∈ visited' ∧
      LoadsPart host searchPaths files used c₀ c stack visited events visited' := by
  induction n generalizing c path visited visited' events stack outcome with
  | zero => simp [loadModuleRecursive] at hresult
  | succ n ih =>
    rw [loadModuleRecursive] at hresult
    by_cases hmem : host.canonical path ∈ visited
    · simp only [hmem, if_true, Option.some.injEq, Prod.mk.injEq] at hresult
      obtain ⟨rfl, rfl, rfl⟩ := hresult
      exact ⟨rfl, hmem, loadsPart_refl h⟩
    simp only [hmem, if_false] at hresult
    by_cases hreg : c.byPath (host.canonical path) = none
    · obtain ⟨f, hf⟩ := Option.ne_none_iff_exists'.mp hfile
      obtain ⟨file, hload, rfl, hinCall, hextends, hpath, hname⟩ :=
        load_file hhost hall h hmem hreg hused hf
      have hnone : c₀.byPath (host.canonical path) = none := by
        by_contra hold
        exact h.kept _ hold hreg
      simp only [hreg, Option.isSome_none, Bool.false_eq_true, if_false, hload, hname,
        Option.map_some, Option.getD_some] at hresult
      cases hrequired : loadRequired host (loadModuleRecursive host searchPaths n)
          (requireCandidates host path searchPaths)
          (runEvents c [.loaded path (host.stem path) file]) file.requires
          (host.canonical path :: visited) with
      | none => simp [hrequired] at hresult
      | some required =>
        obtain ⟨outcome', visited₁, events₁⟩ := required
        obtain ⟨rfl, hloads, hnexts⟩ := loadRequired_loads (host.canonical path :: stack)
          hhost (fun c' next visited' outcome' visited'' events' h' hused' hfile' hedge hresult' =>
            ih next outcome' h' hused' hfile' (by
              intro s hs
              rcases List.mem_cons.mp hs with rfl | hs
              · exact .single hedge
              · exact (hopen s hs).tail hedge) hresult')
          hused hf (fun _ hname => hname) hinCall hrequired
        have hnext : ∀ b, RequireEdge host searchPaths files (host.canonical path) b →
            b ∈ visited₁ := by
          rintro b ⟨path', f', name, next', hcanonical, hf', hrequires, hnext', rfl⟩
          rw [hf, Option.some.injEq] at hf'
          subst hf'
          obtain ⟨next, hresolve, hnextMem⟩ := hnexts name hrequires
          have halike := hhost.alike path path' name hcanonical.symm
          rw [hresolve, hnext', Option.map_some, Option.map_some, Option.some.injEq] at halike
          exact halike ▸ hnextMem
        have hentry := (hloads.extending path hpath).2.trans hname
        simp only [hrequired, runTopLevel_eq hhost hentry, Option.some.injEq, Prod.mk.injEq]
          at hresult
        obtain ⟨rfl, rfl, rfl⟩ := hresult
        exact ⟨rfl, hloads.walk.subset _ List.mem_cons_self,
          loadsPart_node hmem hnone hopen hf rfl hextends hpath hloads hnext⟩
    · have hsome : (c.byPath (host.canonical path)).isSome = true :=
        Option.isSome_iff_ne_none.mpr hreg
      simp only [hsome, if_true, Option.some.injEq, Prod.mk.injEq] at hresult
      obtain ⟨rfl, rfl, rfl⟩ := hresult
      -- what is registered and not visited was there when the call began
      have hold : c₀.byPath (host.canonical path) ≠ none := by
        rcases h.marked _ hreg with hold | hmem'
        · exact hold
        · rw [hhost.idempotent] at hmem'
          exact absurd hmem' hmem
      refine ⟨rfl, List.mem_cons_self, .mark hold, ⟨h.holds, h.kept, ?_⟩, keepsModules_refl c, ?_⟩
      · exact fun path' hreg' => (h.marked path' hreg').imp_right (List.mem_cons_of_mem _)
      · intro a ha hnot hnone
        rcases List.mem_cons.mp ha with rfl | ha
        · exact absurd hnone hold
        · exact absurd ha hnot

end Parts

/-! ## Calls -/

/-- What holds between calls: the top-level code of the registered files was run once, in order,
and what they require is registered. -/
structure CallHolds (host : Host) (searchPaths : List String) (files : String → Option ModuleFile)
    (used : String → Prop) (c : Carbon) (log : List ModuleEvent) : Prop where
  holds : RegistryHolds host files used c
  once : (topLevelRuns host log).Nodup
  ordered : ∀ l a l', topLevelRuns host log = l ++ a :: l' →
    ∀ b, RequireEdge host searchPaths files a b → TopLevel files b →
      ¬ LeadsTo host searchPaths files b a → b ∈ l
  ran : ∀ path, c.byPath path ≠ none → TopLevel files (host.canonical path) →
    host.canonical path ∈ topLevelRuns host log
  logged : ∀ a ∈ topLevelRuns host log, ∃ path, c.byPath path ≠ none ∧ host.canonical path = a
  closed : ∀ path, c.byPath path ≠ none →
    ∀ b, RequireEdge host searchPaths files (host.canonical path) b →
      ∃ path', c.byPath path' ≠ none ∧ host.canonical path' = b

theorem callHolds_initial : CallHolds host searchPaths files used .initial [] where
  holds := fun _ h => absurd rfl h
  once := List.nodup_nil
  ordered := by simp [topLevelRuns]
  ran := fun _ h => absurd rfl h
  logged := by simp [topLevelRuns]
  closed := fun _ h => absurd rfl h

section Call

variable {c : Carbon} {log events : List ModuleEvent} {path : String} {visited : List String}

theorem registered_of_canonical (hall : AllCanonical host c) {a : String}
    (h : ∃ path, c.byPath path ≠ none ∧ host.canonical path = a) : c.byPath a ≠ none := by
  obtain ⟨path, hreg, rfl⟩ := h
  rwa [hall path hreg]

theorem unregistered_of_missing (h : RegistryHolds host files used c)
    (hfile : files (host.canonical path) = none) (path' : String)
    (heq : host.canonical path' = host.canonical path) : c.byPath path' = none := by
  by_contra hreg
  obtain ⟨e, -, -, -, hsome⟩ := h path' hreg
  rw [heq, hfile] at hsome
  cases hsome

theorem load_missing (hhost : Cooperates host searchPaths files used)
    (h : RegistryHolds host files used c) (hfile : files (host.canonical path) = none) {n : ℕ}
    {outcome : ModuleOutcome}
    (hresult : loadModuleRecursive host searchPaths n c path [] =
      some (outcome, visited, events)) : outcome ≠ .succeeded ∧ events = [] := by
  cases n with
  | zero => simp [loadModuleRecursive] at hresult
  | succ n =>
    have hcanonical : c.byPath (host.canonical path) = none :=
      unregistered_of_missing h hfile _ (hhost.idempotent path)
    have hpath : c.byPath path = none := unregistered_of_missing h hfile path rfl
    have hread := hhost.reads c path
    rw [hfile, fileAt, Option.bind_eq_none_iff] at hread
    cases hfrom : host.fromPath c path with
    | none =>
      have hload : loadModule host c path = (.failed, []) := by
        simp [loadModule, hhost.initialized, hpath, hfrom]
      simp [loadModuleRecursive, hcanonical, hload] at hresult
      obtain ⟨rfl, -, rfl⟩ := hresult
      exact ⟨by simp, rfl⟩
    | some file =>
      have hentries : file.entries = none := by simpa using hread file hfrom
      have hload : loadModule host c path = (.threw, []) := by
        simp [loadModule, hhost.initialized, hpath, hfrom, hentries]
      simp [loadModuleRecursive, hcanonical, hload] at hresult
      obtain ⟨rfl, -, rfl⟩ := hresult
      exact ⟨by simp, rfl⟩

theorem callHolds_loads (hall : AllCanonical host c)
    (h : CallHolds host searchPaths files used c log)
    (hloads : LoadsPart host searchPaths files used c c [] [] events visited) :
    CallHolds host searchPaths files used (runEvents c events) (log ++ events) where
  holds := hloads.inCall.holds
  once := by
    rw [topLevelRuns_append]
    refine List.nodup_append.mpr ⟨h.once, hloads.walk.nodup, ?_⟩
    rintro a ha _ ha' rfl
    exact (hloads.walk.fresh a ha').2.2.1 (registered_of_canonical hall (h.logged a ha))
  ordered := by
    intro l a l' heq b hedge hlabel hback
    rw [topLevelRuns_append] at heq
    rcases eq_append_cons_of_append heq with ⟨m, hlog⟩ | ⟨m, rfl, hlog⟩
    · exact h.ordered l a m hlog b hedge hlabel hback
    · refine List.mem_append.mpr ?_
      rcases hloads.walk.ordered m a l' hlog b hedge hlabel hback with hdone | hmem | ⟨hmem, -⟩
      · have hran := h.ran b hdone
        rw [hall b hdone] at hran
        exact .inl (hran hlabel)
      · exact .inr hmem
      · cases hmem
  ran := by
    intro path' hreg hlabel
    rw [topLevelRuns_append]
    refine List.mem_append.mpr ?_
    rcases hloads.inCall.marked path' hreg with hold | hmem
    · exact .inl (h.ran path' hold hlabel)
    · by_cases hdone : c.byPath (host.canonical path') = none
      · exact .inr ((hloads.walk.complete _ hmem (by simp) (by simpa using hdone)).1 hlabel)
      · have hran := h.ran _ hdone
        rw [hall _ hdone] at hran
        exact .inl (hran hlabel)
  logged := by
    intro a ha
    rw [topLevelRuns_append] at ha
    rcases List.mem_append.mp ha with ha | ha
    · obtain ⟨path', hreg, heq⟩ := h.logged a ha
      exact ⟨path', (hloads.extending path' hreg).1, heq⟩
    · obtain ⟨hmem, hnot, hdone, -⟩ := hloads.walk.fresh a ha
      obtain ⟨path', heq, hreg⟩ := hloads.registered a hmem hnot (by simpa using hdone)
      exact ⟨path', hreg, heq⟩
  closed := by
    intro path' hreg b hedge
    have hold : ∀ p, c.byPath p ≠ none → RequireEdge host searchPaths files (host.canonical p) b →
        ∃ path', (runEvents c events).byPath path' ≠ none ∧ host.canonical path' = b := by
      intro p hp hpedge
      obtain ⟨q, hq, heq⟩ := h.closed p hp b hpedge
      exact ⟨q, (hloads.extending q hq).1, heq⟩
    rcases hloads.inCall.marked path' hreg with hdone | hmem
    · exact hold path' hdone hedge
    · by_cases hdone : c.byPath (host.canonical path') = none
      · rcases (hloads.walk.complete _ hmem (by simp) (by simpa using hdone)).2 b hedge with
          hmem' | hdone'
        · by_cases hb : c.byPath b = none
          · obtain ⟨q, heq, hq⟩ := hloads.registered b hmem' (by simp) hb
            exact ⟨q, hq, heq⟩
          · exact ⟨b, (hloads.extending b hb).1, hall b hb⟩
        · exact ⟨b, (hloads.extending b hdone').1, hall b hdone'⟩
      · have hsame := hall _ hdone
        refine hold _ hdone ?_
        rwa [hsame]

theorem CallHolds.reached (h : CallHolds host searchPaths files used c log) {a b : String}
    (hreach : LeadsTo host searchPaths files a b)
    (ha : ∃ path, c.byPath path ≠ none ∧ host.canonical path = a) :
    ∃ path, c.byPath path ≠ none ∧ host.canonical path = b := by
  induction hreach with
  | refl => exact ha
  | tail _ hedge ih =>
    obtain ⟨path, hreg, rfl⟩ := ih
    exact h.closed path hreg _ hedge

theorem callHolds_call (hhost : Cooperates host searchPaths files used)
    (hall : AllCanonical host c) (h : CallHolds host searchPaths files used c log)
    (hused : used (host.canonical path)) {n : ℕ} {outcome : ModuleOutcome}
    (hresult : loadModuleRecursive host searchPaths n c path [] =
      some (outcome, visited, events)) :
    CallHolds host searchPaths files used (runEvents c events) (log ++ events) ∧
      LoadsOnce host searchPaths files c log path outcome events := by
  by_cases hfile : files (host.canonical path) = none
  · obtain ⟨hfailed, rfl⟩ := load_missing hhost h.holds hfile hresult
    rw [List.append_nil]
    refine ⟨h, by simpa using h.once, ?_, fun hok => absurd hok hfailed, ?_⟩
    · simpa using h.ordered
    · intro _ path' heq
      exact unregistered_of_missing h.holds hfile path' heq
  · have hinCall : InCall host files used c c [] := ⟨h.holds, fun _ hp => hp, fun _ hp => .inl hp⟩
    have hopen : ∀ s ∈ ([] : List String), LeadsTo host searchPaths files s (host.canonical path) :=
      by simp
    obtain ⟨rfl, hmem, hloads⟩ :=
      load_walks hhost hall n path outcome hinCall hused hfile hopen hresult
    have hnext := callHolds_loads hall h hloads
    refine ⟨hnext, hnext.once, hnext.ordered, ?_, fun hne => absurd rfl hne⟩
    intro _ a hreach hlabel
    have hroot : ∃ path', (runEvents c events).byPath path' ≠ none ∧
        host.canonical path' = host.canonical path := by
      by_cases hold : c.byPath (host.canonical path) = none
      · obtain ⟨path', heq, hreg⟩ := hloads.registered _ hmem (by simp) hold
        exact ⟨path', hreg, heq⟩
      · exact ⟨_, (hloads.extending _ hold).1, hhost.idempotent path⟩
    obtain ⟨path', hreg, rfl⟩ := hnext.reached hreach hroot
    exact hnext.ran path' hreg hlabel

end Call

theorem callHolds_calls (hhost : Cooperates host searchPaths files used) {c : Carbon}
    {log : List ModuleEvent} (h : Calls host searchPaths used c log) :
    CallHolds host searchPaths files used c log := by
  induction h with
  | start => exact callHolds_initial
  | call _ hall hused hresult ih => exact (callHolds_call hhost hall ih hused hresult).1

/-- With finitely many files, recursive loading ends. In a run of calls on files that meet the
condition, each of which begins with all modules registered under their canonical paths, it runs
the top-level code of each file once, after that of the files it requires unless these lead back
to it, and the file of a call that fails is not taken for a loaded one later. Without the
condition it fails: a module is registered before its requirements are loaded and its top-level
code is run, so after a failure it passes for loaded; the registry knows paths as they were
spelled; and the top-level code that is run is found by the stem of the path.
SRCLINE: Carbon.cpp:263-315, 394-556 -/
theorem loadModuleRecursive_once {known : List String}
    (hknown : ∀ path, host.fileExists path = true → host.canonical path ∈ known)
    (hhost : Cooperates host searchPaths files used) {c : Carbon} {log : List ModuleEvent}
    (hcalls : Calls host searchPaths used c log) (hall : AllCanonical host c) (path : String)
    (hused : used (host.canonical path)) :
    (∀ n, known.length + 2 ≤ n →
      loadModuleRecursive host searchPaths n c path [] ≠ none) ∧
    ∀ n outcome visited events, loadModuleRecursive host searchPaths n c path [] =
      some (outcome, visited, events) → LoadsOnce host searchPaths files c log path outcome events := by
  constructor
  · intro n hn
    have hlength : (known.filter (· ∉ ([] : List String))).length ≤ known.length :=
      List.length_filter_le _ _
    have hends : ∃ outcome visited events, loadModuleRecursive host searchPaths n c path [] =
        some (outcome, visited, events) ∧ ∀ a ∈ [], a ∈ visited :=
      loadModuleRecursive_terminates hknown n c path [] (by omega) (.inr (by omega))
    obtain ⟨outcome, visited, events, hresult, -⟩ := hends
    simp [hresult]
  · intro n outcome visited events hresult
    exact (callHolds_call hhost hall (callHolds_calls hhost hcalls) hused hresult).2

/-! ## Two directories -/

/-- The files of a table. -/
def tableFiles (table : List (String × ModuleFile)) (path : String) : Option ModuleFile :=
  (table.find? (·.1 = path)).map (·.2)

/-- The image of a file. -/
def tableImage (path : String) (f : ModuleFile) : FileImage where
  allocation := smallAllocation
  path := path
  entries := some []
  requires := f.requires
  topLevel := if f.hasTopLevel then some 0x1028 else none

/-- A host with the files of a table in one directory. -/
def tableHost (table : List (String × ModuleFile)) : Host where
  initialized := true
  stem := id
  canonical := id
  fileExists := fun path => (tableFiles table path).isSome
  parentPath := fun _ => ""
  join := fun _ name => name
  projectPath := ""
  fromPath := fun _ path => (tableFiles table path).map (tableImage path)
  execute := fun _ _ => ([], true)

theorem tableHost_cooperates {table : List (String × ModuleFile)}
    (h : ∀ entry ∈ table, ∀ name ∈ entry.2.requires,
      (tableFiles table (name ++ ".bin")).isSome = true) :
    Cooperates (tableHost table) [] (tableFiles table) fun _ => True where
  initialized := rfl
  idempotent := fun _ => rfl
  reads := by
    intro c path
    show ((tableFiles table path).map (tableImage path)).bind _ = tableFiles table path
    cases hfile : tableFiles table path with
    | none => rfl
    | some f =>
      obtain ⟨requires, hasTopLevel⟩ := f
      cases hasTopLevel <;> rfl
  alike := by
    intro path path' name heq
    obtain rfl : path = path' := heq
    rfl
  closed := fun _ _ _ _ => trivial
  stems := fun _ _ _ _ _ _ heq => heq
  found := by
    intro path f name _ hfile hname
    obtain ⟨entry, hentry, rfl⟩ := Option.map_eq_some_iff.mp hfile
    have hsome := h entry (List.mem_of_find?_eq_some hentry) name hname
    refine ⟨name ++ ".bin", ?_, Option.isSome_iff_ne_none.mp hsome⟩
    simp [resolve, requireCandidates, tableHost, hsome]
  quiet := fun _ _ => rfl

/-- Two files that require a third and are required by a fourth, which one of them requires. -/
def diamond : List (String × ModuleFile) :=
  [("main.bin", ⟨["left", "right"], true⟩), ("left.bin", ⟨["base"], true⟩),
    ("right.bin", ⟨["base", "main"], true⟩), ("base.bin", ⟨[], true⟩)]

/-- INTERNAL: each file of the diamond is run once, the required ones first. -/
theorem loadModuleRecursive_once_diamond :
    ∃ visited events, loadModuleRecursive (tableHost diamond) [] 6 .initial "main.bin" [] =
        some (.succeeded, visited, events) ∧
      topLevelRuns (tableHost diamond) events = ["base.bin", "left.bin", "right.bin", "main.bin"] ∧
      LoadsOnce (tableHost diamond) [] (tableFiles diamond) .initial [] "main.bin" .succeeded
        events := by
  have hsome : (loadModuleRecursive (tableHost diamond) [] 6 .initial "main.bin" []).map
      (fun r => (r.1, topLevelRuns (tableHost diamond) r.2.2)) =
      some (.succeeded, ["base.bin", "left.bin", "right.bin", "main.bin"]) := by
        with_unfolding_all decide
  obtain ⟨⟨outcome, visited, events⟩, hresult, heq⟩ := Option.map_eq_some_iff.mp hsome
  simp only [Prod.mk.injEq] at heq
  obtain ⟨rfl, hruns⟩ := heq
  have hknown : ∀ path, (tableHost diamond).fileExists path = true →
      (tableHost diamond).canonical path ∈ diamond.map Prod.fst := by
    intro path hexists
    show path ∈ _
    obtain ⟨f, hf⟩ := Option.isSome_iff_exists.mp hexists
    obtain ⟨entry, hentry, -⟩ := Option.map_eq_some_iff.mp hf
    have hpath := List.find?_some hentry
    exact List.mem_map.mpr ⟨entry, List.mem_of_find?_eq_some hentry, by simpa using hpath⟩
  exact ⟨visited, events, hresult, hruns,
    (loadModuleRecursive_once hknown (tableHost_cooperates (by with_unfolding_all decide)) .start
      (fun _ h => absurd rfl h) "main.bin" trivial).2 6 _ visited events hresult⟩

/-- A file that requires one that is missing. -/
def broken : List (String × ModuleFile) := [("main.bin", ⟨["gone"], true⟩)]

/-- INTERNAL: a call fails as a required file is missing, and the next one reports the file as
loaded though its top-level code was never run. -/
theorem not_loadModuleRecursive_once :
    ∃ visited events, loadModuleRecursive (tableHost broken) [] 3 .initial "main.bin" [] =
        some (.failed, visited, events) ∧
      ¬ LoadsOnce (tableHost broken) [] (tableFiles broken) .initial [] "main.bin" .failed events ∧
      (loadModuleRecursive (tableHost broken) [] 3 (runEvents .initial events) "main.bin" []).map
        (fun r => (r.1, topLevelRuns (tableHost broken) (events ++ r.2.2))) =
        some (.succeeded, []) := by
  refine ⟨["main.bin"], [.loaded "main.bin" "main.bin" (tableImage "main.bin" ⟨["gone"], true⟩)],
    by rfl, ?_, by with_unfolding_all decide⟩
  intro h
  have hnone := h.retried (by decide) "main.bin" rfl
  have hsome : ((runEvents .initial [.loaded "main.bin" "main.bin"
      (tableImage "main.bin" ⟨["gone"], true⟩)]).byPath "main.bin").isSome = true := by
    with_unfolding_all decide
  rw [hnone] at hsome
  cases hsome

end Soot.Analysis
