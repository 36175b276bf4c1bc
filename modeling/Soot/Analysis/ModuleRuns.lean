import Soot.Model.Modules

/-!
# Runs of loads and unloads

A change keeps the index sound exactly when it is safe (`sound_apply_iff`), so the states of a
run are all sound exactly when every change of it is (`sound_run_iff`). The changes of any
sequence of host calls are such a run.
-/

set_option autoImplicit false

namespace Soot.Analysis

open Soot.Program Soot.Model

variable {c : Carbon}

/-! ## Registering and removing symbols -/

theorem registerFileSymbols_apply (owner : Word) (order : ℕ) (table : List DCEntry)
    (g : Globals) (sid : Word) :
    registerFileSymbols owner order table g sid =
      match exportedEntry table sid with
      | some e => some ⟨e.entryPtr, e.typeId, owner, order⟩
      | none => g sid := by
  induction table generalizing g with
  | nil => rfl
  | cons e table ih =>
    rw [registerFileSymbols, ih, exportedEntry]
    cases hlast : exportedEntry table sid with
    | some last => rfl
    | none =>
      by_cases hi : isIndexed e
      · by_cases hn : e.nameId = sid
        · simp [hi, hn]
        · simp [hi, hn, Function.update_of_ne (Ne.symm hn)]
      · simp [hi]

theorem register_of_exported {name : String} {file : FileImage} {sid : Word}
    {e : DCEntry} (h : exported file sid = some e) :
    (c.register name file).globals sid =
      some ⟨e.entryPtr, e.typeId, stringId name, c.inserted⟩ := by
  have happly := registerFileSymbols_apply (stringId name) c.inserted (file.entries.getD [])
    c.globals sid
  rw [exported] at h
  rw [h] at happly
  exact happly

theorem register_of_not_exported {name : String} {file : FileImage} {sid : Word}
    (h : exported file sid = none) : (c.register name file).globals sid = c.globals sid := by
  have happly := registerFileSymbols_apply (stringId name) c.inserted (file.entries.getD [])
    c.globals sid
  rw [exported] at h
  rw [h] at happly
  exact happly

theorem removeModuleSymbols_eq_some {g : Globals} {owner sid : Word} {symbol : GlobalSymbol} :
    removeModuleSymbols g owner sid = some symbol ↔
      g sid = some symbol ∧ symbol.ownerModulePath ≠ owner := by
  simp [removeModuleSymbols, Option.filter_eq_some_iff]

theorem register_of_empty {name : String} {file : FileImage}
    (h : ∀ sid, exported file sid = none) : c.register name file = c := by
  have hg : (c.register name file).globals = c.globals :=
    funext fun sid => register_of_not_exported (h sid)
  cases c
  simp only [Carbon.register] at hg ⊢
  simp only [hg]

/-! ## Modules are numbered in the order of insertion -/

/-- Every module was inserted before now. -/
def InsertionOrder (c : Carbon) : Prop := ∀ name e, c.byName name = some e → e.order < c.inserted

theorem insertionOrder_insert (h : InsertionOrder c) (path name : String)
    (file : FileImage) :
    InsertionOrder (c.insert path name file) := by
  intro name' e he
  by_cases hname : name' = name
  · subst hname
    simp only [Carbon.insert, Function.update_self, Option.some.injEq] at he
    subst he
    simp [Carbon.insert]
  · simp only [Carbon.insert, Function.update_of_ne hname] at he
    have := h name' e he
    simp only [Carbon.insert]
    omega

theorem insertionOrder_erase (h : InsertionOrder c) (name : String) :
    InsertionOrder (c.erase name) := by
  unfold Carbon.erase
  split
  · exact h
  · intro name' e he
    by_cases hname : name' = name
    · simp [hname] at he
    · exact h name' e (by simpa [Function.update_of_ne hname] using he)

theorem insertionOrder_apply (h : InsertionOrder c) (event : ModuleEvent) :
    InsertionOrder (event.apply c) := by
  cases event with
  | loaded path name file =>
    simp only [ModuleEvent.apply]
    split
    · exact h
    · exact insertionOrder_insert h path name file
  | loadedBinary name file =>
    simp only [ModuleEvent.apply]
    split
    · exact insertionOrder_insert (c := (c.register name file).removeSymbols name) h _ name file
    · exact insertionOrder_insert (c := c.register name file) h _ name file
  | unloaded name => exact insertionOrder_erase (c := c.removeSymbols name) h name
  | ranTopLevel path => exact h

/-! ## Lookups after a change -/

section Lookups

variable {c : Carbon} {path name other : String} {file : FileImage}

@[simp] theorem insert_globals : (c.insert path name file).globals = c.globals := rfl

@[simp] theorem insert_byName_self :
    (c.insert path name file).byName name = some ⟨path, name, file, c.inserted⟩ := by
  simp [Carbon.insert]

theorem insert_byName_of_ne (h : other ≠ name) :
    (c.insert path name file).byName other = c.byName other := by
  simp [Carbon.insert, h]

@[simp] theorem insert_byPath_self : (c.insert path name file).byPath path = some name := by
  simp [Carbon.insert]

theorem insert_byPath_of_ne {other : String} (h : other ≠ path) :
    (c.insert path name file).byPath other = c.byPath other := by
  simp [Carbon.insert, h]

@[simp] theorem register_byName : (c.register name file).byName = c.byName := rfl

@[simp] theorem register_byPath : (c.register name file).byPath = c.byPath := rfl

@[simp] theorem register_inserted : (c.register name file).inserted = c.inserted := rfl

@[simp] theorem removeSymbols_byName : (c.removeSymbols name).byName = c.byName := rfl

@[simp] theorem removeSymbols_byPath : (c.removeSymbols name).byPath = c.byPath := rfl

@[simp] theorem removeSymbols_inserted : (c.removeSymbols name).inserted = c.inserted := rfl

theorem removeSymbols_globals {sid : Word} {symbol : GlobalSymbol} :
    (c.removeSymbols name).globals sid = some symbol ↔
      c.globals sid = some symbol ∧ symbol.ownerModulePath ≠ stringId name :=
  removeModuleSymbols_eq_some

@[simp] theorem erase_globals : (c.erase name).globals = c.globals := by
  unfold Carbon.erase
  split <;> rfl

@[simp] theorem erase_byName_self : (c.erase name).byName name = none := by
  unfold Carbon.erase
  split
  · assumption
  · simp

theorem erase_byName_of_ne (h : other ≠ name) : (c.erase name).byName other = c.byName other := by
  unfold Carbon.erase
  split <;> simp [h]

end Lookups

/-! ## What each change does to a sound index -/

section Changes

variable {c : Carbon} {path name : String} {file : FileImage}

theorem sound_insert_fresh (h : IndexSound c) (hn : InsertionOrder c) (hname : c.byName name = none)
    (hpath : c.byPath path = none) (hin : PointsInside file) :
    IndexSound ((c.register name file).insert path name file) where
  owned := by
    intro sid symbol hsym
    rw [insert_globals] at hsym
    cases hexp : exported file sid with
    | some entry =>
      rw [register_of_exported hexp] at hsym
      obtain rfl := Option.some.inj hsym
      exact ⟨name, _, insert_byName_self, rfl, rfl, hin sid entry hexp⟩
    | none =>
      rw [register_of_not_exported hexp] at hsym
      obtain ⟨name', e, he, hrest⟩ := h.owned sid symbol hsym
      have hne : name' ≠ name := by
        rintro rfl
        simp [hname] at he
      exact ⟨name', e, by simpa [insert_byName_of_ne hne] using he, hrest⟩
  resolves := by
    intro name₁ e sid entry he hentry
    rw [insert_globals]
    by_cases hne : name₁ = name
    · -- the new module: its own names resolve to it
      subst hne
      rw [insert_byName_self] at he
      obtain rfl := Option.some.inj he
      exact ⟨_, name₁, _, entry, register_of_exported hentry, insert_byName_self, rfl, rfl,
        .inl rfl, hentry, rfl⟩
    · rw [insert_byName_of_ne hne, register_byName] at he
      cases hexp : exported file sid with
      | some entry' =>
        exact ⟨_, name, _, entry', register_of_exported hexp, insert_byName_self, rfl, rfl,
          .inr (hn name₁ e he), hexp, rfl⟩
      | none =>
        obtain ⟨symbol, name', e', entry', hsym, he', hrest⟩ :=
          h.resolves name₁ e sid entry he hentry
        have hne' : name' ≠ name := by
          rintro rfl
          simp [hname] at he'
        refine ⟨symbol, name', e', entry', ?_, ?_, hrest⟩
        · rw [register_of_not_exported hexp, hsym]
        · rw [insert_byName_of_ne hne', register_byName, he']
  paths := by
    intro name' e he
    by_cases hne : name' = name
    · subst hne
      rw [insert_byName_self] at he
      obtain rfl := Option.some.inj he
      exact insert_byPath_self
    · rw [insert_byName_of_ne hne, register_byName] at he
      have hold := h.paths name' e he
      have hne' : e.path ≠ path := by
        rintro rfl
        simp [hpath] at hold
      rw [insert_byPath_of_ne hne', register_byPath, hold]
  names := by
    intro path' name' hp
    by_cases hne : path' = path
    · subst hne
      rw [insert_byPath_self] at hp
      obtain rfl := Option.some.inj hp
      exact ⟨_, insert_byName_self, rfl⟩
    · rw [insert_byPath_of_ne hne, register_byPath] at hp
      obtain ⟨e, he, hpe⟩ := h.names path' name' hp
      have hne' : name' ≠ name := by
        rintro rfl
        simp [hname] at he
      exact ⟨e, by rw [insert_byName_of_ne hne', register_byName, he], hpe⟩

theorem owned_removeSymbols (h : IndexSound c) {sid : Word} {symbol : GlobalSymbol}
    (hsym : (c.removeSymbols name).globals sid = some symbol) : ∃ name' e, name' ≠ name ∧
      c.byName name' = some e ∧ e.order = symbol.order ∧
        symbol.ownerModulePath = stringId name' ∧ e.file.allocation.Inside symbol.ptr 1 := by
  obtain ⟨hsym, howner⟩ := removeSymbols_globals.mp hsym
  obtain ⟨name', e, he, horder, hown, hin⟩ := h.owned sid symbol hsym
  refine ⟨name', e, ?_, he, horder, hown, hin⟩
  rintro rfl
  exact howner hown

theorem resolves_removeSymbols (h : IndexSound c) (hd : DropSafe c name) {other : String}
    {e : ModuleEntry} {sid : Word} {entry : DCEntry} (hne : other ≠ name)
    (he : c.byName other = some e) (hentry : exported e.file sid = some entry) :
    ∃ symbol name' e' entry', name' ≠ name ∧
      (c.removeSymbols name).globals sid = some symbol ∧ c.byName name' = some e' ∧
      e'.order = symbol.order ∧ symbol.ownerModulePath = stringId name' ∧
      (name' = other ∨ e.order < e'.order) ∧
      exported e'.file sid = some entry' ∧ symbol.ptr = entry'.entryPtr := by
  obtain ⟨symbol, name', e', entry', hsym, he', horder, hown, hrest⟩ :=
    h.resolves other e sid entry he hentry
  have howner : symbol.ownerModulePath ≠ stringId name := by
    intro heq
    have := hd sid symbol other e hsym heq hne he
    simp [hentry] at this
  refine ⟨symbol, name', e', entry', ?_, removeSymbols_globals.mpr ⟨hsym, howner⟩, he', horder,
    hown, hrest⟩
  rintro rfl
  exact howner hown

theorem sound_unloaded (h : IndexSound c) (hd : DropSafe c name) :
    IndexSound ((c.removeSymbols name).erase name) where
  owned := by
    intro sid symbol hsym
    rw [erase_globals] at hsym
    obtain ⟨name', e, hne, he, hrest⟩ := owned_removeSymbols h hsym
    exact ⟨name', e, by rw [erase_byName_of_ne hne, removeSymbols_byName, he], hrest⟩
  resolves := by
    intro other e sid entry he hentry
    have hne : other ≠ name := by
      rintro rfl
      simp at he
    rw [erase_byName_of_ne hne, removeSymbols_byName] at he
    obtain ⟨symbol, name', e', entry', hne', hsym, he', hrest⟩ :=
      resolves_removeSymbols h hd hne he hentry
    refine ⟨symbol, name', e', entry', by rw [erase_globals, hsym], ?_, hrest⟩
    rw [erase_byName_of_ne hne', removeSymbols_byName, he']
  paths := by
    intro other e he
    have hne : other ≠ name := by
      rintro rfl
      simp at he
    rw [erase_byName_of_ne hne, removeSymbols_byName] at he
    have hold := h.paths other e he
    unfold Carbon.erase
    split
    · exact hold
    · rename_i e₀ he₀
      have hne' : e.path ≠ e₀.path := by
        intro heq
        have := h.paths name e₀ he₀
        rw [← heq, hold] at this
        exact hne (Option.some.inj this)
      simp [hne', hold]
  names := by
    intro path' name' hp
    unfold Carbon.erase at hp
    split at hp
    · rename_i hnone
      obtain ⟨e, he, hpe⟩ := h.names path' name' hp
      have hne : name' ≠ name := by
        rintro rfl
        rw [removeSymbols_byName, he] at hnone
        cases hnone
      exact ⟨e, by rw [erase_byName_of_ne hne, removeSymbols_byName, he], hpe⟩
    · rename_i e₀ he₀
      have hne' : path' ≠ e₀.path := by
        rintro rfl
        simp at hp
      have hold : c.byPath path' = some name' := by simpa [hne'] using hp
      obtain ⟨e, he, hpe⟩ := h.names path' name' hold
      have hne : name' ≠ name := by
        rintro rfl
        have : e = e₀ := Option.some.inj (he.symm.trans he₀)
        exact hne' (this ▸ hpe.symm)
      exact ⟨e, by rw [erase_byName_of_ne hne, removeSymbols_byName, he], hpe⟩

theorem sound_replaced (h : IndexSound c) {e₀ : ModuleEntry} (he₀ : c.byName name = some e₀)
    (hpath : e₀.path = file.path) (hnone : ∀ sid, exported file sid = none)
    (hd : DropSafe c name) :
    IndexSound (((c.register name file).removeSymbols name).insert file.path name file) := by
  rw [register_of_empty hnone]
  have hreg : c.byPath file.path = some name := hpath ▸ h.paths name e₀ he₀
  refine ⟨?_, ?_, ?_, ?_⟩
  · intro sid symbol hsym
    rw [insert_globals] at hsym
    obtain ⟨name', e, hne, he, hrest⟩ := owned_removeSymbols h hsym
    exact ⟨name', e, by rw [insert_byName_of_ne hne, removeSymbols_byName, he], hrest⟩
  · intro other e sid entry he hentry
    by_cases hne : other = name
    · subst hne
      rw [insert_byName_self] at he
      obtain rfl := Option.some.inj he
      simp [hnone] at hentry
    · rw [insert_byName_of_ne hne, removeSymbols_byName] at he
      obtain ⟨symbol, name', e', entry', hne', hsym, he', hrest⟩ :=
        resolves_removeSymbols h hd hne he hentry
      refine ⟨symbol, name', e', entry', by rw [insert_globals, hsym], ?_, hrest⟩
      rw [insert_byName_of_ne hne', removeSymbols_byName, he']
  · intro other e he
    by_cases hne : other = name
    · subst hne
      rw [insert_byName_self] at he
      obtain rfl := Option.some.inj he
      exact insert_byPath_self
    · rw [insert_byName_of_ne hne, removeSymbols_byName] at he
      have hold := h.paths other e he
      have hne' : e.path ≠ file.path := by
        intro heq
        rw [heq, hreg] at hold
        exact hne (Option.some.inj hold).symm
      rw [insert_byPath_of_ne hne', removeSymbols_byPath, hold]
  · intro path' name' hp
    by_cases hne : path' = file.path
    · subst hne
      rw [insert_byPath_self] at hp
      obtain rfl := Option.some.inj hp
      exact ⟨_, insert_byName_self, rfl⟩
    · rw [insert_byPath_of_ne hne, removeSymbols_byPath] at hp
      obtain ⟨e, he, hpe⟩ := h.names path' name' hp
      have hne' : name' ≠ name := by
        rintro rfl
        rw [he₀] at he
        obtain rfl := Option.some.inj he
        exact hne (hpe.symm.trans hpath)
      exact ⟨e, by rw [insert_byName_of_ne hne', removeSymbols_byName, he], hpe⟩

/-! ## What an unsafe change breaks -/

theorem pointsInside_of_sound_insert (hn : InsertionOrder c)
    (h' : IndexSound ((c.register name file).insert path name file)) : PointsInside file := by
  intro sid entry hentry
  obtain ⟨name', e, he, horder, -, hin⟩ := h'.owned sid _ (register_of_exported hentry)
  by_cases hne : name' = name
  · subst hne
    rw [insert_byName_self] at he
    obtain rfl := Option.some.inj he
    exact hin
  · -- the owner would be an older module
    rw [insert_byName_of_ne hne, register_byName] at he
    have := hn name' e he
    simp only at horder
    omega

theorem name_free_of_sound_insert {c' : Carbon} (h : IndexSound c) (hpath : c.byPath path = none)
    (hb : c'.byPath = c.byPath) (h' : IndexSound (c'.insert path name file)) :
    c.byName name = none := by
  cases he : c.byName name with
  | none => rfl
  | some e =>
    have hreg := h.paths name e he
    have hne : e.path ≠ path := by
      rintro rfl
      simp [hpath] at hreg
    obtain ⟨e', he', hpe⟩ := h'.names e.path name (by rw [insert_byPath_of_ne hne, hb, hreg])
    rw [insert_byName_self] at he'
    obtain rfl := Option.some.inj he'
    exact absurd hpe.symm hne

theorem path_free_of_sound_insert {c' : Carbon} (h : IndexSound c) (hname : c.byName name = none)
    (hb : c'.byName = c.byName) (h' : IndexSound (c'.insert path name file)) :
    c.byPath path = none := by
  cases hp : c.byPath path with
  | none => rfl
  | some other =>
    obtain ⟨e, he, hpe⟩ := h.names path other hp
    have hne : other ≠ name := by
      rintro rfl
      simp [hname] at he
    have := h'.paths other e (by rw [insert_byName_of_ne hne, hb, he])
    rw [hpe, insert_byPath_self] at this
    exact absurd (Option.some.inj this).symm hne

theorem dropSafe_of_resolves {c' : Carbon} (h' : IndexSound c')
    (hsub : ∀ sid symbol, c'.globals sid = some symbol →
      c.globals sid = some symbol ∧ symbol.ownerModulePath ≠ stringId name)
    (hkeep : ∀ other, other ≠ name → c'.byName other = c.byName other) : DropSafe c name := by
  intro sid symbol other e hsym howner hne he
  cases hentry : exported e.file sid with
  | none => rfl
  | some entry =>
    obtain ⟨symbol', -, -, -, hsym', -⟩ :=
      h'.resolves other e sid entry (by rw [hkeep other hne, he]) hentry
    obtain ⟨hold, hown⟩ := hsub sid symbol' hsym'
    rw [hsym] at hold
    obtain rfl := Option.some.inj hold
    exact absurd howner hown

theorem safe_of_sound_replaced (h : IndexSound c) {e₀ : ModuleEntry}
    (he₀ : c.byName name = some e₀)
    (h' : IndexSound
      (((c.register name file).removeSymbols name).insert file.path name file)) :
    e₀.path = file.path ∧ (∀ sid, exported file sid = none) ∧ DropSafe c name := by
  have hnone : ∀ sid, exported file sid = none := by
    intro sid
    cases hentry : exported file sid with
    | none => rfl
    | some entry =>
      -- the removal takes the symbols that were just registered
      obtain ⟨symbol, -, -, -, hsym, -⟩ :=
        h'.resolves name _ sid entry insert_byName_self hentry
      obtain ⟨hreg, hown⟩ := removeSymbols_globals.mp hsym
      rw [register_of_exported hentry] at hreg
      obtain rfl := Option.some.inj hreg
      exact absurd rfl hown
  rw [register_of_empty hnone] at h'
  refine ⟨?_, hnone, ?_⟩
  · by_contra hne
    have hreg := h.paths name e₀ he₀
    obtain ⟨e', he', hpe⟩ := h'.names e₀.path name
      (by rw [insert_byPath_of_ne hne, removeSymbols_byPath, hreg])
    rw [insert_byName_self] at he'
    obtain rfl := Option.some.inj he'
    exact hne hpe.symm
  · refine dropSafe_of_resolves h' ?_ ?_
    · intro sid symbol hsym
      exact removeSymbols_globals.mp hsym
    · intro other hne
      rw [insert_byName_of_ne hne, removeSymbols_byName]

end Changes

/-! ## Steps and runs -/

theorem sound_apply_iff (h : IndexSound c) (hn : InsertionOrder c)
    (event : ModuleEvent) :
    IndexSound (event.apply c) ↔ Safe c event := by
  cases event with
  | loaded path name file =>
    simp only [ModuleEvent.apply, Safe]
    cases hp : c.byPath path with
    | some other => simpa using h
    | none =>
      simp only [Option.isSome_none, Bool.false_eq_true, if_false, forall_const]
      constructor
      · intro h'
        exact ⟨name_free_of_sound_insert h hp register_byPath h',
          pointsInside_of_sound_insert hn h'⟩
      · rintro ⟨hname, hin⟩
        exact sound_insert_fresh h hn hname hp hin
  | loadedBinary name file =>
    simp only [ModuleEvent.apply, Safe]
    cases he : c.byName name with
    | none =>
      simp only [Option.isSome_none, Bool.false_eq_true, if_false]
      constructor
      · intro h'
        exact ⟨path_free_of_sound_insert h he register_byName h',
          pointsInside_of_sound_insert hn h'⟩
      · rintro ⟨hp, hin⟩
        exact sound_insert_fresh h hn he hp hin
    | some e =>
      simp only [Option.isSome_some, if_true]
      constructor
      · exact safe_of_sound_replaced h he
      · rintro ⟨hpath, hnone, hd⟩
        exact sound_replaced h he hpath hnone hd
  | unloaded name =>
    constructor
    · intro h'
      refine dropSafe_of_resolves h' ?_ ?_
      · intro sid symbol hsym
        rw [ModuleEvent.apply, erase_globals] at hsym
        exact removeSymbols_globals.mp hsym
      · intro other hne
        rw [ModuleEvent.apply, erase_byName_of_ne hne, removeSymbols_byName]
    · exact sound_unloaded h
  | ranTopLevel path => exact ⟨fun _ => trivial, fun _ => h⟩

theorem sound_run_iff (h : IndexSound c) (hn : InsertionOrder c)
    (events : List ModuleEvent) :
    (∀ k, IndexSound (runEvents c (events.take k))) ↔ SafeRun c events := by
  induction events generalizing c with
  | nil => simpa [runEvents, SafeRun] using h
  | cons event events ih =>
    constructor
    · intro hall
      have hstep : IndexSound (event.apply c) := hall 1
      refine ⟨(sound_apply_iff h hn event).mp hstep, ?_⟩
      exact (ih hstep (insertionOrder_apply hn event)).mp fun k => hall (k + 1)
    · rintro ⟨hsafe, hrest⟩ k
      have hstep := (sound_apply_iff h hn event).mpr hsafe
      cases k with
      | zero => exact h
      | succ k => exact (ih hstep (insertionOrder_apply hn event)).mpr hrest k

theorem sound_initial : IndexSound .initial where
  owned := nofun
  resolves := nofun
  paths := nofun
  names := nofun

theorem insertionOrder_initial : InsertionOrder .initial := nofun

/-! ## A module loaded twice under one name -/

/-- The allocation of a small file. -/
def smallAllocation : Allocation := ⟨0x1000, 0x80, by decide, by decide, by decide⟩

/-- A file that exports one function. -/
def sampleImage : FileImage where
  allocation := smallAllocation
  path := "main.bin"
  entries := some [⟨1, stringId "script-lambda", 0x1028⟩]
  requires := []
  topLevel := none

/-- A host without files and scripts. -/
def sampleHost : Host where
  initialized := true
  stem := id
  canonical := id
  fileExists := fun _ => false
  parentPath := id
  join := (· ++ ·)
  projectPath := ""
  fromPath := fun _ _ => none
  execute := fun _ _ => ([], true)

/-- The same binary loaded twice as the module `main`. -/
def sampleCalls : List HostCall :=
  [.loadModuleFromBinary "main" sampleImage, .loadModuleFromBinary "main" sampleImage]

theorem sampleCalls_events : runCalls sampleHost 0 .initial sampleCalls =
    some [.loadedBinary "main" sampleImage, .loadedBinary "main" sampleImage] := rfl

theorem sampleCalls_globals :
    (runEvents .initial [.loadedBinary "main" sampleImage,
      .loadedBinary "main" sampleImage]).globals 1 = none := by
  with_unfolding_all decide

theorem sampleCalls_exported : exported sampleImage 1 =
    some ⟨1, stringId "script-lambda", 0x1028⟩ := by
  with_unfolding_all decide

/-- In every state of the run that a sequence of host calls makes, the index is sound. -/
def CallsSound (host : Host) (n : ℕ) (calls : List HostCall) : Prop :=
  ∀ events, runCalls host n .initial calls = some events →
    ∀ k, IndexSound (runEvents .initial (events.take k))

/-- Loading a binary twice under one name leaves a loaded module without its symbols. -/
theorem not_calls_sound : ¬ ∀ host n calls, CallsSound host n calls := by
  intro h
  have hsound := h sampleHost 0 sampleCalls _ sampleCalls_events 2
  obtain ⟨symbol, -, -, -, hsym, -⟩ :=
    hsound.resolves "main" _ 1 _ insert_byName_self sampleCalls_exported
  have hnone := sampleCalls_globals
  rw [List.take_of_length_le (by simp)] at hsym
  rw [hnone] at hsym
  cases hsym

/-- The index is sound throughout every run of host calls exactly when every change the calls
make is safe when it is made. -/
theorem calls_sound_iff_safe (host : Host) (n : ℕ) (calls : List HostCall) :
    CallsSound host n calls ↔
      ∀ events, runCalls host n .initial calls = some events → SafeRun .initial events :=
  forall_congr' fun events => forall_congr' fun _ =>
    sound_run_iff sound_initial insertionOrder_initial events

end Soot.Analysis
