import Soot.Program.Carbon
import Soot.Program.ProjectFiles

/-!
# Modules, compiled and loaded

The graph of the modules a compilation asks for, the modules a runtime has loaded, the files it
loads them from and the order in which it does.
-/

set_option autoImplicit false

namespace Soot.Model

open Soot.Computation Soot.Program

/-!
## The module graph

What a call of `compile_file` has to leave behind: each file it compiled imports what it
requires and nothing else, the compiler is where it was, and a search through the imports
ends. The calls that do compile no module but the one they are asked for.
-/

section ModuleGraph

variable {σ : Type} (project : Project σ)

def importNames (s : Modules) (file : String) : List String :=
  ((s.findFileNode file).map fun f => f.imports.map FileRef.name).getD []

def Requires (file : String) (requested : List String) (id : String) : Prop :=
  ∃ path ∈ requested, resolveRequire project .Default path file = some id

/-- A call of `compile_file` did what it has to do: the compiler's current file is what it was,
every file the call compiled imports exactly the modules it asked for, and a search for any
name from any file ends. -/
structure GoodCall (c : CallRecord) : Prop where
  current : c.after.currentFile = c.before.currentFile
  imports : ∀ e ∈ (c.file, c.requested) :: c.nested, ∀ id,
    id ∈ importNames c.after e.1 ↔ Requires project e.1 e.2 id
  lookups : ∀ name file, c.after.findFileNode name = some file → ∀ symbol,
    ∃ depth found, lookupFile c.after.fileNodes depth file.ref symbol = some found

def requiredRefs (s : Modules) (file : String) (requested : List String) : List FileRef :=
  requested.filterMap fun path =>
    (resolveRequire project .Default path file).bind fun id =>
      (s.findFileNode id).map FileNode.ref

def importsWith (s : Modules) (file : String) (added : List FileRef) (ref : FileRef) :
    Option (List FileRef) :=
  (derefFile s.fileNodes ref).map fun f =>
    if ref.name = file then f.imports ++ added else f.imports

/-- Nothing is left to compile for a file: the compiler is at the file already, every module it
asks for is another one, loaded and with a node, the file imports no other modules yet, and
with these imports every walk along imports ends. -/
structure Settled (s : Session σ) (file : String) (requested : List String) : Prop where
  current : s.currentFile = file
  known : ∀ id, Requires project file requested id →
    id ≠ file ∧ id ∈ s.loadedFiles ∧ (s.findFileNode id).isSome
  imports : ∀ id ∈ importNames s.toModules file, Requires project file requested id
  ends : ∀ name f, (s.openFile file).1.findFileNode name = some f →
    Ends (importsWith (s.openFile file).1.toModules file
      (requiredRefs project s.toModules file requested)) f.ref

end ModuleGraph

/-!
## What the symbol index owes to the loaded modules

The index is an index into loaded images: every symbol belongs to a loaded module and points
into its image, and every name a loaded module exports leads to that module or to one loaded
later that exports it too. The registry's two tables describe the same modules.
-/

/-- The entry of a table that a name resolves to: the last indexed one of that name. -/
def exportedEntry : List DCEntry → Word → Option DCEntry
  | [], _ => none
  | e :: table, name =>
    match exportedEntry table name with
    | some last => some last
    | none => if isIndexed e ∧ e.nameId = name then some e else none

def exported (file : FileImage) (name : Word) : Option DCEntry :=
  exportedEntry (file.entries.getD []) name

/-- The symbols point only into loaded modules, and the registry has one entry for each of
them. -/
structure IndexSound (c : Carbon) : Prop where
  /-- a symbol belongs to a loaded module and points into its image -/
  owned : ∀ sid symbol, c.globals sid = some symbol → ∃ name e,
    c.byName name = some e ∧ e.order = symbol.order ∧
      symbol.ownerModulePath = stringId name ∧ e.file.allocation.Inside symbol.ptr 1
  /-- an exported name resolves to its module or to one that was loaded later -/
  resolves : ∀ name e sid entry, c.byName name = some e → exported e.file sid = some entry →
    ∃ symbol name' e' entry', c.globals sid = some symbol ∧ c.byName name' = some e' ∧
      e'.order = symbol.order ∧ symbol.ownerModulePath = stringId name' ∧
      (name' = name ∨ e.order < e'.order) ∧
      exported e'.file sid = some entry' ∧ symbol.ptr = entry'.entryPtr
  /-- a loaded module is the one registered under its path -/
  paths : ∀ name e, c.byName name = some e → c.byPath e.path = some name
  /-- a registered path is that of a loaded module -/
  names : ∀ path name, c.byPath path = some name → ∃ e, c.byName name = some e ∧ e.path = path

/-- Removing the symbols of a name takes none that a module of another name exports. -/
def DropSafe (c : Carbon) (name : String) : Prop :=
  ∀ sid symbol other e, c.globals sid = some symbol →
    symbol.ownerModulePath = stringId name → other ≠ name → c.byName other = some e →
    exported e.file sid = none

def PointsInside (file : FileImage) : Prop :=
  ∀ sid entry, exported file sid = some entry → file.allocation.Inside entry.entryPtr 1

/-- When a change keeps the index sound: a module is loaded under a name, and at a path, that
no module has (a binary may replace a module without exporting anything), and no symbol is
removed that another module still exports. -/
def Safe (c : Carbon) : ModuleEvent → Prop
  | .loaded path name file =>
    c.byPath path = none → c.byName name = none ∧ PointsInside file
  | .loadedBinary name file =>
    match c.byName name with
    | none => c.byPath file.path = none ∧ PointsInside file
    | some e => e.path = file.path ∧ (∀ sid, exported file sid = none) ∧ DropSafe c name
  | .unloaded name => DropSafe c name
  | .ranTopLevel _ => True

def SafeRun : Carbon → List ModuleEvent → Prop
  | _, [] => True
  | c, event :: events => Safe c event ∧ SafeRun (event.apply c) events

/-!
## What loading a file amounts to

The header the loader accepts, the slots it relocates, the image it leaves in the buffer and
the accesses it makes on the way, in terms of the bytes of the file. The bitmap is read through
a signed 32-bit offset, so that a bitmap of more than two gigabytes is read from before its
beginning.
-/

/-! ### The fields of a file -/

def textSize (b : Bytes) : ℕ := b.read headerTextSize 4

def stringsOffset (b : Bytes) : ℕ := b.read headerStringsOffset 4

def numEntries (b : Bytes) : ℕ := b.read headerNumEntries 4

def tableSize (b : Bytes) : ℕ := b.read (textSize b) 4

/-- The header and the place of the relocation bitmap pass the checks of the loader. -/
structure HeaderAccepted (A : Allocation) (b : Bytes) : Prop where
  room : headerSize ≤ A.size
  magic : b.read headerMagic 4 = DC_FILE_MAGIC
  version : b.read headerVersion 4 = DC_FILE_VERSION
  textAfterHeader : headerSize ≤ textSize b
  strings : stringsOffset b ≤ textSize b
  entries : numEntries b ≤ 1000000
  tableNonempty : tableSize b ≠ 0
  table : textSize b + 4 + tableSize b ≤ A.size

/-! ### Slots -/

def flagged (b : Bytes) (slot : ℕ) : Bool :=
  (b (textSize b + 4 + slot / 8)).toNat.testBit (slot % 8)

def slotWord (b : Bytes) (slot : ℕ) : ℕ := b.read (slot * 8) 8

def directBytes (b : Bytes) : ℕ := min (tableSize b) (2 ^ 31)

/-- A slot the loader does not refuse: it lies in the text, its word is an offset in the buffer,
and that offset has a bit in the bitmap of the targets. -/
def SlotAccepted (A : Allocation) (b : Bytes) (slot : ℕ) : Prop :=
  flagged b slot = true →
    slot * 8 + 8 ≤ textSize b ∧ slotWord b slot < A.size ∧ slotWord b slot / 8 < tableSize b * 8

def SlotsAccepted (A : Allocation) (b : Bytes) : Prop :=
  ∀ slot < directBytes b * 8, SlotAccepted A b slot

def relocated (b : Bytes) (slot : ℕ) : Prop := slot < directBytes b * 8 ∧ flagged b slot = true

instance (b : Bytes) (slot : ℕ) : Decidable (relocated b slot) := inferInstanceAs (Decidable (_ ∧ _))

/-- The image of a file at an address: the words of the relocated slots are addresses. -/
def image (A : Allocation) (b : Bytes) : Bytes := fun i =>
  if relocated b (i / 8) then
    BitVec.ofNat 8 ((A.at (slotWord b (i / 8))).toNat / 256 ^ (i % 8))
  else b i

/-! ### Accesses -/

/-- The part of the bitmap beyond two gigabytes, read from four gigabytes before its place, is
inside the buffer, unless a slot is refused before it is reached. -/
def TableInside (A : Allocation) (b : Bytes) : Prop :=
  2 ^ 31 < tableSize b → SlotsAccepted A b → 2 ^ 31 ≤ textSize b + 4

/-- The bytes that are read for the bitmap beyond two gigabytes have no bits. -/
def WrappedClear (A : Allocation) (b : Bytes) : Prop :=
  ∀ i, 2 ^ 31 ≤ i → i < tableSize b → image A b (textSize b + 4 + i - 2 ^ 32) = 0

def entryTable (A : Allocation) (b : Bytes) : Word :=
  if b.read headerStartOfData 8 < A.base.toNat then 0 else BitVec.ofNat 64 (b.read headerStartOfData 8)

def entryField (A : Allocation) (b : Bytes) (table : Word) (i field : ℕ) : Word :=
  BitVec.ofNat 64
    (b.read (A.index (table + BitVec.ofNat 64 (i * entrySize) + BitVec.ofNat 64 field)) 8)

def FieldInside (A : Allocation) (table : Word) (i field : ℕ) : Prop :=
  A.Inside (table + BitVec.ofNat 64 (i * entrySize) + BitVec.ofNat 64 field) 8

def IsTopLevel (A : Allocation) (b : Bytes) (table : Word) (i : ℕ) : Prop :=
  entryField A b table i entryNameId = stringId "top-level" ∧
    entryField A b table i entryTypeId = stringId "script-lambda"

/-- The fields of an entry that are read are inside the buffer: its name, its type if the name
is that of the entry point, and its payload if it is the entry point. -/
def EntryInside (A : Allocation) (b : Bytes) (table : Word) (i : ℕ) : Prop :=
  FieldInside A table i entryNameId ∧
    (entryField A b table i entryNameId = stringId "top-level" →
      FieldInside A table i entryTypeId) ∧
    (IsTopLevel A b table i → FieldInside A table i entryPtr)

/-- The entries up to the first entry point are inside the buffer. -/
def EntriesInside (A : Allocation) (b : Bytes) : Prop :=
  ∀ i < numEntries b, (∀ k < i, ¬ IsTopLevel A b (entryTable A b) k) →
    EntryInside A b (entryTable A b) i

/-- Loading a file stays inside its buffer: a file whose header is accepted has its bitmap
inside the buffer, and, if none of its slots is refused, so are the entries of its image. -/
def LoadsInside (A : Allocation) (b : Bytes) : Prop :=
  HeaderAccepted A b → TableInside A b ∧
    (SlotsAccepted A b → WrappedClear A b → stringsOffset (image A b) ≤ A.size →
      EntriesInside A (image A b))

/-!
## What recursive loading owes to the require graph

The files a host has are named by their canonical paths, and a file requires those that its names
lead to. Loading a file runs the top-level code of each file it reaches once, after those it
requires, unless a cycle prevents it; a file that could not be loaded is not taken for one that
was.
-/

structure ModuleFile where
  requires : List String
  hasTopLevel : Bool
  deriving DecidableEq

section Graph

variable (host : Host) (searchPaths : List String) (files : String → Option ModuleFile)

def fileAt (c : Carbon) (path : String) : Option ModuleFile :=
  (host.fromPath c path).bind fun file =>
    file.entries.map fun _ => ⟨file.requires, file.topLevel.isSome⟩

/-- The path a requirement of the file at a path leads to. SRCLINE: Carbon.cpp:503-520 -/
def resolve (path name : String) : Option String :=
  (requireCandidates host path searchPaths name).find? host.fileExists

/-- A file requires another, both named by their canonical paths. -/
def RequireEdge (a b : String) : Prop :=
  ∃ path f name next, host.canonical path = a ∧ files a = some f ∧ name ∈ f.requires ∧
    resolve host searchPaths path name = some next ∧ host.canonical next = b

def TopLevel (a : String) : Prop := (files a).any (·.hasTopLevel) = true

instance : DecidablePred (TopLevel files) := fun a =>
  inferInstanceAs (Decidable ((files a).any (·.hasTopLevel) = true))

def LeadsTo (a b : String) : Prop :=
  Relation.ReflTransGen (RequireEdge host searchPaths files) a b

def topLevelRuns (events : List ModuleEvent) : List String :=
  events.filterMap fun event =>
    match event with
    | .ranTopLevel path => some (host.canonical path)
    | _ => none

/-- The condition on the files, for those that are used: what is read at a path is the file of its
canonical path, different files have different stems, each requirement of a file leads to a file
that can be read, and top-level code succeeds and loads or unloads nothing itself. Spellings of
one path resolve requirements alike. -/
structure Cooperates (used : String → Prop) : Prop where
  initialized : host.initialized = true
  idempotent : ∀ path, host.canonical (host.canonical path) = host.canonical path
  reads : ∀ c path, fileAt host c path = files (host.canonical path)
  alike : ∀ path path' name, host.canonical path = host.canonical path' →
    (resolve host searchPaths path name).map host.canonical =
      (resolve host searchPaths path' name).map host.canonical
  closed : ∀ a b, used a → RequireEdge host searchPaths files a b → used b
  stems : ∀ path path', used (host.canonical path) → used (host.canonical path') →
    files (host.canonical path) ≠ none → files (host.canonical path') ≠ none →
    host.stem path = host.stem path' → host.canonical path = host.canonical path'
  found : ∀ path f name, used (host.canonical path) → files (host.canonical path) = some f →
    name ∈ f.requires → ∃ next, resolve host searchPaths path name = some next ∧
      files (host.canonical next) ≠ none
  quiet : ∀ c lambda, host.execute c lambda = ([], true)

def AllCanonical (c : Carbon) : Prop :=
  ∀ path, c.byPath path ≠ none → host.canonical path = path

/-- The states after some calls of `load_module_with_imports`, with the changes they made; each
call begins with all modules registered under their canonical paths. -/
inductive Calls (used : String → Prop) : Carbon → List ModuleEvent → Prop where
  | start : Calls used .initial []
  | call {c : Carbon} {log events : List ModuleEvent} {n : ℕ} {path : String}
      {outcome : ModuleOutcome} {visited : List String} :
      Calls used c log → AllCanonical host c → used (host.canonical path) →
      loadModuleRecursive host searchPaths n c path [] = some (outcome, visited, events) →
      Calls used (runEvents c events) (log ++ events)

/-- What is promised of a call: in all calls so far, top-level code was run at most once for each
file, and after that of each file it requires, unless that one leads back to it; a call that
succeeds has run that of every file its own reaches; and the file of a call that fails is
registered under no path. -/
structure LoadsOnce (c : Carbon) (log : List ModuleEvent) (path : String)
    (outcome : ModuleOutcome) (events : List ModuleEvent) : Prop where
  once : (topLevelRuns host (log ++ events)).Nodup
  ordered : ∀ l a l', topLevelRuns host (log ++ events) = l ++ a :: l' →
    ∀ b, RequireEdge host searchPaths files a b → TopLevel files b →
      ¬ LeadsTo host searchPaths files b a → b ∈ l
  all : outcome = .succeeded → ∀ a, LeadsTo host searchPaths files (host.canonical path) a →
    TopLevel files a → a ∈ topLevelRuns host (log ++ events)
  retried : outcome ≠ .succeeded → ∀ path', host.canonical path' = host.canonical path →
    (runEvents c events).byPath path' = none

end Graph

/-! ## Requirements that depend on the project alone -/

section Requirements

variable (files : ProjectFiles) (path : Text)

/-- The module of a name is the same wherever the compiler runs and whichever file requires it. -/
def RootRelative : Prop :=
  ∀ places places' origin origin' fromId fromId',
    files.resolveRequire places origin path fromId =
      files.resolveRequire places' origin' path fromId'

/-- The module that is found from the root of the project: there, in its search paths, or in the
directory of the installation. -/
def rootModule : Option (List Text × FilePlace) :=
  let file := PathName.ofText path
  (([file.within files.projectRoot] ++
    files.searchPaths.map (fun dir => file.within (dir.within files.projectRoot)) ++
    [file.within sharePlace]).find? files.fileExists).bind files.moduleRef

/-- A file of the name that is found in any directory, or in one of the project, is the module
that is found from the root. -/
def NamedOnce : Prop :=
  ∀ dir : FilePlace, ∀ place ∈ [dir ++ (PathName.ofText path).parts,
      lexicallyNormal (files.projectRoot ++ dir ++ (PathName.ofText path).parts)],
    files.fileExists place = true → files.moduleRef place = rootModule files path

end Requirements

end Soot.Model
