import Soot.Program.BinaryFile
import Mathlib.Data.List.Basic

/-!
# Loading and unloading modules

`Carbon`'s module registry and the global symbol index. Every change of the two is one of
three: a module read from a path is registered and inserted, a module given as a binary is
registered and replaces one of its name, a module's symbols are dropped and its entry erased.
The operations of the source (`load_module`, `load_module_recursive`,
`load_module_from_binary`, `unload_module`, `reload_module`) are given by the changes they
make, in order. Script code they run (a top level, an unload hook) can load further modules,
so it is a list of changes too.

A file in memory is its allocation and its entry table, as `from_path` and `from_buffer`
leave them. The registration of its types in the collector is apart, as `Globals` does not see
it.
-/

set_option autoImplicit false

namespace Soot.Program

/-! ## Files in memory -/

/-- `DCEntry`. SRCLINE: DCHeader.hpp:17-28 -/
structure DCEntry where
  nameId : Word
  typeId : Word
  entryPtr : Word
  deriving DecidableEq

/-- What the registration of a type reads of an `SsType`.
SRCLINE: DCScript.hpp:325-337 -/
structure SsTypeRecord where
  name : Word
  size : ℕ
  align : ℕ
  deriving DecidableEq

/-- What the registry reads of a `BinaryFile`: the buffer that holds its image, the path it
carries, its entry table (none when `entries` is null), the names in its `requires` lists, its
`top-level`, and the types that lie in the image. -/
structure FileImage where
  allocation : Allocation
  path : String
  entries : Option (List DCEntry)
  requires : List String
  topLevel : Option Word
  ssTypes : Word → Option SsTypeRecord := fun _ => none

/-! ## Globals -/

/-- A symbol, with the number of modules inserted before the one that registered it: which
module that was, where the string ids of two names collide.
SRCLINE: Globals.hpp:20-24 -/
structure GlobalSymbol where
  ptr : Word
  typeId : Word
  ownerModulePath : Word
  order : ℕ
  deriving DecidableEq

/-- SRCLINE: Globals.hpp:36-90 -/
abbrev Globals := Word → Option GlobalSymbol

/-- `remove_module_symbols`. SRCLINE: Globals.hpp:55-59 -/
def removeModuleSymbols (g : Globals) (owner : Word) : Globals := fun name =>
  (g name).filter fun symbol => symbol.ownerModulePath ≠ owner

/-- The entries that become symbols: named ones, except the module's own entry point and its
list of requirements. SRCLINE: Carbon.cpp:47-64 -/
def isIndexed (e : DCEntry) : Bool :=
  e.nameId ≠ 0 ∧ ¬(e.nameId = stringId "top-level" ∧ e.typeId = stringId "script-lambda") ∧
    e.nameId ≠ stringId "requires"

/-- `register_file_symbols`: every entry in turn; a later one overwrites.
SRCLINE: Carbon.cpp:39-69 -/
def registerFileSymbols (owner : Word) (order : ℕ) : List DCEntry → Globals → Globals
  | [], g => g
  | e :: table, g =>
    registerFileSymbols owner order table
      (if isIndexed e then
        Function.update g e.nameId (some ⟨e.entryPtr, e.typeId, owner, order⟩)
      else g)

/-! ## The registry -/

/-- `ModuleRegistry::Entry`, with the number of modules inserted before it. -/
structure ModuleEntry where
  path : String
  logicalName : String
  file : FileImage
  order : ℕ

/-- `Globals` and the two tables of `ModuleRegistry`, with the number of modules inserted so
far. SRCLINE: Carbon.cpp:97-144 -/
structure Carbon where
  globals : Globals
  byName : String → Option ModuleEntry
  byPath : String → Option String
  inserted : ℕ

namespace Carbon

def initial : Carbon := ⟨fun _ => none, fun _ => none, fun _ => none, 0⟩

/-- `ModuleRegistry::insert`. SRCLINE: Carbon.cpp:114-119 -/
def insert (c : Carbon) (path name : String) (file : FileImage) : Carbon :=
  { c with
    byName := Function.update c.byName name (some ⟨path, name, file, c.inserted⟩)
    byPath := Function.update c.byPath path (some name)
    inserted := c.inserted + 1 }

/-- `ModuleRegistry::erase`. SRCLINE: Carbon.cpp:132-137 -/
def erase (c : Carbon) (name : String) : Carbon :=
  match c.byName name with
  | none => c
  | some e =>
    { c with
      byName := Function.update c.byName name none
      byPath := Function.update c.byPath e.path none }

/-- `register_file_symbols` on the global index, under a module's name. -/
def register (c : Carbon) (name : String) (file : FileImage) : Carbon :=
  { c with
    globals := registerFileSymbols (stringId name) c.inserted (file.entries.getD []) c.globals }

/-- `remove_module_symbols` on the global index. -/
def removeSymbols (c : Carbon) (name : String) : Carbon :=
  { c with globals := removeModuleSymbols c.globals (stringId name) }

end Carbon

/-! ## Changes -/

/-- A change of the registry and the index, or the top-level code of the module of a path, which
is run and changes neither itself. -/
inductive ModuleEvent where
  | loaded (path name : String) (file : FileImage)
  | loadedBinary (name : String) (file : FileImage)
  | unloaded (name : String)
  | ranTopLevel (path : String)

/-- What a change does. A path that is in the registry is not loaded again;
`load_module_from_binary` registers the new symbols first and then removes those of the name
it replaces. SRCLINE: Carbon.cpp:269-272, 303-317, 340-360, 581-600 -/
def ModuleEvent.apply (c : Carbon) : ModuleEvent → Carbon
  | .loaded path name file =>
    if (c.byPath path).isSome then c else (c.register name file).insert path name file
  | .loadedBinary name file =>
    let registered := c.register name file
    let replaced := if (c.byName name).isSome then registered.removeSymbols name else registered
    replaced.insert file.path name file
  | .unloaded name => (c.removeSymbols name).erase name
  | .ranTopLevel _ => c

def runEvents (c : Carbon) (events : List ModuleEvent) : Carbon := events.foldl ModuleEvent.apply c

/-! ## Operations -/

/-- How an operation ends: `true`, `false`, or an exception. -/
inductive ModuleOutcome where
  | succeeded
  | failed
  | threw
  deriving DecidableEq

/-- What the operations use of the file system, the loader and the virtual machine. The
outcome of reading a file and of running a script may depend on the state. -/
structure Host where
  initialized : Bool
  /-- `path.stem().string()` -/
  stem : String → String
  /-- `weakly_canonical`, or the path itself where that fails -/
  canonical : String → String
  fileExists : String → Bool
  parentPath : String → String
  /-- `dir / name` -/
  join : String → String → String
  projectPath : String
  /-- `BinaryFile::from_path`; none when it fails -/
  fromPath : Carbon → String → Option FileImage
  /-- the changes a run of a script function makes, and whether the run succeeded -/
  execute : Carbon → Word → List ModuleEvent × Bool

section Operations

variable (host : Host)

/-- `load_module`. SRCLINE: Carbon.cpp:263-315 -/
def loadModule (c : Carbon) (path : String) : ModuleOutcome × List ModuleEvent :=
  if host.initialized then
    if (c.byPath path).isSome then (.succeeded, [])
    else
      match host.fromPath c path with
      | none => (.failed, [])
      | some file =>
        match file.entries with
        | none => (.threw, [])
        | some _ => (.succeeded, [.loaded path (host.stem path) file])
  else (.failed, [])

/-- `load_module_from_binary`. SRCLINE: Carbon.cpp:324-361 -/
def loadModuleFromBinary (name : String) (file : FileImage) : ModuleOutcome × List ModuleEvent :=
  if host.initialized then
    match file.entries with
    | none => (.threw, [])
    | some _ => (.succeeded, [.loadedBinary name file])
  else (.failed, [])

/-- `unload_module`: the hook, if the index has one, then the removal.
SRCLINE: Carbon.cpp:559-603 -/
def unloadModule (c : Carbon) (name : String) : List ModuleEvent :=
  match c.byName name with
  | none => []
  | some _ =>
    match c.globals (stringId (name ++ "::on_unload")) with
    | none => [.unloaded name]
    | some hook => (host.execute c hook.ptr).1 ++ [.unloaded name]

/-- `reload_module`. SRCLINE: Carbon.cpp:605-612 -/
def reloadModule (c : Carbon) (path : String) : ModuleOutcome × List ModuleEvent :=
  let entry := (c.byPath path).bind c.byName
  let name := (entry.map ModuleEntry.logicalName).getD (host.stem path)
  let unloading := unloadModule host c name
  let loading := loadModule host (runEvents c unloading) path
  (loading.1, unloading ++ loading.2)

/-- `run_top_level`. SRCLINE: Carbon.cpp:617-655 -/
def runTopLevel (c : Carbon) (name : String) : ModuleOutcome × List ModuleEvent :=
  match c.byName name with
  | none => (.failed, [])
  | some entry =>
    match entry.file.topLevel with
    | none => (.succeeded, [])
    | some lambda =>
      let (events, ok) := host.execute c lambda
      (if ok then .succeeded else .failed, .ranTopLevel entry.path :: events)

/-- The paths tried for a required module. SRCLINE: Carbon.cpp:503-511 -/
def requireCandidates (path : String) (searchPaths : List String) (name : String) :
    List String :=
  let bin := name ++ ".bin"
  host.join (host.parentPath path) bin :: searchPaths.map (host.join · bin) ++
    [host.join host.projectPath bin]

/-- The loop over the required modules; `load` is the recursive call. It returns the set of
visited paths as well. SRCLINE: Carbon.cpp:497-535 -/
def loadRequired
    (load : Carbon → String → List String → Option (ModuleOutcome × List String × List ModuleEvent))
    (candidates : String → List String) :
    Carbon → List String → List String → Option (ModuleOutcome × List String × List ModuleEvent)
  | _, [], visited => some (.succeeded, visited, [])
  | c, name :: names, visited =>
    match (candidates name).find? host.fileExists with
    | none => some (.failed, visited, [])
    | some candidate =>
      match load c candidate visited with
      | none => none
      | some (.succeeded, visited, events) =>
        (loadRequired load candidates (runEvents c events) names visited).map
          fun (outcome, visited, more) => (outcome, visited, events ++ more)
      | some result => some result

/-- `load_module_recursive`, at most `n` levels deep; none when that is not enough.
SRCLINE: Carbon.cpp:397-557 -/
def loadModuleRecursive (searchPaths : List String) :
    ℕ → Carbon → String → List String → Option (ModuleOutcome × List String × List ModuleEvent)
  | 0, _, _, _ => none
  | n + 1, c, path, visited =>
    let canonical := host.canonical path
    if canonical ∈ visited then some (.succeeded, visited, [])
    else if (c.byPath canonical).isSome then some (.succeeded, canonical :: visited, [])
    else
      match loadModule host c path with
      | (.succeeded, events) =>
        let loadedState := runEvents c events
        let requires := ((loadedState.byName (host.stem path)).map (·.file.requires)).getD []
        match loadRequired host (loadModuleRecursive searchPaths n)
            (requireCandidates host path searchPaths) loadedState requires
            (canonical :: visited) with
        | none => none
        | some (.succeeded, visited, more) =>
          let (outcome, last) := runTopLevel host (runEvents loadedState more) (host.stem path)
          some (outcome, visited, events ++ more ++ last)
        | some (outcome, visited, more) => some (outcome, visited, events ++ more)
      | (outcome, events) => some (outcome, canonical :: visited, events)

inductive HostCall where
  | loadModule (path : String)
  | loadModuleWithImports (path : String) (searchPaths : List String)
  | loadModuleFromBinary (name : String) (file : FileImage)
  | unloadModule (name : String)
  | reloadModule (path : String)

/-- The changes one call makes; none when it needs more than `n` levels of requirements. -/
def callEvents (n : ℕ) (c : Carbon) : HostCall → Option (List ModuleEvent)
  | .loadModule path => some (loadModule host c path).2
  | .loadModuleWithImports path searchPaths =>
    (loadModuleRecursive host searchPaths n c path []).map (·.2.2)
  | .loadModuleFromBinary name file => some (loadModuleFromBinary host name file).2
  | .unloadModule name => some (unloadModule host c name)
  | .reloadModule path => some (reloadModule host c path).2

/-- The changes a sequence of calls makes, whether they succeed or fail. -/
def runCalls (n : ℕ) : Carbon → List HostCall → Option (List ModuleEvent)
  | _, [] => some []
  | c, call :: calls =>
    match callEvents host n c call with
    | none => none
    | some events => (runCalls n (runEvents c events) calls).map (events ++ ·)

end Operations

end Soot.Program
