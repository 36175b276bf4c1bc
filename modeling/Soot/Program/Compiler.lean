import Soot.Computation.StatefulExcept
import Soot.Program.FileNode

/-!
# The compiler's driver

`compile_file`, `require_file` and `compile_internal`: the tables a compilation changes, what
it restores when it fails, and the files it compiles on the way. What the node builder makes of
a form is any program over the changes it can make to these tables; reading files, generating
and loading a binary are parameters. A session also keeps the history of the calls that
returned, which nothing reads.
-/

set_option autoImplicit false

namespace Soot.Program

open Soot.Computation StatefulExcept

/-! ## Sessions -/

/-- SRCLINE: Compiler.hpp:67-71 -/
inductive InputOrigin where
  | Default | Test | Repl
  deriving DecidableEq

inductive CompileFault where
  /-- it throws -/
  | thrown
  /-- it nests deeper than the model follows -/
  | unbounded
  /-- it writes to a node that was freed -/
  | undefined
  deriving DecidableEq

/-- `m_current_file`, `m_file_nodes` and `m_loaded_files`. -/
structure Modules where
  currentFile : String
  fileNodes : List FileNode
  loadedFiles : List String

/-- A call of `compile_file` that returned a result: what it asked for itself, and what the
calls it made asked for. -/
structure CallRecord where
  file : String
  before : Modules
  after : Modules
  requested : List String
  nested : List (String × List String)

/-- The state of a compiler; `rest` is what the driver only hands on.
SRCLINE: Compiler.hpp:540-617 -/
structure Session (σ : Type) extends Modules where
  inputOrigin : InputOrigin
  globalEnv : GlobalNode
  globalSnapshot : GlobalSnapshot
  replCounter : ℕ
  nextNode : ℕ
  rest : σ
  /-- the paths the current compilation has asked for -/
  requested : List String
  calls : List CallRecord

abbrev CompilerM (σ α : Type) := StatefulExcept (Session σ) CompileFault α

inductive FileChange where
  | addChild (child : Built)
  | releaseChild (id : ℕ)
  | renameChild (id : ℕ) (name : String)
  | setChildBody (id : ℕ) (body : Node)
  | bind (name : String) (node : Built)
  | removeNamed (name : String)
  | addPlaceholder (name : String)

def FileChange.apply (file : FileNode) : FileChange → FileNode
  | addChild child => file.addChild child
  | releaseChild id => (file.releaseChild id).getD file
  | renameChild id name => file.renameChild id name
  | setChildBody id body => file.setChildBody id body
  | bind name node => file.bind name node
  | removeNamed name => file.removeNamed name
  | addPlaceholder name => file.addPlaceholder name

/-- What `NodeBuilder` does for a form: it reads the session, changes the file, the global
environment and the rest of the session, requires modules, and returns a node or throws. -/
inductive BuildProgram (σ : Type) where
  | done (node : Option Built)
  | failed
  | read (next : Session σ → BuildProgram σ)
  | changeFile (change : FileChange) (next : BuildProgram σ)
  | bindGlobal (name : String) (node : Built) (next : BuildProgram σ)
  | changeRest (rest : σ) (next : BuildProgram σ)
  | require (path : String) (next : BuildProgram σ)

/-- What `generate` makes of a file: the counters of its anonymous names, and, when it does not
throw, the layouts of its data when there is anything to emit. -/
structure Generated where
  anonNameCounter : List (String × ℕ)
  result : Option (Option (List DataStructEntry))
  /-- `BinaryFile::from_buffer` accepts the bytes -/
  valid : Bool

/-- The file system, the node builder, the generator and the runtime. -/
structure Project (σ : Type) where
  projectRoot : String
  parentPath : String → String
  /-- `find_project_file` and `make_module_id` -/
  findModule : String → String → Option String
  withoutExtension : String → String
  /-- the forms of a file; none when there are none, an error when reading throws -/
  readForms : String → Except Unit (Option (List Object))
  build : Object → BuildProgram σ
  buildLambda : Object → BuildProgram σ
  /-- the handlers and tracks of a type, with the names of their functions -/
  stateBodies : String → σ → List (String × Object)
  generate : FileNode → σ → Generated
  loadModule : String → σ → Bool × σ

/-! ## Files of a session -/

section Driver

variable {σ : Type} (project : Project σ)

def Modules.findFileNode (s : Modules) (id : String) : Option FileNode := findFile s.fileNodes id

def Modules.updateFile (s : Modules) (name : String) (f : FileNode → FileNode) : Modules :=
  { s with fileNodes := s.fileNodes.map fun file => if file.name = name then f file else file }

def modifyFile (name : String) (f : FileNode → FileNode) : CompilerM σ Unit :=
  modify fun s => { s with toModules := s.toModules.updateFile name f }

/-- `from_file->add_import(dep_file)`, when both files are there. -/
def addImportEdge (fromFile : Option FileRef) (target : String) : CompilerM σ Unit := do
  let s ← get
  match fromFile, s.findFileNode target with
  | some source, some dep =>
    modifyFile source.name fun f => if f.serial = source.serial then f.addImport dep.ref else f
  | _, _ => pure ()

/-- `resolve_require`. SRCLINE: Compiler.cpp:421-456 -/
def resolveRequire (origin : InputOrigin) (path fromId : String) : Option String :=
  project.findModule path
    (if origin = .Default then project.parentPath fromId else project.projectRoot)

/-! ## Requiring a module -/

section Compiling

/- `compile`: the nested calls of `compile_file`; an error is an unexpected result, and the
flag says whether there is a binary -/
variable (compile : String → CompilerM σ (Except Unit Bool))

/-- What follows a nested compilation. SRCLINE: Compiler.cpp:623-670 -/
def requireLoaded (id : String) (requirer : Option FileRef) : Except Unit Bool → CompilerM σ Unit
  | .error () => do
    modify fun s => { s with loadedFiles := s.loadedFiles.filter (· != id) }
    throw .thrown
  | .ok false => pure ()
  | .ok true => do
    let s ← get
    modify fun s => { s with rest := (project.loadModule id s.rest).2 }
    if (project.loadModule id s.rest).1 then addImportEdge requirer id
    else do
      modify fun s => { s with loadedFiles := s.loadedFiles.filter (· != id) }
      throw .thrown

/-- `require_file`. SRCLINE: Compiler.cpp:549-674 -/
def requireFile (path : String) : CompilerM σ Unit := do
  let s ← get
  match resolveRequire project s.inputOrigin path s.currentFile with
  | none => throw .thrown
  | some id =>
    let requirer := (s.findFileNode s.currentFile).map FileNode.ref
    if id ∈ s.loadedFiles then addImportEdge requirer id
    else do
      modify fun s => { s with loadedFiles := id :: s.loadedFiles }
      requireLoaded project id requirer (← compile id)

/-- `build_require` in a file. SRCLINE: NodeBuilder.cpp:2444-2501 -/
def buildRequire (file path : String) : CompilerM σ Unit := do
  modify fun s => { s with requested := s.requested ++ [path] }
  requireFile project compile path
  let s ← get
  match resolveRequire project s.inputOrigin path file with
  | none => pure ()
  | some id =>
    let name := project.withoutExtension id
    if name ≠ "" ∧ name ≠ project.withoutExtension file then
      modifyFile file fun f => f.addRequire name
    else pure ()

/-- `NodeBuilder::build` for a file. -/
def runBuild (file : String) : BuildProgram σ → CompilerM σ (Option Built)
  | .done node => pure node
  | .failed => throw .thrown
  | .read next => do
    let s ← get
    runBuild file (next s)
  | .changeFile change next => do
    modifyFile file fun f => change.apply f
    runBuild file next
  | .bindGlobal name node next => do
    modify fun s => { s with globalEnv := s.globalEnv.bind name node }
    runBuild file next
  | .changeRest rest next => do
    modify fun s => { s with rest }
    runBuild file next
  | .require path next => do
    buildRequire project compile file path
    runBuild file next

/-! ## The nodes of a file -/

/-- The pointers `compile_internal` keeps: the top-level function, its body, and the files
that received a method. -/
structure Locals where
  topLevel : Option ℕ
  body : Option ℕ
  owners : List FileRef

/-- A file with a top-level function, and a new body for it in this compilation. -/
def FileNode.withTopLevel (file : FileNode) (l : Locals) (id body : ℕ) : FileNode :=
  let file := if (l.topLevel.or file.topLevel).isSome then file
    else { file.addChild (.function (.new id "top-level")) with topLevel := id }
  if l.body.isSome then file
  else { file.setChildBody id (.sequenceNode []) with topLevelBody := body }

/-- `ensure_top_level`. SRCLINE: Compiler.cpp:752-767 -/
def ensureTopLevel (file : String) (l : Locals) : CompilerM σ Locals := do
  let s ← get
  match s.findFileNode file with
  | none => throw .undefined
  | some f =>
    let id := (l.topLevel.or f.topLevel).getD s.nextNode
    modifyFile file fun f => f.withTopLevel l id s.nextNode
    modify fun s => { s with nextNode := s.nextNode + 1 }
    return { l with topLevel := id, body := l.body.getD s.nextNode }

def Node.appended (node : Node) : Node → Node
  | .sequenceNode nodes => .sequenceNode (nodes ++ [node])
  | other => other

/-- `ensure_top_level()->add(node)`; the body may be gone. -/
def addToTopLevel (file : String) (l : Locals) (node : Node) : CompilerM σ Locals := do
  let l ← ensureTopLevel file l
  let s ← get
  if (s.findFileNode file).any fun f => f.topLevelBody == l.body then
    modifyFile file fun f =>
      { f with
        children := f.children.map fun c =>
          match c with
          | .function fn =>
            if some fn.id = l.topLevel then
              .function { fn with body := fn.body.map node.appended }
            else c
          | _ => c }
    return l
  else throw .undefined

def FileNode.declaredTypes (file : FileNode) : List String :=
  file.children.filterMap fun c =>
    match c with
    | .typeDeclaration type => some type
    | _ => none

/-- The file a method belongs to: the one that declares the type with the longest name such
that the name and a hyphen begin the name of the function.
SRCLINE: Compiler.cpp:796-815 -/
def findOwner (files : List FileNode) (name : String) : Option FileNode :=
  (files.foldl (fun best file =>
    file.declaredTypes.foldl (fun (best : ℕ × Option FileNode) type =>
      if (type ++ "-").isPrefixOf name && decide (best.1 < (type ++ "-").utf8ByteSize) then
        ((type ++ "-").utf8ByteSize, some file)
      else best) best) (0, none)).2

def declaredElsewhere (files : List FileNode) (file type : String) : Bool :=
  files.any fun f => f.name != file && f.declaredTypes.contains type

/-- What `compile_internal` does with a node. SRCLINE: Compiler.cpp:769-911 -/
def processNode (file : String) (isRepl : Bool) (l : Locals) : Option Built → CompilerM σ Locals
  | none => pure l
  | some (.staticDefine decl stores) => do
    modifyFile file fun f => f.addChild (.data decl)
    let l ← ensureTopLevel file l
    stores.foldlM (fun l store => addToTopLevel file l store) l
  | some (.heapDefine decl store) => do
    modifyFile file fun f => f.addChild (.data decl)
    addToTopLevel file l store
  | some (.function fn) => do
    let s ← get
    match findOwner s.fileNodes fn.name with
    | none => do
      modifyFile file fun f => f.addChild (.function fn)
      return l
    | some owner =>
      if owner.name = file then do
        modifyFile file fun f => f.addChild (.function fn)
        return l
      else do
        modifyFile owner.name fun f =>
          ((f.removeNamed fn.name).addChild (.function fn)).bind fn.name (.function fn)
        return { l with owners := l.owners ++ [owner.ref] }
  | some (.typeDeclaration type) => do
    let s ← get
    if isRepl && declaredElsewhere s.fileNodes file type then return l
    else do
      modifyFile file fun f => f.addChild (.typeDeclaration type)
      return l
  | some (.enumDeclaration name) => do
    modifyFile file fun f => f.addChild (.enumDeclaration name)
    return l
  | some (.stateScript type) => do
    modifyFile file fun f => f.addChild (.stateScript type)
    return l
  | some (.data decl) => do
    modifyFile file fun f => f.addChild (.data decl)
    return l
  | some (.expression node) =>
    if node.isNew then throw .thrown
    else
      match node with
      | .sequenceNode [] => pure l
      | node => addToTopLevel file l node

/-- One handler or track of `compile_state_script_bodies`.
SRCLINE: StateScriptCompilation.cpp:79-102 -/
def compileStateBody (file name : String) (form : Object) : CompilerM σ Unit := do
  match ← runBuild project compile file (project.buildLambda form) with
  | some (.function fn) =>
    modifyFile file fun f =>
      (f.addChild (.function { fn with name })).bind name (.function { fn with name })
  | _ => pure ()

/-- `compile_state_script_bodies`. SRCLINE: StateScriptCompilation.cpp:79-102 -/
def compileStateScript (file type : String) : CompilerM σ Unit := do
  let s ← get
  (project.stateBodies type s.rest).forM fun body =>
    compileStateBody project compile file body.1 body.2

def Modules.stateScripts (s : Modules) (file : String) : List String :=
  ((s.findFileNode file).map FileNode.children).getD [] |>.filterMap fun c =>
    match c with
    | .stateScript type => some type
    | _ => none

/-- The state scripts of the file are compiled. SRCLINE: Compiler.cpp:924-935 -/
def compileStateScripts (file : String) : CompilerM σ Unit := do
  let s ← get
  (s.stateScripts file).forM (compileStateScript project compile file)

/-- `generate`, for the file behind a pointer: whether there is a binary, and whether it can be
read back. SRCLINE: FileNode.cpp:38-66 -/
def generateFile (file : FileRef) : CompilerM σ (Bool × Bool) := do
  let s ← get
  match derefFile s.fileNodes file with
  | none => throw .undefined
  | some f =>
    let made := project.generate f s.rest
    modifyFile file.name fun f => { f with anonNameCounter := made.anonNameCounter }
    match made.result with
    | none => throw .thrown
    | some none => return (false, made.valid)
    | some (some dataStructs) => do
      modifyFile file.name fun f => { f with dataStructs }
      return (true, made.valid)

/-- An owner of a method is generated and loaded again; a runtime that rejects it is only
reported. SRCLINE: Compiler.cpp:953-986 -/
def rebuildOwner (file : String) (owner : FileRef) : CompilerM σ Unit :=
  if owner.name = file then pure ()
  else do
    let made ← generateFile project owner
    modify fun s =>
      if made.1 && made.2 then { s with rest := (project.loadModule owner.name s.rest).2 } else s

/-! ## Compiling -/

def compileForm (file : String) (isRepl : Bool) (l : Locals) (form : Object) :
    CompilerM σ Locals := do
  let node ← runBuild project compile file (project.build form)
  processNode file isRepl l node

/-- The `try` block of `compile_internal`: every form, the state scripts, the binary, and the
files that received a method. SRCLINE: Compiler.cpp:769-1000 -/
def compileForms (forms : List Object) (file : FileRef) (isRepl : Bool) :
    CompilerM σ (Except Unit Bool) := do
  let l ← forms.foldlM (compileForm project compile file.name isRepl) ⟨none, none, []⟩
  compileStateScripts project compile file.name
  let made ← generateFile project file
  l.owners.dedup.forM (rebuildOwner project file.name)
  if !made.1 then return .ok false
  else if !made.2 then return .error ()
  else do
    modify fun s => { s with globalSnapshot := none }
    return .ok true

def Session.openFile (s : Session σ) (name : String) : Session σ × FileNode :=
  match s.findFileNode name with
  | some file => (s, file)
  | none =>
    let file := FileNode.new name s.nextNode
    ({ s with fileNodes := file :: s.fileNodes, nextNode := s.nextNode + 1 }, file)

/-- What `compile_internal` sets before it compiles anything. -/
def Session.enter (s : Session σ) (name : String) (isRepl : Bool) : Session σ :=
  { s with
    replCounter := if isRepl then s.replCounter + 1 else s.replCounter
    currentFile := if isRepl then name else s.currentFile
    globalSnapshot := some s.globalEnv }

/-- What a compilation that throws restores. SRCLINE: Compiler.cpp:1002-1027 -/
def Session.rollback (s : Session σ) (name : String) (snapshot : FileSnapshot) (owns : Bool) :
    Session σ :=
  let restored := s.toModules.updateFile name fun f => f.rollback snapshot
  { s with
    toModules :=
      if owns then { restored with fileNodes := restored.fileNodes.filter (·.name != name) }
      else restored
    globalEnv := s.globalEnv.rollback s.globalSnapshot
    globalSnapshot := none }

/-- `compile_internal`. SRCLINE: Compiler.cpp:684-1028 -/
def compileInternal (forms : List Object) (filename : String) (isRepl : Bool) :
    CompilerM σ (Except Unit Bool) := do
  let s ← get
  let name := if isRepl then "<repl-" ++ toString s.replCounter ++ ">" else filename
  let opened := (s.enter name isRepl).openFile name
  set opened.1
  tryCatch (compileForms project compile forms opened.2.ref isRepl) fun e =>
    match e with
    | .thrown => do
      modify fun t => t.rollback name opened.2.takeSnapshot (s.findFileNode name).isNone
      return .error ()
    | e => throw e

/-- `compile_file` of forms. SRCLINE: Compiler.cpp:377-389 -/
def compileFileForms (forms : List Object) (filename : String) : CompilerM σ (Except Unit Bool) := do
  modify fun s => { s with currentFile := filename, inputOrigin := .Default }
  compileInternal project compile forms filename false

end Compiling

def record (before : Session σ) (id : String) : CompilerM σ Unit :=
  modify fun s =>
    { s with
      requested := before.requested
      calls := s.calls ++ [⟨id, before.toModules, s.toModules, s.requested,
        (s.calls.drop before.calls.length).map fun c => (c.file, c.requested)⟩] }

/-- `compile_file` of a module, nested to a depth: a file without forms gives no result.
SRCLINE: Compiler.cpp:391-403 -/
def compileFile : ℕ → String → CompilerM σ (Except Unit Bool)
  | 0, _ => throw .unbounded
  | depth + 1, id =>
    match project.readForms id with
    | .error () => throw .thrown
    | .ok none => return .error ()
    | .ok (some forms) => do
      let before ← get
      modify fun s => { s with requested := [] }
      let result ← compileFileForms project (compileFile depth) forms id
      match result with
      | .error () => do
        modify fun s => { s with requested := before.requested }
        return .error ()
      | .ok binary => do
        record before id
        return .ok binary

end Driver

end Soot.Program
