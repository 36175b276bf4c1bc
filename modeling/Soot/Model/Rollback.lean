import Soot.Program.Compiler

/-!
# What a failed compilation restores

What the session has to have back after `compile_internal` threw, and the compilations for
which the rollback is enough: those that compile another module only to fail with it before
anything is bound, enter no method in another file, and touch nothing of a file that was there
before but what the rollback cuts off.
-/

set_option autoImplicit false

namespace Soot.Model

open Soot.Computation Soot.Program StatefulExcept

variable {σ : Type}

/-- The tables of a file; which sequence is the body of the top-level function is not one of
them. -/
def contents (f : FileNode) : FileNode := { f with topLevelBody := none }

/-- The global environment is what it was, and so are the file and every other file that was
not loaded meanwhile. -/
structure Restored (s t : Session σ) (name : String) : Prop where
  globals : t.globalEnv = s.globalEnv
  files : ∀ id, (id ≠ name → id ∈ t.loadedFiles → id ∈ s.loadedFiles) →
    (t.findFileNode id).map contents = (s.findFileNode id).map contents

/-! ## Steps that spare a file -/

def SparesChildren (kept : List Built) : FileChange → Prop
  | .releaseChild id | .renameChild id _ | .setChildBody id _ =>
    ∀ c ∈ kept, c.functionId ≠ some id
  | .removeNamed name => ∀ c ∈ kept, c.declaredName ≠ some name
  | .addChild _ | .bind _ _ | .addPlaceholder _ => True

/-- The top-level function that `ensure_top_level` would write to is not one the file had
before. -/
def SparesTopLevel (kept : List Built) (file : String) (l : Locals) (s : Session σ) : Prop :=
  ∀ f, s.findFileNode file = some f →
    ∀ c ∈ kept, c.functionId ≠ some ((l.topLevel.or f.topLevel).getD s.nextNode)

/-- A node is not a method of a type that another file declares, and what goes to the
top-level function goes to a new one. -/
def SparesNode (kept : List Built) (file : String) (l : Locals) (s : Session σ) :
    Option Built → Prop
  | some (.function fn) => ∀ owner, findOwner s.fileNodes fn.name = some owner → owner.name = file
  | some (.expression node) =>
    node.isNew ∨ node = .sequenceNode [] ∨ SparesTopLevel kept file l s
  | some (.heapDefine _ _) | some (.staticDefine _ _) => SparesTopLevel kept file l s
  | _ => True

section Sparing

/- `nested`: a nested compilation fails and puts everything back; `owns`: the file has no node
before the compilation; `kept`: the children of its node -/
variable (project : Project σ) (compile : String → CompilerM σ (Except Unit Bool))
  (nested : String → Session σ → Prop) (owns : Bool) (kept : List Built) (file : String)

/-- A file that was there before imports and requires a loaded module already. -/
structure SparesLoaded (path : String) (s : Session σ) : Prop where
  imports : (owns ∧ s.currentFile = file) ∨
    ∀ id f dep, resolveRequire project s.inputOrigin path s.currentFile = some id →
      s.findFileNode s.currentFile = some f → s.findFileNode id = some dep →
        dep.ref = f.ref ∨ dep.ref ∈ f.imports
  requires : owns ∨ ∀ id f, resolveRequire project s.inputOrigin path file = some id →
    project.withoutExtension id ≠ "" → project.withoutExtension id ≠ project.withoutExtension file →
      s.findFileNode file = some f → project.withoutExtension id ∈ f.requires

/-- Requiring a module finds it loaded, or fails with it. -/
def SparesRequire (path : String) (s : Session σ) : Prop :=
  ∀ id, resolveRequire project s.inputOrigin path s.currentFile = some id →
    (id ∈ s.loadedFiles → SparesLoaded project owns file path s) ∧
      (id ∉ s.loadedFiles → nested id s)

def SparesBuild : BuildProgram σ → Session σ → Prop
  | .done _, _ => True
  | .failed, _ => True
  | .read next, s => SparesBuild (next s) s
  | .changeFile change next, s =>
    SparesChildren kept change ∧
      SparesBuild next { s with toModules := s.toModules.updateFile file fun f => change.apply f }
  | .bindGlobal name node next, s =>
    SparesBuild next { s with globalEnv := s.globalEnv.bind name node }
  | .changeRest rest next, s => SparesBuild next { s with rest }
  | .require path next, s =>
    SparesRequire project nested owns file path s ∧
      ∀ t, runFrom (buildRequire project compile file path) s = (.ok (), t) → SparesBuild next t

/-- Building a form spares the file, and so does what is done with its node. -/
def SparesForm (l : Locals) (form : Object) (s : Session σ) : Prop :=
  SparesBuild project compile nested owns kept file (project.build form) s ∧
    ∀ node t, runFrom (runBuild project compile file (project.build form)) s = (.ok node, t) →
      SparesNode kept file l t node

/-- Compiling the handlers and tracks of a state script spares the file. -/
def SparesScript (type : String) (s : Session σ) : Prop :=
  Along (fun _ body => compileStateBody project compile file body.1 body.2)
    (fun _ body t =>
      SparesBuild project compile nested owns kept file (project.buildLambda body.2) t)
    (project.stateBodies type s.rest) ⟨⟩ s

def SparesNames (ref : FileRef) (s : Session σ) : Prop :=
  owns ∨ ∀ f, derefFile s.fileNodes ref = some f →
    (project.generate f s.rest).anonNameCounter = f.anonNameCounter

/-- Every step of a compilation spares the file: its forms one after the other, its state
scripts, and the binary. -/
structure SparesForms (forms : List Object) (ref : FileRef) (isRepl : Bool) (s : Session σ) :
    Prop where
  builds : Along (compileForm project compile ref.name isRepl)
    (SparesForm project compile nested owns kept ref.name) forms ⟨none, none, []⟩ s
  scripts : ∀ l t,
    runFrom (forms.foldlM (compileForm project compile ref.name isRepl) ⟨none, none, []⟩) s =
      (.ok l, t) →
    Along (fun _ type => compileStateScript project compile ref.name type)
      (fun _ type => SparesScript project compile nested owns kept ref.name type)
      (t.stateScripts ref.name) ⟨⟩ t ∧
    ∀ u, runFrom (compileStateScripts project compile ref.name) t = (.ok (), u) →
      SparesNames project owns ref u

end Sparing

/-- What `compile_internal` compiles the forms in: the name of the file, the session and the
node of the file. -/
def entered (s : Session σ) (filename : String) (isRepl : Bool) : String × Session σ × FileNode :=
  let name := if isRepl then "<repl-" ++ toString s.replCounter ++ ">" else filename
  (name, (s.enter name isRepl).openFile name)

/-- A compilation spares its file: a file that was there before has no data and no lost
top-level function, and every step spares it. -/
structure SparesFile (project : Project σ) (compile : String → CompilerM σ (Except Unit Bool))
    (nested : GlobalNode → String → Session σ → Prop) (forms : List Object) (filename : String)
    (isRepl : Bool) (s : Session σ) : Prop where
  before : ∀ f, s.findFileNode (entered s filename isRepl).1 = some f →
    f.dataStructs = [] ∧ f.topLevel = FileNode.findTopLevel f.children
  steps : SparesForms project compile (nested s.globalEnv)
    (s.findFileNode (entered s filename isRepl).1).isNone
    (entered s filename isRepl).2.2.children forms (entered s filename isRepl).2.2.ref isRepl
    (entered s filename isRepl).2.1

/-- The session in which the forms of a required module are compiled. -/
def required (s : Session σ) (id : String) : Session σ :=
  { s with
    loadedFiles := id :: s.loadedFiles
    currentFile := id
    requested := []
    inputOrigin := .Default }

/-- A required module, nested to a depth, that has no forms or cannot be read, or whose forms
throw, spare its file and find the global environment as it was at first. -/
def FailsNested (project : Project σ) : ℕ → GlobalNode → String → Session σ → Prop
  | 0 => fun _ _ _ => False
  | depth + 1 => fun globals id s => ∀ forms, project.readForms id = .ok (some forms) →
    s.globalEnv = globals ∧
      SparesFile project (compileFile project depth) (FailsNested project depth) forms id false
        (required s id) ∧
      (runFrom (compileForms project (compileFile project depth) forms
        (entered (required s id) id false).2.2.ref false) (entered (required s id) id false).2.1).1 =
          .error .thrown

end Soot.Model
