import Soot.Program.TypeSystem
import Soot.Program.StringId

/-!
# State scripts in a binary

How the body of a handler or of a track becomes the function that the binary's state script
points to. The compiler gives each body a function named by joining the type, the state and
the kind of the body with hyphens; `make_binary` lays all functions out, and
`build_state_script` looks each one up by a name it joins itself.

Of a program element only its name, its size and, when it is the function of a body, which
body that is are kept. A script pointer is an integer, zero for null: first relative to the
script's payload, then, after `adjust_offsets`, an offset in the file.
-/

set_option autoImplicit false

namespace Soot.Program

/-! ## Bodies and their names -/

inductive BodySlot where
  | handler (index : ℕ)
  | trackMain (track : ℕ)
  | trackFrame (track frame : ℕ)
  deriving DecidableEq

/-- A body of a state script: its type, the index of its state and its place there. -/
structure BodySource where
  typeName : String
  state : ℕ
  slot : BodySlot
  deriving DecidableEq

/-- `ensure_lambda`. SRCLINE: StateScriptCompilation.cpp:36-47 -/
def ensureLambda (body : Object) : Object :=
  let wrapped := .pair (.symbol "lambda") (.pair .null (.pair body .null))
  match body with
  | .pair (.symbol head) _ => if head = "lambda" ∨ head = "function" then body else wrapped
  | _ => wrapped

/-- `lambda_from_forms`. SRCLINE: StateScriptCompilation.cpp:50-55 -/
def lambdaFromForms (forms : List Object) : Object :=
  .pair (.symbol "lambda") (.pair .null (Object.ofList forms))

/-- The compiler's word for a kind of handler.
SRCLINE: StateScriptCompilation.cpp:57-67 -/
def handlerKindName : StateHandler → String
  | .ENTER => "enter"
  | .EXIT => "exit"
  | .CODE => "code"
  | .UPDATE => "trans"
  | .POST => "post"
  | .EVENT => "event"

/-- The builder's word for a kind of handler. SRCLINE: Type.hpp:262-272 -/
def stateHandlerToString : StateHandler → String
  | .ENTER => "enter"
  | .EXIT => "exit"
  | .UPDATE => "update"
  | .POST => "post"
  | .CODE => "code"
  | .EVENT => "event"

/-- The name of a handler's function, joined with a word for its kind. -/
def handlerName (kindName : StateHandler → String) (typeName stateName : String)
    (h : StateHandlerBody) : String :=
  let base := typeName ++ "-" ++ stateName ++ "-" ++ kindName h.kind
  if h.kind = .EVENT then base ++ "-event-" ++ h.eventId else base

/-- The names of a track's functions.
SRCLINE: StateScriptCompilation.cpp:120-135, FileNode.cpp:629-641 -/
def trackName (typeName stateName : String) (tr : TrackInfo) : String :=
  typeName ++ "-" ++ stateName ++ "-track-" ++ tr.name

@[inherit_doc trackName] def trackMainName (typeName stateName : String) (tr : TrackInfo) :
    String :=
  trackName typeName stateName tr ++ "-main"

@[inherit_doc trackName] def trackFrameName (typeName stateName : String) (tr : TrackInfo)
    (i : ℕ) : String :=
  trackName typeName stateName tr ++ "-frame-" ++ toString i

/-! ## Compiling the bodies -/

/-- A body to be compiled: the name of its function and the lambda form. -/
structure BodyRequest where
  name : String
  source : BodySource
  form : Object

/-- The handlers of a state that have a body.
SRCLINE: StateScriptCompilation.cpp:104-117 -/
def handlerBodies (typeName : String) (def_ : StateDef) (k : ℕ) : List BodyRequest :=
  def_.handlers.zipIdx.flatMap fun (h, i) =>
    if h.bodyAst.isNull then []
    else [⟨handlerName handlerKindName typeName def_.name h, ⟨typeName, k, .handler i⟩,
      ensureLambda h.bodyAst⟩]

/-- The tracks of a state: its body, if it has one, and each frame trigger.
SRCLINE: StateScriptCompilation.cpp:119-136 -/
def trackBodies (typeName : String) (def_ : StateDef) (k : ℕ) : List BodyRequest :=
  def_.tracks.zipIdx.flatMap fun (tr, t) =>
    (if tr.body.isEmpty then []
      else [⟨trackMainName typeName def_.name tr, ⟨typeName, k, .trackMain t⟩,
        lambdaFromForms tr.body⟩]) ++
    tr.frames.zipIdx.map fun (ft, i) =>
      ⟨trackFrameName typeName def_.name tr i, ⟨typeName, k, .trackFrame t i⟩,
        lambdaFromForms ft.body⟩

def scriptBodies (typeName : String) (defs : List StateDef) : List BodyRequest :=
  defs.zipIdx.flatMap fun (def_, k) =>
    handlerBodies typeName def_ k ++ trackBodies typeName def_ k

/-- An element of the program: its name, the size of its payload and, for the function of a
body, that body. SRCLINE: ProgramBinaryElement.hpp:200-203 -/
structure ProgramBinaryElement where
  name : String
  size : ℕ
  source : Option BodySource
  nonempty : 0 < size

/-- Compiling a lambda form: the sizes and names of what it adds to the file on the way
(functions and data its body defines) and the size of the function itself. -/
abbrev BuildLambda := Object → Except String (List (String × {n : ℕ // 0 < n}) × {n : ℕ // 0 < n})

def ProgramBinaryElement.plain (e : String × {n : ℕ // 0 < n}) : ProgramBinaryElement :=
  ⟨e.1, e.2.1, none, e.2.2⟩

/-- `emit`: what compiling a body adds to the file.
SRCLINE: StateScriptCompilation.cpp:82-101 -/
def emitBody (build : BuildLambda) (r : BodyRequest) :
    Except String (List ProgramBinaryElement) := do
  let (others, size) ← build r.form
  return others.map .plain ++ [⟨r.name, size.1, some r.source, size.2⟩]

/-- `compile_state_script_bodies`; a type that is not known has no bodies.
SRCLINE: StateScriptCompilation.cpp:71-139 -/
def compileStateScriptBodies (ts : TypeSystem) (build : BuildLambda) (typeName : String) :
    Except String (List ProgramBinaryElement) :=
  match ts.lookupTypeNoThrow typeName with
  | none => .ok []
  | some t => do return (← (scriptBodies typeName t.stateDefs).mapM (emitBody build)).flatten

/-! ## The state script -/

/-- SRCLINE: DCScript.hpp:279-288 -/
structure SsLambda where
  scriptLambda : ℤ

/-- SRCLINE: DCScript.hpp:262-272 -/
structure SsTrack where
  trackId : Word
  lambdas : List SsLambda

/-- SRCLINE: DCScript.hpp:119-140 -/
structure SsOnBlock where
  blockType : StateHandler
  blockEventId : Word
  scriptLambda : ℤ
  trackGroup : List SsTrack

/-- SRCLINE: DCScript.hpp:78-103 -/
structure SsState where
  stateId : Word
  onBlocks : List SsOnBlock

section Build

variable (lookupLambda : String → ℤ) (typeName : String)

/-- `fill_group` for the block that carries the tracks.
SRCLINE: FileNode.cpp:590-648 -/
def fillGroup (def_ : StateDef) : List SsTrack :=
  def_.tracks.map fun tr => ⟨stringId tr.name,
    (if tr.body.isEmpty then [] else [⟨lookupLambda (trackMainName typeName def_.name tr)⟩]) ++
    tr.frames.zipIdx.map fun (_, i) => ⟨lookupLambda (trackFrameName typeName def_.name tr i)⟩⟩

/-- The handler whose block carries the tracks: the first `enter`, else the first that is not
an event. SRCLINE: FileNode.cpp:441-460 -/
def anchor (def_ : StateDef) : Option ℕ :=
  if def_.tracks.isEmpty then none
  else (def_.handlers.findIdx? (·.kind = .ENTER)).or (def_.handlers.findIdx? (·.kind ≠ .EVENT))

/-- The block of a handler. SRCLINE: FileNode.cpp:652-671 -/
def handlerBlock (def_ : StateDef) (i : ℕ) (h : StateHandlerBody) : SsOnBlock where
  blockType := h.kind
  blockEventId := if h.kind = .EVENT then stringId h.eventId else 0
  scriptLambda := lookupLambda (handlerName stateHandlerToString typeName def_.name h)
  trackGroup := if anchor def_ = some i then fillGroup lookupLambda typeName def_ else []

/-- The blocks of a state, with a block of its own for tracks that no handler carries.
SRCLINE: FileNode.cpp:649-683 -/
def onBlocks (def_ : StateDef) : List SsOnBlock :=
  def_.handlers.mapIdx (handlerBlock lookupLambda typeName def_) ++
    if !def_.tracks.isEmpty && (anchor def_).isNone then
      [⟨.ENTER, 0, 0, fillGroup lookupLambda typeName def_⟩]
    else []

/-- The states of a script, with their indices: those with a handler or a track.
SRCLINE: FileNode.cpp:430-439 -/
def usedStates (defs : List StateDef) : List (StateDef × ℕ) :=
  defs.zipIdx.filter fun (def_, _) => !(def_.handlers.isEmpty && def_.tracks.isEmpty)

/-- The state table of `build_state_script`. SRCLINE: FileNode.cpp:543-684 -/
def buildStates (defs : List StateDef) : List SsState :=
  (usedStates defs).map fun (def_, _) =>
    ⟨stringId def_.name, onBlocks lookupLambda typeName def_⟩

end Build

/-- The size of a script's payload: header, options, option ids, and the four tables.
SRCLINE: FileNode.cpp:481-518 -/
def scriptPayloadSize (numOptions : ℕ) (states : List SsState) : ℕ :=
  let blocks := states.flatMap (·.onBlocks)
  let tracks := blocks.flatMap (·.trackGroup)
  0x50 + 0x50 + 0x10 + numOptions * 16 + states.length * 0x18 + blocks.length * 0x50 +
    tracks.length * 0x18 + (tracks.flatMap (·.lambdas)).length * 0x10

/-! ## Laying the file out -/

/-- The size of the header with the array marker, and of an entry of the table. -/
def tableStart : ℕ := 0x28
@[inherit_doc tableStart] def tableEntrySize : ℕ := 0x18

/-- The offsets of elements laid out from `running` on, under the names the table of string
ids gives back for them; a later element of a name replaces an earlier one.
SRCLINE: FileNode.cpp:912-919 -/
def entryOffsets (getString : Word → String) :
    ℕ → List ProgramBinaryElement → (String → Option ℕ) → String → Option ℕ
  | _, [], offsets => offsets
  | running, el :: els, offsets =>
    entryOffsets getString (running + el.size) els
      (Function.update offsets (getString (stringId el.name)) (some running))

/-- `lookup_lambda`: the offset relative to the script's payload, or null.
SRCLINE: FileNode.cpp:579-592 -/
def lookupLambda (offsets : String → Option ℕ) (payload : ℕ) (name : String) : ℤ :=
  match offsets name with
  | none => 0
  | some absolute => absolute - payload

/-- A file with state scripts: the elements of its forms, the types of its script nodes, the
elements of its type declarations (those of the forms, then `<type>$vars` of the scripts), and
how many entries follow the scripts (placeholders and the list of requirements). -/
structure ScriptFile where
  forms : List (String × {n : ℕ // 0 < n})
  scripts : List String
  typeDeclarations : List (String × {n : ℕ // 0 < n})
  hasTypes : Bool
  laterEntries : ℕ

/-- What the pipeline uses: the types, the function compiler, the number of options of a type
(without `initial`), and the table of string ids. -/
structure ScriptHost where
  types : TypeSystem
  build : BuildLambda
  numOptions : String → ℕ
  getString : Word → String

/-- A state script placed in the file: its type, its states with relative pointers, and the
offset of its payload. -/
structure PlacedScript where
  typeName : String
  states : List SsState
  payload : ℕ

section Layout

variable (host : ScriptHost)

/-- The loop that appends the scripts, from the offset `running` on; a type that is no
structure has no script. SRCLINE: FileNode.cpp:421-428, 921-933 -/
def placeScripts (offsets : String → Option ℕ) : ℕ → List String → List PlacedScript
  | _, [] => []
  | running, typeName :: scripts =>
    match host.types.lookupTypeNoThrow typeName with
    | none => placeScripts offsets running scripts
    | some t =>
      if t.fields.isSome then
        let states := buildStates (lookupLambda offsets running) typeName t.stateDefs
        ⟨typeName, states, running⟩ ::
          placeScripts offsets (running + scriptPayloadSize (host.numOptions typeName) states)
            scripts
      else placeScripts offsets running scripts

/-- The elements before the scripts: the forms, the functions of the bodies, the types. -/
def fileElements (file : ScriptFile) : Except String (List ProgramBinaryElement) := do
  let bodies ← file.scripts.mapM (compileStateScriptBodies host.types host.build)
  return file.forms.map .plain ++ bodies.flatten ++ file.typeDeclarations.map .plain

/-- A relative pointer after `adjust_offsets` at a payload: null stays null.
SRCLINE: ProgramBinaryElement.cpp:67-84 -/
def adjustPointer (payload : ℕ) (p : ℤ) : ℤ := if p = 0 then 0 else p + payload

/-- `adjust_offsets` on the parts of a state that hold script pointers. -/
def SsLambda.adjust (payload : ℕ) (l : SsLambda) : SsLambda :=
  ⟨adjustPointer payload l.scriptLambda⟩

@[inherit_doc SsLambda.adjust] def SsTrack.adjust (payload : ℕ) (tr : SsTrack) : SsTrack :=
  { tr with lambdas := tr.lambdas.map (·.adjust payload) }

@[inherit_doc SsLambda.adjust] def SsOnBlock.adjust (payload : ℕ) (b : SsOnBlock) : SsOnBlock :=
  { b with
    scriptLambda := adjustPointer payload b.scriptLambda
    trackGroup := b.trackGroup.map (·.adjust payload) }

@[inherit_doc SsLambda.adjust] def SsState.adjust (payload : ℕ) (s : SsState) : SsState :=
  { s with onBlocks := s.onBlocks.map (·.adjust payload) }

/-- The offsets of the elements in the file, from `start` on. -/
def elementOffsets : ℕ → List ProgramBinaryElement → List (ProgramBinaryElement × ℕ)
  | _, [] => []
  | start, el :: els => (el, start) :: elementOffsets (start + el.size) els

/-- The binary as far as scripts go: where its elements are, and its state scripts with the
offsets they point to. -/
structure LinkedFile where
  elements : List (ProgramBinaryElement × ℕ)
  scripts : List (String × List SsState)

def payloadsSize (els : List ProgramBinaryElement) : ℕ := (els.map (·.size)).sum

/-- `make_binary`, from the appending of the scripts on. The table is laid out with the entries
there are so far when the scripts are built, and with all entries in the end.
SRCLINE: FileNode.cpp:900-934, 1010-1056, 1166-1176 -/
def makeBinary (file : ScriptFile) (elements : List ProgramBinaryElement) : LinkedFile :=
  let start := tableStart + elements.length * tableEntrySize
  let offsets := entryOffsets host.getString start elements fun _ => none
  let placed := placeScripts host offsets (start + payloadsSize elements) file.scripts
  let shift := (placed.length + file.laterEntries) * tableEntrySize
  ⟨elementOffsets (start + shift) elements,
    placed.map fun s => (s.typeName, s.states.map (·.adjust (s.payload + shift)))⟩

/-- The compilation of a file with state scripts, and its binary; none when there is nothing
to emit. SRCLINE: FileNode.cpp:37-66 -/
def generateScripts (file : ScriptFile) : Except String (Option LinkedFile) := do
  let elements ← fileElements host file
  if elements.length = file.typeDeclarations.length ∧ !file.hasTypes then return none
  return some (makeBinary host file elements)

end Layout

end Soot.Program
