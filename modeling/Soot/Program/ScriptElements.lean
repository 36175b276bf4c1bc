import Soot.Computation.Records
import Soot.Program.Instruction
import Soot.Program.Process
import Soot.Program.StateScripts
import Soot.Program.TypeDeclaration

/-!
# The records of a state script

What `build_state_script` and `build_ss_type_for_script` write: fixed-size records, one after the
other, that name each other by offsets from the start of the payload and by counts. The counts have
the widths of their members. The members that are always zero are left out, and so are the header's
that `make_binary` fills in.

The tables are vectors whose sizes are counted beforehand, in 32 bits; a write past the end of
one is undefined.
-/

set_option autoImplicit false

namespace Soot.Program

open Soot.Computation

def u32 (n : ℕ) : ℕ := n % 4294967296

/-- Truncation to a signed word of 16 or 32 bits. -/
def i16 (n : ℕ) : ℤ := (BitVec.ofNat 16 n).toInt
@[inherit_doc i16] def i32 (n : ℕ) : ℤ := (BitVec.ofNat 32 n).toInt

/-! ## Records -/

inductive RecordKind where
  | stateScript | options | symbolArray | sid | state | onBlock | track | lambda
  | type | field | method
  deriving DecidableEq

/-- The `sizeof` of a record. SRCLINE: DCScript.hpp:106-367 -/
def RecordKind.size : RecordKind → ℕ
  | .stateScript | .options | .onBlock => 0x50
  | .symbolArray | .lambda => 0x10
  | .sid => 8
  | .state | .track | .method => 0x18
  | .type => 0x40
  | .field => 0x28

/-- `StateScript`. SRCLINE: DCScript.hpp:148-171 -/
structure StateScriptRecord where
  stateScriptId : Word
  initialStateId : Word
  ssOptions : ℕ
  ssStateTable : ℕ
  stateCount : ℤ

/-- `SsOptions`. SRCLINE: DCScript.hpp:230-247 -/
structure OptionsRecord where
  symbolArray : ℕ
  always5 : ℕ

/-- `SymbolArray`. SRCLINE: DCScript.hpp:251-256 -/
structure SymbolArrayRecord where
  numEntries : ℕ
  symbols : ℕ

/-- `SsState`. SRCLINE: DCScript.hpp:78-103 -/
structure StateRecord where
  stateId : Word
  numSsOnBlocks : ℕ
  ssOnBlocks : ℕ

/-- `SsTrackGroup`, which is part of its block. -/
structure TrackGroup where
  totalLambdaCount : ℕ
  numTracks : ℤ
  aTracks : ℕ

/-- `SsOnBlock`. SRCLINE: DCScript.hpp:119-140 -/
structure OnBlockRecord where
  blockType : BlockType
  blockEventId : Word
  scriptLambda : ℤ
  trackGroup : TrackGroup

/-- `SsTrack`. SRCLINE: DCScript.hpp:263-270 -/
structure TrackRecord where
  trackId : Word
  trackIdx : ℕ
  totalLambdaCount : ℤ
  ssLambda : ℕ

/-- `SsLambda`. SRCLINE: DCScript.hpp:279-285 -/
structure LambdaRecord where
  scriptLambda : ℤ
  frameNumber : Word

/-- `SsType`. SRCLINE: DCScript.hpp:325-337 -/
structure TypeRecord where
  name : Word
  parent : Word
  size : ℕ
  align : ℕ
  numFields : ℕ
  numMethods : ℕ
  fields : ℕ
  methods : ℕ
  flags : ℕ

/-- `SsField`. SRCLINE: DCScript.hpp:312-321 -/
structure FieldRecord where
  name : Word
  type : Word
  offset : ℕ
  size : ℕ
  flags : ℕ
  count : ℕ

/-- `SsMethod`. SRCLINE: DCScript.hpp:360-367 -/
structure MethodRecord where
  name : Word
  fullName : Word
  lambda : ℕ

inductive ScriptRecord where
  | stateScript (r : StateScriptRecord)
  | options (r : OptionsRecord)
  | symbolArray (r : SymbolArrayRecord)
  | sid (w : Word)
  | state (r : StateRecord)
  | onBlock (r : OnBlockRecord)
  | track (r : TrackRecord)
  | lambda (r : LambdaRecord)
  | type (r : TypeRecord)
  | field (r : FieldRecord)
  | method (r : MethodRecord)

def ScriptRecord.kind : ScriptRecord → RecordKind
  | .stateScript _ => .stateScript
  | .options _ => .options
  | .symbolArray _ => .symbolArray
  | .sid _ => .sid
  | .state _ => .state
  | .onBlock _ => .onBlock
  | .track _ => .track
  | .lambda _ => .lambda
  | .type _ => .type
  | .field _ => .field
  | .method _ => .method

/-- A program element: the size it was made with, and the records pushed into it. -/
structure ScriptElement where
  payloadSize : ℕ
  records : List ScriptRecord

namespace ScriptElement

def empty : ScriptElement := ⟨0, []⟩

def size (el : ScriptElement) : ℕ := totalSize ScriptRecord.kind RecordKind.size el.records

def recordAt (el : ScriptElement) : ℕ → Option ScriptRecord :=
  Computation.recordAt ScriptRecord.kind RecordKind.size el.records

end ScriptElement

/-! ## The variables of a script -/

section Vars

/-- `MethodInfo` by id, from a type up its parents. SRCLINE: TypeSystem.cpp:457-469 -/
def TypeSystem.tryLookupMethodById (ts : TypeSystem) (t : SootType) (id : ℕ) :
    Except TypeFault (Option MethodInfo) :=
  orThrown (ts.findMethod (·.getMyMethodById id) (ts.types.length + 1) t)

variable (ts : TypeSystem) (isConst : Field → Bool) (typeLambdas : String → Option ℕ)
  (typeName : String)

/-- The record of a field. SRCLINE: FileNode.cpp:275-290 -/
def fieldRecord (f : Field) : Except TypeFault FieldRecord := do
  let size ← ts.getSizeInType f
  return {
    name := stringId f.name
    type := stringId f.type.baseType
    offset := u32 f.offset.toNat
    size := u32 size.toNat
    flags := (if f.isInline then 1 else 0) + (if f.isDynamic then 2 else 0) +
      (if f.isArray then 4 else 0) + (if isConst f then 8 else 0)
    count := u32 f.arraySize.toNat }

/-- The record of a method id; an id without a method has an empty one.
SRCLINE: FileNode.cpp:295-311 -/
def methodRecord (t : SootType) (id : ℕ) : Except TypeFault MethodRecord := do
  match ← ts.tryLookupMethodById t id with
  | none => return ⟨0, 0, 0⟩
  | some info =>
    return ⟨stringId info.name, stringId (typeName ++ "-" ++ info.name),
      (typeLambdas info.name).getD 0⟩

/-- `build_ss_type_for_script`. The loop that pushes the methods stands in another loop over the
methods. SRCLINE: FileNode.cpp:252-350 -/
def buildSsTypeForScript : Except TypeFault ScriptElement :=
  match ts.lookupTypeNoThrow typeName with
  | none => .ok .empty
  | some t =>
    match t.fields with
    | none => .ok .empty
    | some fields => do
      let numFields := u32 fields.length
      let ssFields ← (fields.take numFields).mapM (fieldRecord ts isConst)
      let numMethods ← ts.getNextMethodId t
      let ssMethods ← (List.range numMethods).mapM (methodRecord ts typeLambdas typeName t)
      let fieldsOffset := 0x40
      let methodsOffset := fieldsOffset + numFields * 0x28
      let ssType : TypeRecord := {
        name := stringId (typeName ++ "$vars")
        parent := stringId t.parent
        size := t.desc.sizeInMemory
        align := t.desc.alignment
        numFields
        numMethods
        fields := fieldsOffset
        methods := if numMethods > 0 then methodsOffset else 0
        flags := 6 }
      return {
        payloadSize := methodsOffset + numMethods * 0x18
        records := [.type ssType] ++ ssFields.map .field ++
          ssMethods.flatMap fun _ => ssMethods.map .method }

end Vars

/-! ## The script -/

section Script

/-- SRCLINE: FileNode.cpp:355-365 -/
def handlerKindToBlockType : StateHandler → BlockType
  | .ENTER => .Enter
  | .EXIT => .Exit
  | .CODE => .Code
  | .UPDATE => .Update
  | .POST => .Post
  | .EVENT => .Event

def lambdaCount (tr : TrackInfo) : ℕ :=
  u32 ((if tr.body.isEmpty then 0 else 1) + u32 tr.frames.length)

def trackCount (def_ : StateDef) : ℕ := u32 def_.tracks.length

/-- `StateEntry::anchor`: the index, as an `int`, of the first `enter` handler, else of the first
that is not an event; negative if there is none. SRCLINE: FileNode.cpp:441-460 -/
def anchorIndex (def_ : StateDef) : ℤ :=
  if trackCount def_ = 0 then -1
  else
    let enter := ((def_.handlers.findIdx? (·.kind = .ENTER)).map i32).getD (-1)
    if enter < 0 then ((def_.handlers.findIdx? (·.kind ≠ .EVENT)).map i32).getD enter else enter

def synthBlock (def_ : StateDef) : Bool := trackCount def_ ≠ 0 && anchorIndex def_ < 0

def carriesTracks (def_ : StateDef) (i : ℕ) : Bool := i32 i = anchorIndex def_

/-- The tracks would be written twice, past the end of their vector. -/
def carriedTwice (def_ : StateDef) : Bool :=
  synthBlock def_ && (List.range def_.handlers.length).any (carriesTracks def_)

def blockCount (def_ : StateDef) : ℕ :=
  u32 (u32 def_.handlers.length + if synthBlock def_ then 1 else 0)

def groupLambdas (def_ : StateDef) : ℕ := u32 (def_.tracks.map lambdaCount).sum

/-- The tracks that `fill_group` writes. -/
def carriedTracks (def_ : StateDef) : List TrackInfo :=
  if trackCount def_ = 0 then [] else def_.tracks

variable (lookupLambda : String → ℤ) (frame : FrameTrigger → Word) (typeName : String)

/-- The part of `fill_group` that writes the tracks of a state, from an index in the group and a
position among the lambdas on. SRCLINE: FileNode.cpp:617-631 -/
def trackRecords (lambdasOffset : ℕ) : ℕ → ℕ → List TrackInfo → List TrackRecord
  | _, _, [] => []
  | ti, li, tr :: trs =>
    { trackId := stringId tr.name
      trackIdx := u16 ti
      totalLambdaCount := i16 (lambdaCount tr)
      ssLambda := if lambdaCount tr > 0 then lambdasOffset + li * 0x10 else 0 } ::
      trackRecords lambdasOffset (ti + 1) (li + lambdaCount tr) trs

/-- The part that writes the lambdas of a track: a main lambda, if the track has a body, and one for
each frame trigger. SRCLINE: FileNode.cpp:633-646 -/
def lambdaRecords (def_ : StateDef) (tr : TrackInfo) : List LambdaRecord :=
  (if tr.body.isEmpty then []
    else [⟨lookupLambda (trackMainName typeName def_.name tr), FRAME_SENTINEL_MAIN⟩]) ++
  tr.frames.zipIdx.map fun (ft, i) =>
    ⟨lookupLambda (trackFrameName typeName def_.name tr i), frame ft⟩

/-- The group of a state's tracks, from a position among the tracks on.
SRCLINE: FileNode.cpp:593-615 -/
def trackGroup (tracksOffset cursor : ℕ) (def_ : StateDef) : TrackGroup :=
  if trackCount def_ = 0 then ⟨0, 0, 0⟩
  else ⟨u16 (groupLambdas def_), i16 def_.tracks.length, tracksOffset + cursor * 0x18⟩

/-- The blocks of a state. SRCLINE: FileNode.cpp:650-683 -/
def blockRecords (tracksOffset cursor : ℕ) (def_ : StateDef) : List OnBlockRecord :=
  def_.handlers.mapIdx (fun i h =>
    { blockType := handlerKindToBlockType h.kind
      blockEventId := if h.kind = .EVENT then stringId h.eventId else 0
      scriptLambda := lookupLambda (handlerName stateHandlerToString typeName def_.name h)
      trackGroup :=
        if carriesTracks def_ i then trackGroup tracksOffset cursor def_ else ⟨0, 0, 0⟩ }) ++
  if synthBlock def_ then [⟨.Enter, 0, 0, trackGroup tracksOffset cursor def_⟩] else []

/-- The state table, from a position among the blocks on.
SRCLINE: FileNode.cpp:543-578 -/
def stateTable (blocksOffset : ℕ) : ℕ → List StateDef → List StateRecord
  | _, [] => []
  | cursor, def_ :: states =>
    ⟨stringId def_.name, blockCount def_, blocksOffset + cursor * 0x50⟩ ::
      stateTable blocksOffset (cursor + blockCount def_) states

/-- The blocks of all states, from a position among the tracks on. -/
def blockTable (tracksOffset : ℕ) : ℕ → List StateDef → List OnBlockRecord
  | _, [] => []
  | cursor, def_ :: states =>
    blockRecords lookupLambda typeName tracksOffset cursor def_ ++
      blockTable tracksOffset (cursor + (carriedTracks def_).length) states

/-- The tracks of all states, from a position among the lambdas on. -/
def trackTable (lambdasOffset : ℕ) : ℕ → List StateDef → List TrackRecord
  | _, [] => []
  | cursor, def_ :: states =>
    trackRecords lambdasOffset 0 cursor (carriedTracks def_) ++
      trackTable lambdasOffset
        (cursor + if trackCount def_ = 0 then 0 else groupLambdas def_) states

def lambdaTable (states : List StateDef) : List LambdaRecord :=
  states.flatMap fun def_ =>
    (carriedTracks def_).flatMap (lambdaRecords lookupLambda frame typeName def_)

/-- A vector of a size, after its first elements have been written; one too many is undefined. -/
def fillVector {α : Type} (size : ℕ) (default : α) (written : List α) :
    Except TypeFault (List α) :=
  if written.length ≤ size then .ok (written ++ List.replicate (size - written.length) default)
  else .error .undefined

/-- The ids of the options, except for the initial state.
SRCLINE: FileNode.cpp:483-496 -/
def optionSids (options : List (String × String)) : List Word :=
  (options.filter (·.1 ≠ "initial")).flatMap fun (k, v) => [stringId k, stringId v]

/-- The id of the initial state, or zero. SRCLINE: FileNode.cpp:488-489, 689-690 -/
def initialStateId (options : List (String × String)) : Word :=
  let initial := (options.lookup "initial").getD ""
  if initial = "" then 0 else stringId initial

/-- `build_state_script` for the states that are used.
SRCLINE: FileNode.cpp:462-749 -/
def scriptElement (options : List (String × String)) (states : List StateDef) :
    Except TypeFault ScriptElement := do
  let numBlocks := u32 (states.map blockCount).sum
  let numTracks := u32 (states.map trackCount).sum
  let numLambdas := u32 (states.map fun def_ => (def_.tracks.map lambdaCount).sum).sum
  let sids := optionSids options
  let optionsOffset := 0x50
  let symarrayOffset := optionsOffset + 0x50
  let optionsDataOffset := symarrayOffset + 0x10
  let statesOffset := optionsDataOffset + sids.length * 8
  let blocksOffset := statesOffset + states.length * 0x18
  let tracksOffset := blocksOffset + numBlocks * 0x50
  let lambdasOffset := tracksOffset + numTracks * 0x18
  if states.any carriedTwice then throw .undefined
  let ssBlocks ← fillVector numBlocks ⟨.Enter, 0, 0, ⟨0, 0, 0⟩⟩
    (blockTable lookupLambda typeName tracksOffset 0 states)
  let ssTracks ← fillVector numTracks ⟨0, 0, 0, 0⟩ (trackTable lambdasOffset 0 states)
  let ssLambdas ← fillVector numLambdas ⟨0, 0⟩ (lambdaTable lookupLambda frame typeName states)
  let header : StateScriptRecord := {
    stateScriptId := stringId typeName
    initialStateId := initialStateId options
    ssOptions := optionsOffset
    ssStateTable := if states.isEmpty then 0 else statesOffset
    stateCount := i16 states.length }
  return {
    payloadSize := lambdasOffset + numLambdas * 0x10
    records := [.stateScript header, .options ⟨symarrayOffset, 5⟩,
        .symbolArray ⟨u32 sids.length, if sids.isEmpty then 0 else optionsDataOffset⟩] ++
      sids.map .sid ++ (stateTable blocksOffset 0 states).map .state ++ ssBlocks.map .onBlock ++
      ssTracks.map .track ++ ssLambdas.map .lambda }

/-- `build_state_script`. SRCLINE: FileNode.cpp:388-439 -/
def buildStateScript (ts : TypeSystem) (options : List (String × String)) :
    Except TypeFault ScriptElement :=
  match ts.lookupTypeNoThrow typeName with
  | none => .ok .empty
  | some t =>
    if t.fields.isNone then .ok .empty
    else scriptElement lookupLambda frame typeName options ((usedStates t.stateDefs).map Prod.fst)

end Script

/-! ## Looking a block up -/

def testBlock (test : OnBlockRecord → Bool) : Option ScriptRecord → Bool
  | some (.onBlock b) => test b
  | _ => false

/-- `SsState::lookup`: the first block for which the test holds.
SRCLINE: DCScript.hpp:430-445 -/
def lookupBlock (el : ScriptElement) (s : StateRecord) (test : OnBlockRecord → Bool) : Option ℕ :=
  ((List.range s.numSsOnBlocks).find? fun i =>
    testBlock test (el.recordAt (s.ssOnBlocks + i * 0x50))).map fun i => s.ssOnBlocks + i * 0x50

/-- `lookup` by type, and by type and event. -/
def StateRecord.lookup (s : StateRecord) (el : ScriptElement) (type : BlockType) : Option ℕ :=
  lookupBlock el s (·.blockType = type)

@[inherit_doc StateRecord.lookup]
def StateRecord.lookupEvent (s : StateRecord) (el : ScriptElement) (type : BlockType)
    (eventId : Word) : Option ℕ :=
  lookupBlock el s fun b => b.blockType = type && b.blockEventId = eventId

end Soot.Program
