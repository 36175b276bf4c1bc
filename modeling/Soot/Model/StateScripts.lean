import Soot.Program.ScriptElements

/-!
# State scripts, linked and loaded

The records of the scripts of a file and the elements that a process reads from them.
-/

set_option autoImplicit false

namespace Soot.Model

open Soot.Computation Soot.Program

/-!
## What a linked state script is

Every handler block and every track lambda of a state script points to the function that was
compiled from its own body, and to nothing when it has none; and what the names of a file have
to satisfy for that.
-/

/-! ### The bodies of a type, by place -/

/-- A place for a body: the name its function is compiled under, the name the builder looks up,
and whether there is a body. -/
structure ScriptSlot where
  compiledName : String
  lookupName : String
  hasBody : Bool

def slotIn (typeName : String) (def_ : StateDef) : BodySlot → Option ScriptSlot
  | .handler i => def_.handlers[i]?.map fun h =>
    ⟨handlerName handlerKindName typeName def_.name h,
      handlerName stateHandlerToString typeName def_.name h, !h.bodyAst.isNull⟩
  | .trackMain t => (def_.tracks[t]?.filter fun tr => !tr.body.isEmpty).map fun tr =>
    ⟨trackMainName typeName def_.name tr, trackMainName typeName def_.name tr, true⟩
  | .trackFrame t i => (def_.tracks[t]?.filter fun tr => i < tr.frames.length).map fun tr =>
    ⟨trackFrameName typeName def_.name tr i, trackFrameName typeName def_.name tr i, true⟩

def slotAt (defs : List StateDef) (src : BodySource) : Option ScriptSlot :=
  defs[src.state]?.bind fun def_ => slotIn src.typeName def_ src.slot

/-! ### Linked scripts -/

/-- The pointer is the offset of a function compiled from the body. -/
def PointsTo (elements : List (ProgramBinaryElement × ℕ)) (src : BodySource) (p : ℤ) : Prop :=
  ∃ el offset, (el, offset) ∈ elements ∧ el.source = some src ∧ p = offset

def trackSources (typeName : String) (k t : ℕ) (tr : TrackInfo) : List BodySource :=
  (if tr.body.isEmpty then [] else [⟨typeName, k, .trackMain t⟩]) ++
    tr.frames.zipIdx.map fun (_, i) => ⟨typeName, k, .trackFrame t i⟩

/-- A state in the binary against its definition: block by block for the handlers, lambda by
lambda for the tracks, which one block carries. -/
structure StateLinked (elements : List (ProgramBinaryElement × ℕ)) (typeName : String)
    (def_ : StateDef) (k : ℕ) (s : SsState) : Prop where
  handlers : ∀ (i : ℕ) (h : StateHandlerBody), def_.handlers[i]? = some h →
    ∃ b : SsOnBlock, s.onBlocks[i]? = some b ∧
    if h.bodyAst.isNull then b.scriptLambda = 0
    else PointsTo elements ⟨typeName, k, .handler i⟩ b.scriptLambda
  others : ∀ b ∈ s.onBlocks.drop def_.handlers.length, b.scriptLambda = 0
  carried : def_.tracks ≠ [] → ∃ b ∈ s.onBlocks, b.trackGroup ≠ []
  tracks : ∀ b ∈ s.onBlocks, b.trackGroup ≠ [] →
    List.Forall₂ (fun (tr : TrackInfo × ℕ) (track : SsTrack) =>
      List.Forall₂ (fun src (l : SsLambda) => PointsTo elements src l.scriptLambda)
        (trackSources typeName k tr.2 tr.1) track.lambdas) def_.tracks.zipIdx b.trackGroup

/-- Every pointer of every state script of the binary is the function of its own body, or null
where there is no body. -/
def HandlersLinked (types : TypeSystem) (linked : LinkedFile) : Prop :=
  ∀ script ∈ linked.scripts, ∃ t, types.lookupTypeNoThrow script.1 = some t ∧
    List.Forall₂ (fun (d : StateDef × ℕ) s => StateLinked linked.elements script.1 d.1 d.2 s)
      (usedStates t.stateDefs) script.2

/-! ### Names that can be told apart -/

def tableName (getString : Word → String) (name : String) : String := getString (stringId name)

/-- A body is found under its name: it is looked up under the name it was compiled with, and
any other element that carries this name comes before its function. A place without a body
shares its name with no element. -/
def SlotClear (getString : Word → String) (elements : List ProgramBinaryElement)
    (src : BodySource) (slot : ScriptSlot) : Prop :=
  if slot.hasBody then
    tableName getString slot.compiledName = slot.lookupName ∧
      ∀ (j : ℕ) (e : ProgramBinaryElement), elements[j]? = some e →
        tableName getString e.name = slot.lookupName → e.source ≠ some src →
        ∃ (i : ℕ) (own : ProgramBinaryElement), j < i ∧ elements[i]? = some own ∧
          own.source = some src
  else ∀ e ∈ elements, tableName getString e.name ≠ slot.lookupName

/-- The names of a file with state scripts are clear at every place of every script. -/
def Unambiguous (host : ScriptHost) (file : ScriptFile)
    (elements : List ProgramBinaryElement) : Prop :=
  ∀ typeName ∈ file.scripts, ∀ t, host.types.lookupTypeNoThrow typeName = some t →
    t.fields.isSome → ∀ src slot, src.typeName = typeName →
      slotAt t.stateDefs src = some slot → SlotClear host.getString elements src slot

/-!
## Consistent records

The records of an element account for each other when each but the first is named by exactly one
offset and count. A state script is consistent when, beyond that, following the offsets and counts
gives back the states as they were declared, and every declared handler is found by looking it up.
-/

/-! ### What records name -/

/-- The spans that a record names: where its pointers point to, and how many records it says are
there. -/
def spans : ScriptRecord → List (Span RecordKind)
  | .stateScript r => [⟨r.ssOptions, 1, .options⟩, ⟨r.ssStateTable, r.stateCount.toNat, .state⟩]
  | .options r => [⟨r.symbolArray, 1, .symbolArray⟩]
  | .symbolArray r => [⟨r.symbols, r.numEntries, .sid⟩]
  | .state r => [⟨r.ssOnBlocks, r.numSsOnBlocks, .onBlock⟩]
  | .onBlock r => [⟨r.trackGroup.aTracks, r.trackGroup.numTracks.toNat, .track⟩]
  | .track r => [⟨r.ssLambda, r.totalLambdaCount.toNat, .lambda⟩]
  | .type r => [⟨r.fields, r.numFields, .field⟩, ⟨r.methods, r.numMethods, .method⟩]
  | .sid _ | .lambda _ | .field _ | .method _ => []

def namedPlaces (records : List ScriptRecord) : List (ℕ × RecordKind) :=
  records.flatMap fun r => (spans r).flatMap (Span.slots RecordKind.size)

/-- The payload has the size it was made with, and every record but the first is named once. -/
structure RecordsAccounted (el : ScriptElement) : Prop where
  payload : el.payloadSize = el.size
  named : (namedPlaces el.records).Perm
    (recordPlaces ScriptRecord.kind RecordKind.size 0 el.records).tail

def recordCount (el : ScriptElement) (k : RecordKind) : ℕ := el.records.countP (·.kind = k)

/-! ### Following the offsets -/

section Reading

variable (load : ℤ → Option Lambda) (el : ScriptElement)

def readLambda : ScriptRecord → Option TrackLambda
  | .lambda r => some ⟨load r.scriptLambda, r.frameNumber⟩
  | _ => none

def readTrack : ScriptRecord → Option TrackData
  | .track r => do
    let lambdas ← readTable el.recordAt (readLambda load) 0x10 r.ssLambda r.totalLambdaCount.toNat
    return ⟨r.trackId, lambdas⟩
  | _ => none

/-- A block is read if its group has as many lambdas as it says. -/
def readBlock : ScriptRecord → Option OnBlock
  | .onBlock r => do
    let tracks ← readTable el.recordAt (readTrack load el) 0x18 r.trackGroup.aTracks
      r.trackGroup.numTracks.toNat
    if r.trackGroup.totalLambdaCount = (tracks.map (·.lambdas.length)).sum then
      return ⟨r.blockType, r.blockEventId, load r.scriptLambda, tracks⟩
    else none
  | _ => none

def readState : ScriptRecord → Option ScriptState
  | .state r => do
    let blocks ← readTable el.recordAt (readBlock load el) 0x50 r.ssOnBlocks r.numSsOnBlocks
    return ⟨r.stateId, blocks⟩
  | _ => none

def stateRecord : ScriptRecord → Option StateRecord
  | .state r => some r
  | _ => none

def readStates : Option (List ScriptState) :=
  match el.recordAt 0 with
  | some (.stateScript r) =>
    readTable el.recordAt (readState load el) 0x18 r.ssStateTable r.stateCount.toNat
  | _ => none

end Reading

/-! ### Declarations -/

def declaredLambdas (tr : TrackInfo) : ℕ := (if tr.body.isEmpty then 0 else 1) + tr.frames.length

/-- The blocks of a state: those of its handlers, and one more for tracks if all handlers are for
events. -/
def declaredBlocks (def_ : StateDef) : ℕ :=
  def_.handlers.length +
    if !def_.tracks.isEmpty && def_.handlers.all (·.kind = .EVENT) then 1 else 0

section Declared

variable (load : ℤ → Option Lambda) (lookupLambda : String → ℤ) (frame : FrameTrigger → Word)
  (typeName : String)

def declaredHandler (def_ : StateDef) (h : StateHandlerBody) : BlockType × Word × Option Lambda :=
  (handlerKindToBlockType h.kind, if h.kind = .EVENT then stringId h.eventId else 0,
    load (lookupLambda (handlerName stateHandlerToString typeName def_.name h)))

def declaredTrack (def_ : StateDef) (tr : TrackInfo) : TrackData :=
  ⟨stringId tr.name, (lambdaRecords lookupLambda frame typeName def_ tr).map fun l =>
    ⟨load l.scriptLambda, l.frameNumber⟩⟩

/-- A state as it was declared: a block for each handler, in order, each track once, and at most one
block more. -/
structure StateAsDeclared (def_ : StateDef) (s : ScriptState) : Prop where
  stateId : s.stateId = stringId def_.name
  handlers : (s.onBlocks.take def_.handlers.length).map
    (fun b => (b.blockType, b.blockEventId, b.scriptLambda)) =
      def_.handlers.map (declaredHandler load lookupLambda typeName def_)
  tracks : s.onBlocks.flatMap (·.trackGroup) =
    def_.tracks.map (declaredTrack load lookupLambda frame typeName def_)
  length : s.onBlocks.length = declaredBlocks def_

end Declared

def lookupHandler (el : ScriptElement) (s : StateRecord) (h : StateHandlerBody) : Option ℕ :=
  if h.kind = .EVENT then s.lookupEvent el .Event (stringId h.eventId)
  else s.lookup el (handlerKindToBlockType h.kind)

/-- The first block that is found for each handler of a state is its own. -/
def HandlersFound (el : ScriptElement) (s : StateRecord) (handlers : List StateHandlerBody) :
    Prop :=
  ∀ (i : ℕ) (h : StateHandlerBody), handlers[i]? = some h → lookupHandler el s h = some
    (s.ssOnBlocks + i * 0x50)

/-! ### Consistency -/

structure ScriptConsistent (load : ℤ → Option Lambda) (lookupLambda : String → ℤ)
    (frame : FrameTrigger → Word) (typeName : String) (states : List StateDef)
    (el : ScriptElement) : Prop where
  accounted : RecordsAccounted el
  tracks : recordCount el .track = (states.map (·.tracks.length)).sum
  lambdas : recordCount el .lambda =
    (states.map fun def_ => (def_.tracks.map declaredLambdas).sum).sum
  totals : (el.records.map fun
      | .onBlock b => b.trackGroup.totalLambdaCount
      | _ => 0).sum = recordCount el .lambda
  read : ∃ read, readStates load el = some read ∧
    List.Forall₂ (StateAsDeclared load lookupLambda frame typeName) states read
  found : ∃ header table, el.recordAt 0 = some (.stateScript header) ∧
    readTable el.recordAt stateRecord 0x18 header.ssStateTable header.stateCount.toNat =
      some table ∧
    List.Forall₂ (fun def_ s => HandlersFound el s def_.handlers) states table

/-- The type of a script's variables that is consistent: the records of its fields and methods are
where it says. -/
structure VarsConsistent (fields : List Field) (numMethods : ℕ)
    (methodAt : ℕ → Except TypeFault MethodRecord) (el : ScriptElement) : Prop where
  accounted : RecordsAccounted el
  complete : recordCount el .field = fields.length
  read : ∃ header, el.recordAt 0 = some (.type header) ∧
    (∀ (i : ℕ) (f : Field), fields[i]? = some f →
      ∃ r, el.recordAt (header.fields + i * 0x28) = some (.field r) ∧ r.name = stringId f.name) ∧
    ∀ id < numMethods, ∃ r, el.recordAt (header.methods + id * 0x18) = some (.method r) ∧
      methodAt id = .ok r

/-! ### When they are -/

/-- Looking up one of the handlers would find a block of the other. -/
def SameHandler (h h' : StateHandlerBody) : Prop :=
  h.kind = h'.kind ∧ (h.kind = .EVENT → stringId h.eventId = stringId h'.eventId)

/-- The condition on a state: its counts fit their members, its tracks have a block, and no two
handlers are the same to a lookup. -/
structure StateFits (def_ : StateDef) : Prop where
  tracks : def_.tracks.length < 2 ^ 15
  trackLambdas : ∀ tr ∈ def_.tracks, declaredLambdas tr < 2 ^ 15
  groupLambdas : (def_.tracks.map declaredLambdas).sum < 2 ^ 16
  carrier : def_.tracks ≠ [] → ∀ i, def_.handlers.findIdx? (·.kind ≠ .EVENT) = some i → i < 2 ^ 31
  handlers : def_.handlers.Pairwise fun h h' => ¬ SameHandler h h'

structure ScriptFits (fields : List Field) (numMethods : ℕ) (options : List (String × String))
    (states : List StateDef) : Prop where
  methods : numMethods ≤ 1
  fields : fields.length < 2 ^ 32
  sids : (optionSids options).length < 2 ^ 32
  count : states.length < 2 ^ 15
  blocks : (states.map declaredBlocks).sum < 2 ^ 32
  each : ∀ def_ ∈ states, StateFits def_

end Soot.Model
