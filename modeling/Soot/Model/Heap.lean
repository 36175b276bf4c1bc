import Soot.Computation.Marking
import Soot.Program.Containers
import Soot.Program.HeapTypes

/-!
# The heap and its mutator

What the arenas hold, what a collection keeps, what the steps of a program do to the heap and the
types it is told of.
-/

set_option autoImplicit false

namespace Soot.Model

open Soot.Computation Soot.Program

/-!
## What the heap keeps

The representation of the heap: each arena lies at its place in the region, its free list is a
chain through the first words of its free blocks, and the first word of an allocated block is
the header of a live object. A mutator and a collector take turns on it, in any order.
-/

section Allocation

def Chain (m : HeapWords) : ℕ → List ℕ → Prop
  | head, [] => head = 0
  | head, block :: rest =>
    head = block ∧ block ≠ 0 ∧ ∃ next, m block = .link next ∧ Chain m next rest

def LiveHeader (word : HeapWord) : Prop :=
  ∃ header, word = .header header ∧ header.dead = false ∧ header.passCycle < 16

/-- An arena of blocks of a size at an address: so many blocks were used, and these of them are
free now. -/
structure ArenaHolds (m : HeapWords) (start size : ℕ) (a : Arena) (bumped : ℕ) (free : List ℕ) :
    Prop where
  dataBegin : a.dataBegin = start
  dataEnd : a.dataEnd = start + a.capacity * size
  blockSize : a.blockSize = size
  bitmap : a.bitmap.length = a.capacity
  bump : a.bump = start + bumped * size
  bumped_le : bumped ≤ a.capacity
  allocated_lt : ∀ j, a.isAllocated j = true → j < bumped
  nodup : free.Nodup
  chain : Chain m a.freeHead (free.map fun j => start + j * size)
  mem_free : ∀ j, j ∈ free ↔ j < bumped ∧ a.isAllocated j = false
  freeCount : a.freeCount = free.length
  used : a.used = a.bitmap.count true
  live : ∀ j, a.isAllocated j = true → LiveHeader (m (start + j * size))

/-- SRCLINE: ArenaManager.hpp:22-24 -/
def classSize (index : ℕ) : ℕ := sizeClasses.getD index 0

def arenaStart (s : ArenaManager) (i : ℕ) : ℕ := s.regionStart + i * ArenaManager.arenaSize

def ArenaAt (s : ArenaManager) (m : HeapWords) (i : ℕ) (entry : ℕ × Arena) : Prop :=
  entry.1 < sizeClasses.length ∧
    entry.2.capacity * classSize entry.1 = ArenaManager.arenaSize ∧
    ∃ bumped free, ArenaHolds m (arenaStart s i) (classSize entry.1) entry.2 bumped free

structure HeapHolds (s : ArenaManager) (m : HeapWords) : Prop where
  aligned : s.regionStart % 4096 = 0
  placed : s.regionStart = 0 → s.regionEnd = 0
  bump : s.bump = arenaStart s s.arenas.length
  fits : s.bump ≤ s.regionEnd
  arenas : ∀ (i : ℕ) (entry : ℕ × Arena), s.arenas[i]? = some entry → ArenaAt s m i entry

def Reserved (start size : ℕ) : Prop := start % 4096 = 0 ∧ (start = 0 → size = 0)

def LiveBlock (s : ArenaManager) (block : ℕ) : Prop :=
  ∃ (i : ℕ) (entry : ℕ × Arena) (j : ℕ), s.arenas[i]? = some entry ∧
    entry.2.isAllocated j = true ∧
    block = entry.2.block j

/-- All blocks of the last arena of a class are allocated, if there is one. -/
def LastFull (s : ArenaManager) (index : ℕ) : Prop :=
  ∀ (i : ℕ) (entry : ℕ × Arena), s.lastOfClass index = some i → s.arenas[i]? = some entry →
    ∀ j < entry.2.capacity, entry.2.isAllocated j = true

/-- What the allocator promises: live blocks are apart, aligned and inside their arenas, and each
arena knows its free blocks, of those it has used, and how many it has handed out. -/
structure AllocatorSound (s : ArenaManager) (m : HeapWords) : Prop where
  disjoint : ∀ (i i' j j' : ℕ) (entry entry' : ℕ × Arena), s.arenas[i]? = some entry →
    s.arenas[i']? = some entry' → entry.2.isAllocated j = true → entry'.2.isAllocated j' = true →
    (i, j) ≠ (i', j') →
    entry.2.block j + entry.2.blockSize ≤ entry'.2.block j' ∨
      entry'.2.block j' + entry'.2.blockSize ≤ entry.2.block j
  aligned : ∀ block, LiveBlock s block → block % 16 = 0
  inside : ∀ (i j : ℕ) (entry : ℕ × Arena), s.arenas[i]? = some entry →
    entry.2.isAllocated j = true → entry.2.dataBegin ≤ entry.2.block j ∧
      entry.2.block j + entry.2.blockSize ≤ entry.2.dataEnd
  free : ∀ (i : ℕ) (entry : ℕ × Arena), s.arenas[i]? = some entry →
    ∃ blocks, Chain m entry.2.freeHead blocks ∧ blocks.Nodup ∧
      ∀ block, block ∈ blocks ↔
        ∃ j, block = entry.2.block j ∧ block < entry.2.bump ∧ entry.2.isAllocated j = false
  count : ∀ (i : ℕ) (entry : ℕ × Arena), s.arenas[i]? = some entry →
    entry.2.used = (List.range entry.2.capacity).countP entry.2.isAllocated

def HasFreeBlock (s : ArenaManager) (index : ℕ) : Prop :=
  ∃ (i : ℕ) (entry : ℕ × Arena) (j : ℕ), s.arenas[i]? = some entry ∧ entry.1 = index ∧
    j < entry.2.capacity ∧ entry.2.isAllocated j = false

/-- An arena that is not the last of its class has a free block: `allocate` does not look for it. -/
def HasEarlierFree (s : ArenaManager) (index : ℕ) : Prop :=
  ∃ (i : ℕ) (entry : ℕ × Arena) (j : ℕ), s.lastOfClass index ≠ some i ∧ s.arenas[i]? = some entry ∧
    entry.1 = index ∧ j < entry.2.capacity ∧ entry.2.isAllocated j = false

variable {κ : Type} (types : TypeRegistry κ)

def Live (s : Collector κ) (payload : ℕ) : Prop :=
  ∃ block, LiveBlock s.arenas block ∧ payload = Collector.payloadOf block

/-- What holds of a collector: its heap does, and its pass has a number that headers can hold. -/
structure CollectorHolds (s : Collector κ) : Prop where
  heap : HeapHolds s.arenas s.words
  pass : s.currentPass < 16

/-- `mark_object` as a traversal. -/
def tracing : Traversal (Collector κ) ℕ :=
  { skips := Collector.skips, enter := Collector.setMarked, next := Collector.visits types }

inductive HeapRequest (κ : Type) where
  | alloc (sid size : ℕ)
  | release (payload : ℕ)
  | store (contents : κ)
  | startPass
  | mark (payload : ℕ)
  | sweep (budget : Int)
  | finishPass

inductive HeapStep : Collector κ → HeapRequest κ → Collector κ → Prop where
  | alloc {s s' : Collector κ} {sid size payload : ℕ} :
      s.alloc types sid size = some (s', payload) → HeapStep s (.alloc sid size) s'
  | release {s : Collector κ} {payload : ℕ} : HeapStep s (.release payload) (s.release payload)
  | store {s : Collector κ} {contents : κ} : HeapStep s (.store contents) { s with contents }
  | startPass {s : Collector κ} : HeapStep s .startPass s.startPass
  | mark {s s' : Collector κ} {payload depth : ℕ} :
      s.markObject types depth payload = some s' → HeapStep s (.mark payload) s'
  | sweep {s : Collector κ} {budget : Int} : HeapStep s (.sweep budget) (s.sweepPass types budget).1
  | finishPass {s : Collector κ} : HeapStep s .finishPass s.finishPass

def Owned (s : Collector κ) (payload : ℕ) : Prop :=
  payload = 0 ∨ s.arenas.owns payload = false ∨ Live s payload ∨
    (s.words (Collector.headerOf payload)).asHeader.dead = true

/-- What is released is null, outside the region, live, or still has the flag of a release; and what
is marked leads to live objects only. -/
def Permitted (s : Collector κ) : HeapRequest κ → Prop
  | .release payload => Owned s payload
  | .mark payload => ∀ last, (tracing types).Fresh s payload last → Live s last
  | _ => True

inductive HeapRun : Collector κ → List (HeapRequest κ) → Collector κ → Prop where
  | nil {s : Collector κ} : HeapRun s [] s
  | cons {s s' s'' : Collector κ} {request : HeapRequest κ} {rest : List (HeapRequest κ)} :
      Permitted types s request → HeapStep types s request s' → HeapRun s' rest s'' →
      HeapRun s (request :: rest) s''

end Allocation

/-!
## What a pass is for

A pass marks what its roots lead to and sweeps until it is done; what is left should be what
the roots lead to, and everything else should have been destroyed once. Headers hold the number
of the last pass that marked the object, in four bits, so an object can have the number of a new
pass before it is marked.
-/

section Collection

variable {κ : Type} (types : TypeRegistry κ)

/-- The number of the pass that last marked an object, or it was allocated in. -/
def storedCycle (s : Collector κ) (payload : ℕ) : ℕ :=
  (s.words (Collector.headerOf payload)).asHeader.passCycle

def Destroys (s : Collector κ) (payload : ℕ) : Prop :=
  ((types.findByIndex (s.words (Collector.headerOf payload)).asHeader.typeIndex).map
    TypeDescriptor.hasDestroy).getD false = true

def InHeap (s : Collector κ) (payload : ℕ) : Prop := payload ≠ 0 ∧ s.arenas.owns payload = true

/-- What roots lead to through the mark delegates, along objects of a kind. -/
inductive Reach (s : Collector κ) (along : ℕ → Prop) (roots : List ℕ) : ℕ → Prop where
  | root {payload : ℕ} : payload ∈ roots → InHeap s payload → along payload →
      Reach s along roots payload
  | step {payload target : ℕ} : Reach s along roots payload → target ∈ s.visits types payload →
      InHeap s target → along target → Reach s along roots target

def Reachable (s : Collector κ) (roots : List ℕ) (payload : ℕ) : Prop :=
  Reach types s (fun _ => True) roots payload

/-- `mark_object` on each of the roots. -/
def markRoots (depth : ℕ) (s : Collector κ) (roots : List ℕ) : Option (Collector κ) :=
  roots.foldlM (fun s root => s.markObject types depth root) s

/-- A sweep in steps of some budgets, of which the last is done. -/
inductive SweepsDone : Collector κ → List Int → Collector κ → Prop where
  | last {s s' : Collector κ} {budget : Int} : s.sweepPass types budget = (s', true) →
      SweepsDone s [budget] s'
  | next {s s' s'' : Collector κ} {budget : Int} {rest : List Int} :
      s.sweepPass types budget = (s', false) → SweepsDone s' rest s'' →
      SweepsDone s (budget :: rest) s''

/-- The pass left what its roots lead to, and destroyed everything else once. -/
def Exact (s : Collector κ) (roots : List ℕ) (swept : Collector κ) : Prop :=
  (∀ payload, Live swept payload ↔ Reachable types s roots payload) ∧
    ∃ destroyed, swept.destroyed = destroyed ++ s.destroyed ∧ destroyed.Nodup ∧
      ∀ payload, payload ∈ destroyed ↔
        Live s payload ∧ ¬ Reachable types s roots payload ∧ Destroys types s payload

/-- An object has the number of the pass that is about to start. -/
def Stale (s : Collector κ) (payload : ℕ) : Prop :=
  storedCycle s payload = Collector.nextCycle s.currentPass

/-- What has the number of the pass that is about to start is reachable, and hides nothing: all
that the roots lead to has it too or is reached past the objects that have it. -/
def NothingMistaken (s : Collector κ) (roots : List ℕ) : Prop :=
  (∀ payload, Live s payload → Stale s payload → Reachable types s roots payload) ∧
    ∀ payload, Reachable types s roots payload → ¬ Stale s payload →
      Reach types s (fun other => ¬ Stale s other) roots payload

end Collection

/-!
## The mutator and what it can reach

The mutator keeps values in registers and globals and stores them in objects, maps and arrays;
what it can reach are the objects these lead to, with the buffers of the maps and arrays. The
collector runs in between, and may only take what cannot be reached.
-/

section Mutation

structure Mutator where
  heap : CellHeap
  roots : ℕ → Variant

def Holds (c : Cells) (payload target : ℕ) : Prop :=
  match c payload with
  | .object fields => ∃ i, (fields i).address = target
  | .map m => target = m.keys ∨ target = m.values ∨
      ∃ i < m.size, (c.valueAt m.values i).address = target
  | .array a => target = a.data ∨ ∃ i < a.size, c.elementAt a.data i = target
  | _ => False

inductive Reached (s : Mutator) : ℕ → Prop where
  | root (slot : ℕ) : InHeap s.heap (s.roots slot).address → Reached s (s.roots slot).address
  | step {payload target : ℕ} : Reached s payload → Holds s.heap.contents payload target →
      InHeap s.heap target → Reached s target

def Marked (h : CellHeap) (payload : ℕ) : Prop := storedCycle h payload = h.currentPass

/-- A value that was read: no pointer into the heap, or one the mutator can reach. -/
def Has (s : Mutator) (value : Variant) : Prop :=
  InHeap s.heap value.address → Reached s value.address

/-- A value that an operation is applied to: it is in a register. -/
def InRegister (s : Mutator) (value : Variant) : Prop := ∃ slot, s.roots slot = value

variable (host : HeapHost) (fpu : FloatUnit)

/-- A block holds a pointer that its type's mark delegate does not visit. -/
def Untraced (h : CellHeap) (payload target : ℕ) : Prop :=
  Holds h.contents payload target ∧ target ∉ h.visits (runtimeTypes host) payload

/-- A block's type has a mark delegate that visits what is no pointer of the block. -/
def Misread (h : CellHeap) (payload target : ℕ) : Prop :=
  target ∈ h.visits (runtimeTypes host) payload ∧ ¬ Holds h.contents payload target

inductive Action where
  | allocate (slot sid size : ℕ)
  | makeMap (slot : ℕ)
  | makeArray (slot : ℕ) (kind : CellHeap.ArrayKind)
  | setRoot (slot : ℕ) (value : Variant)
  | setField (object field : ℕ) (value : Variant)
  | mapSet (map : Variant) (key : Word) (value : Variant)
  | push (array value : Variant)
  | release (payload : ℕ)
  | startPass
  | mark (slot : ℕ)
  | sweep (budget : Int)
  | finishPass

def Mutator.setRoot (s : Mutator) (heap : CellHeap) (slot : ℕ) (value : Variant) : Mutator :=
  ⟨heap, fun other => if other = slot then value else s.roots other⟩

inductive ActionStep : Mutator → Action → Mutator → Prop where
  | allocate {s : Mutator} {slot sid size payload : ℕ} {heap : CellHeap} :
      CellHeap.allocObject (runtimeTypes host) s.heap sid size = some (heap, payload) →
      ActionStep s (.allocate slot sid size) (s.setRoot heap slot (CellHeap.pointerTo payload))
  | makeMap {s : Mutator} {slot : ℕ} {value : Variant} {heap : CellHeap} :
      CellHeap.makeMap (runtimeTypes host) s.heap = some (heap, value) →
      ActionStep s (.makeMap slot) (s.setRoot heap slot value)
  | makeArray {s : Mutator} {slot : ℕ} {kind : CellHeap.ArrayKind} {value : Variant}
      {heap : CellHeap} : CellHeap.makeArray (runtimeTypes host) s.heap kind =
        some (heap, value) → ActionStep s (.makeArray slot kind) (s.setRoot heap slot value)
  | setRoot {s : Mutator} {slot : ℕ} {value : Variant} : Has s value →
      ActionStep s (.setRoot slot value) (s.setRoot s.heap slot value)
  | setField {s : Mutator} {object field : ℕ} {fields : ℕ → Variant} {value : Variant} :
      InHeap s.heap object → InRegister s (CellHeap.pointerTo object) → InRegister s value →
      s.heap.contents object = .object fields →
      ActionStep s (.setField object field value)
        ⟨CellHeap.setCell s.heap object
          (.object fun other => if other = field then value else fields other), s.roots⟩
  | mapSet {s : Mutator} {map value result : Variant} {key : Word} {heap : CellHeap} :
      InRegister s map → (map.address ≠ 0 → InHeap s.heap map.address) → InRegister s value →
      CellHeap.mapSet (runtimeTypes host) s.heap map key value = some (heap, result) →
      ActionStep s (.mapSet map key value) ⟨heap, s.roots⟩
  | push {s : Mutator} {array value : Variant} {heap : CellHeap}
      {result : Except VmErrorKind Variant} :
      InRegister s array → (array.address ≠ 0 → InHeap s.heap array.address) →
      InRegister s value →
      CellHeap.arrayPush (runtimeTypes host) fpu s.heap array value = some (heap, result) →
      ActionStep s (.push array value) ⟨heap, s.roots⟩
  | release {s : Mutator} {payload : ℕ} : Owned s.heap payload → ¬ Reached s payload →
      ActionStep s (.release payload) ⟨s.heap.release payload, s.roots⟩
  | startPass {s : Mutator} : ActionStep s .startPass ⟨s.heap.startPass, s.roots⟩
  | mark {s : Mutator} {slot depth : ℕ} {heap : CellHeap} :
      s.heap.markObject (runtimeTypes host) depth (s.roots slot).address = some heap →
      ActionStep s (.mark slot) ⟨heap, s.roots⟩
  | sweep {s : Mutator} {budget : Int} :
      ActionStep s (.sweep budget) ⟨(s.heap.sweepPass (runtimeTypes host) budget).1, s.roots⟩
  | finishPass {s : Mutator} : ActionStep s .finishPass ⟨s.heap.finishPass, s.roots⟩

/-- A value may be stored in an object: it does not hide an object without the number of the
pass in one that has it. -/
def MayStore (s : Mutator) (payload : ℕ) (value : Variant) : Prop :=
  Marked s.heap payload → InHeap s.heap value.address → Marked s.heap value.address

/-- The condition on a step. A value that is stored in an object with the number of the pass
has it too; no object has the number of a new pass, unless what it holds has it; an object that
a root leads to past the marked ones holds no unmarked pointer that its delegate does not
visit, and its delegate visits no unmarked object that it does not hold; and when a sweep runs all
roots are marked. -/
def Careful (s : Mutator) : Action → Prop
  | .setField object _ value => MayStore s object value
  | .mapSet map _ value => MayStore s map.address value
  | .push array value => MayStore s array.address value
  | .startPass => ∀ payload target, Reached s payload → Stale s.heap payload →
      Holds s.heap.contents payload target → InHeap s.heap target → Stale s.heap target
  | .mark slot => ∀ payload target,
      Reach (runtimeTypes host) s.heap (fun other => ¬ Marked s.heap other)
        [(s.roots slot).address] payload →
      Untraced host s.heap payload target ∨ Misread host s.heap payload target →
      InHeap s.heap target → Marked s.heap target
  | .sweep _ => ∀ slot, InHeap s.heap (s.roots slot).address →
      Marked s.heap (s.roots slot).address
  | _ => True

inductive ActionRun : Mutator → List Action → Mutator → Prop where
  | nil {s : Mutator} : ActionRun s [] s
  | cons {s s' s'' : Mutator} {action : Action} {rest : List Action} :
      ActionStep host fpu s action s' → ActionRun s' rest s'' →
      ActionRun s (action :: rest) s''

inductive CarefulRun : Mutator → List Action → Mutator → Prop where
  | nil {s : Mutator} : CarefulRun s [] s
  | cons {s s' s'' : Mutator} {action : Action} {rest : List Action} :
      Careful host s action → ActionStep host fpu s action s' → CarefulRun s' rest s'' →
      CarefulRun s (action :: rest) s''

/-- No file is loaded, and memory is zero. -/
def bareHost : HeapHost := ⟨[], fun _ _ => 0⟩

def Mutator.initial (start size : ℕ) : Mutator :=
  ⟨Collector.initial start size fun _ => .object fun _ => .null, fun _ => .null⟩

end Mutation

/-!
## Heap objects and their types

A run loads and unloads modules while loaded code allocates objects by the names of their types.
The registry of types keeps the first registration of a name, and the symbols lead to the last
one, so an object fits the type of its name only as long as the two agree.
-/

section HeapTypes

variable {κ : Type}

/-- An object that is allocated with a size has room for another. -/
def Room (registered size : ℕ) : Prop :=
  ∀ index, sizeClassFor (Collector.alignedTotal registered) = some index →
    Collector.headerSize + size ≤ classSize index

/-! ### Runs -/

/-- What the host and the loaded code do: modules come and go, objects are allocated by name, and
the collector does its work. -/
inductive TypedEvent (κ : Type) where
  | changed (event : ModuleEvent)
  | allocated (argv : List Variant)
  | collected (request : HeapRequest κ)

inductive TypedStep (clear : κ → ℕ → ℕ → κ) : TypedHeap κ → TypedEvent κ → TypedHeap κ → Prop where
  | changed {k : TypedHeap κ} {event : ModuleEvent} :
      TypedStep clear k (.changed event) (k.change event)
  | allocated {k t : TypedHeap κ} {argv : List Variant} {payload : ℕ} :
      k.allocateImpl clear argv = some (t, payload) → TypedStep clear k (.allocated argv) t
  | collected {k : TypedHeap κ} {request : HeapRequest κ} {heap : Collector κ} :
      HeapStep (k.types.registry clear) k.heap request heap →
      TypedStep clear k (.collected request) { k with heap }

def StepAllowed (clear : κ → ℕ → ℕ → κ) (k : TypedHeap κ) : TypedEvent κ → Prop
  | .changed _ | .allocated _ => True
  | .collected request => Permitted (k.types.registry clear) k.heap request

inductive TypedRun (clear : κ → ℕ → ℕ → κ) :
    TypedHeap κ → List (TypedEvent κ) → TypedHeap κ → Prop where
  | nil {k : TypedHeap κ} : TypedRun clear k [] k
  | cons {k t u : TypedHeap κ} {event : TypedEvent κ} {rest : List (TypedEvent κ)} :
      StepAllowed clear k event → TypedStep clear k event t → TypedRun clear t rest u →
      TypedRun clear k (event :: rest) u

/-- The types of the file that a change loads. -/
def typesLoaded (k : TypedHeap κ) : ModuleEvent → List SsTypeRecord
  | .loaded path _ file => if (k.carbon.byPath path).isSome then [] else file.typeRecords
  | .loadedBinary _ file => file.typeRecords
  | .unloaded _ | .ranTopLevel _ => []

/-- The types of the files that a run loads, in its order. -/
def typesDeclared : TypedHeap κ → List (TypedEvent κ) → List SsTypeRecord
  | _, [] => []
  | k, .changed event :: rest => typesLoaded k event ++ typesDeclared (k.change event) rest
  | k, _ :: rest => typesDeclared k rest

/-- The size that objects of a name are allocated with after a run: the one registered before it,
or else that of the first type of the name that it declares. -/
def firstSize (k : TypedHeap κ) (events : List (TypedEvent κ)) (name : Word) : Option ℕ :=
  ((k.types.find name).map (·.size)).or
    (((typesDeclared k events).find? (·.name = name)).map (·.size))

/-! ### What is promised -/

/-- The type that the symbol of a name leads to, in a module that is loaded. -/
def CurrentType (k : TypedHeap κ) (sid : Word) (st : SsTypeRecord) : Prop :=
  ∃ symbol name e, k.carbon.globals sid = some symbol ∧ symbol.typeId = stringId "ss-type" ∧
    k.carbon.byName name = some e ∧ e.order = symbol.order ∧ e.file.ssTypes symbol.ptr = some st

/-- Each access within a type's size of the object at an address is inside the block that the
object was allocated in. -/
def FitsBlock (s : ArenaManager) (payload : ℕ) (st : SsTypeRecord) : Prop :=
  ∃ (i : ℕ) (entry : ℕ × Arena) (j : ℕ), s.arenas[i]? = some entry ∧
    entry.2.isAllocated j = true ∧ payload = Collector.payloadOf (entry.2.block j) ∧
    ∀ offset width, offset + width ≤ st.size →
      payload + offset + width ≤ entry.2.block j + entry.2.blockSize

def Indexed (r : TypeTable κ) : Prop :=
  ∀ sid i, r.bySid sid = some i → ∃ td, r.types[i]? = some td ∧ td.name = sid

/-- The heap is new, and the registry is as natives, or an earlier run in the process, left it. -/
def Started (k : TypedHeap κ) : Prop :=
  Indexed k.types ∧
    ∃ start size contents, Reserved start size ∧ k.heap = Collector.initial start size contents

/-- The invariant of a run from a state: the index of the registry is right, and so is the heap,
and each name has the size that was registered first. -/
structure TypesHold (k : TypedHeap κ) (events : List (TypedEvent κ)) (t : TypedHeap κ) : Prop where
  indexed : Indexed t.types
  heap : CollectorHolds t.heap
  first : ∀ sid, (t.types.find sid).map (·.size) = firstSize k events sid

end HeapTypes

end Soot.Model
