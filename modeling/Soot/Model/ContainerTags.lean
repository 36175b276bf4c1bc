import Soot.Program.ContainerCalls
import Soot.Model.Heap

/-!
# Truthful type tags

Script code has values, calls the map and array functions on them and gets more values. What it can
have marked are the objects its values point to. The type in the header of such an object is
truthful when the mark delegate of the type is one for what the block stores; marking then reads the
object's own memory and visits pointers that the code has stored.
-/

set_option autoImplicit false

namespace Soot.Model

open Soot.Program

structure ScriptHeap where
  heap : CellHeap
  held : List Variant

variable (types : TypeRegistry Cells) (fpu : FloatUnit)

/-! ## Marking -/

def delegateOf (h : CellHeap) (payload : ℕ) : Option (Cells → ℕ → List ℕ) :=
  (types.findByIndex (h.words (Collector.headerOf payload)).asHeader.typeIndex).bind (·.mark)

/-- The representation that a delegate takes what it is given for. -/
inductive Represents : Cell → Option (Cells → ℕ → List ℕ) → Prop where
  | map (m : RuntimeMap) : Represents (.map m) (some markRuntimeMap)
  | scalars (a : RuntimeArray) : a.elemSize = 4 → Represents (.array a) (some markArrayScalar)
  | pointers (word : Cells → ℕ → ℕ) (a : RuntimeArray) : a.elemSize = 8 →
      Represents (.array a) (some (markArrayPtr word))

/-- So many bytes from an address on lie in the block of the object at the address. -/
def Inside (h : CellHeap) (payload size : ℕ) : Prop :=
  ∃ (i : ℕ) (entry : ℕ × Arena) (j : ℕ), h.arenas.arenas[i]? = some entry ∧
    entry.2.isAllocated j = true ∧ payload = Collector.payloadOf (entry.2.block j) ∧
    Collector.headerSize + size ≤ entry.2.blockSize

/-- What a delegate reads of an object and of its buffer lies inside their blocks. -/
def ReadsInside (h : CellHeap) (payload : ℕ) : Prop :=
  match h.contents payload with
  | .map m => Inside h payload 24 ∧ (m.values ≠ 0 → Inside h m.values (m.size * 16) ∧
      ∃ variants, h.contents m.values = .values variants ∧ m.size ≤ variants.length)
  | .array a => Inside h payload 24 ∧ (a.data ≠ 0 → a.elemSize = 8 →
      Inside h a.data (a.size * 8) ∧
      ∃ pointers, h.contents a.data = .elements pointers ∧ a.size ≤ pointers.length)
  | _ => False

/-- An object is marked as what it is: it is live, its delegate is one for what it stores, and reads
inside the blocks, and what it visits are pointers that were stored. -/
structure MarksTruly (s : ScriptHeap) (payload : ℕ) : Prop where
  live : Live s.heap payload
  tag : Represents (s.heap.contents payload) (delegateOf types s.heap payload)
  reads : ReadsInside s.heap payload
  visits : ∀ target ∈ s.heap.visits types payload,
    ∃ word, .pointer word ∈ s.held ∧ word.toNat = target

/-- All that script code can have marked, and what that leads to, is marked as what it is. -/
def Truthful (s : ScriptHeap) : Prop :=
  ∀ payload, Reachable types s.heap (s.held.map Variant.address) payload →
    MarksTruly types s payload

/-! ## Runs -/

/-- What script code does: it gets a value that is no pointer into the heap, or calls a function on
values it has. -/
inductive ScriptEvent where
  | got (value : Variant)
  | called (call : CellHeap.Call)

inductive ScriptStep : ScriptHeap → ScriptEvent → ScriptHeap → Prop where
  | got {s : ScriptHeap} {value : Variant} : ¬ InHeap s.heap value.address →
      ScriptStep s (.got value) ⟨s.heap, value :: s.held⟩
  | called {s : ScriptHeap} {call : CellHeap.Call} {heap : CellHeap} {result : Variant} :
      (∀ value ∈ call.arguments, value ∈ s.held) → call.run types fpu s.heap = some (heap, result) →
      ScriptStep s (.called call) ⟨heap, result :: s.held⟩

inductive ScriptRun : ScriptHeap → List ScriptEvent → ScriptHeap → Prop where
  | nil {s : ScriptHeap} : ScriptRun s [] s
  | cons {s t u : ScriptHeap} {event : ScriptEvent} {rest : List ScriptEvent} :
      ScriptStep types fpu s event t → ScriptRun t rest u → ScriptRun s (event :: rest) u

def MapOrNull (h : CellHeap) (value : Variant) : Prop :=
  value.address = 0 ∨ InHeap h value.address ∧ ∃ m, h.contents value.address = .map m

def ArrayOrNull (h : CellHeap) (condition : RuntimeArray → Prop) (value : Variant) : Prop :=
  value.address = 0 ∨
    InHeap h value.address ∧ ∃ a, h.contents value.address = .array a ∧ condition a

def OfKind (h : CellHeap) : CellHeap.Call → Prop
  | .makeMap | .makeArray _ => True
  | .mapGet map _ _ | .mapSet map _ _ | .mapDel map _ => MapOrNull h map
  | .arrayPush array _ | .arrayClear array | .arrayData array => ArrayOrNull h (fun _ => True) array

/-- The condition on a call: it is of its kind, and `array-data` is called on no array with a
buffer. -/
def KeepsTags (h : CellHeap) (call : CellHeap.Call) : Prop :=
  OfKind h call ∧ ∀ array, call = .arrayData array → ArrayOrNull h (·.data = 0) array

def StepKeepsTags (s : ScriptHeap) : ScriptEvent → Prop
  | .got _ => True
  | .called call => KeepsTags s.heap call

inductive TaggedRun : ScriptHeap → List ScriptEvent → ScriptHeap → Prop where
  | nil {s : ScriptHeap} : TaggedRun s [] s
  | cons {s t u : ScriptHeap} {event : ScriptEvent} {rest : List ScriptEvent} :
      StepKeepsTags s event → ScriptStep types fpu s event t → TaggedRun t rest u →
      TaggedRun s (event :: rest) u

def ScriptHeap.initial (start size : ℕ) : ScriptHeap :=
  ⟨Collector.initial start size fun _ => .object fun _ => .null, []⟩

end Soot.Model
