import Soot.Program.ElementPayload

/-!
# Relocation bits that belong to pointers
-/

set_option autoImplicit false

namespace Soot.Model

open Soot.Computation Soot.Program StatefulExcept
open ElementPayload
open SidTable (wordBytes)

def payloadAfter (name type : String) (calls : List ElementCall) : ElementPayload :=
  calls.foldl (fun e call => (runFrom call.method e).2) ⟨[], [], name, type⟩

def Flagged (e : ElementPayload) (i : ℕ) : Prop := e.relocTable[i]? = some true

instance (e : ElementPayload) (i : ℕ) : Decidable (Flagged e i) := by
  unfold Flagged
  infer_instance

/-- The call writes a non-null pointer of eight bytes into a slot. -/
def Receives (e : ElementPayload) (i : ℕ) : ElementCall → Prop
  | .pushValueWithPtr data ptrSlots =>
    (∃ slot ∈ ptrSlots, e.rawData.length + slot.offset = 8 * i ∧ slot.size = 8) ∧
      8 * i + 8 ≤ (e.rawData ++ data).length ∧ slotWord (e.rawData ++ data) i ≠ 0
  | _ => False

def StartsRelocated (e : ElementPayload) (i : ℕ) : ElementCall → Prop
  | .pushBlob _ data relocationBit =>
    relocationBit.toNat % 2 = 1 ∧ e.slots ≤ i ∧ 8 * i < (e.rawData ++ data).length
  | _ => False

def FlagsComeFrom (source : ElementPayload → ℕ → ElementCall → Prop) (name type : String)
    (calls : List ElementCall) : Prop :=
  ∀ i, Flagged (payloadAfter name type calls) i →
    ∃ before call after, calls = before ++ call :: after ∧
      source (payloadAfter name type before) i call

/-- The adjustment adds to the slots of a kind and leaves every other byte alone. -/
def AddsExactly (kind : ℕ → Prop) [DecidablePred kind] (e : ElementPayload) : Prop :=
  ∀ d, (e.adjustOffsets d).rawData.length = e.rawData.length ∧ ∀ i,
    slotBytes (e.adjustOffsets d).rawData i =
      if kind i then wordBytes (slotWord e.rawData i + d) else slotBytes e.rawData i

def Adjusted (e : ElementPayload) (i : ℕ) : Prop :=
  Flagged e i ∧ 8 * i + 8 ≤ e.rawData.length ∧ slotWord e.rawData i ≠ 0

instance (e : ElementPayload) : DecidablePred (Adjusted e) := by
  unfold Adjusted
  infer_instance

/-- One bit for each started word, set bits on non-null pointers only, and adjustments that add
to exactly the slots with a set bit and add up. -/
structure FlagsPointers (name type : String) (calls : List ElementCall) : Prop where
  oneBit : (payloadAfter name type calls).relocTable.length = (payloadAfter name type calls).slots
  flags : FlagsComeFrom Receives name type calls
  adds : AddsExactly (Flagged (payloadAfter name type calls)) (payloadAfter name type calls)
  addsUp : ∀ a b, ((payloadAfter name type calls).adjustOffsets a).adjustOffsets b =
    (payloadAfter name type calls).adjustOffsets (a + b)

/-- As `FlagsPointers`, but a blob may set the bits of the slots that it starts, and the
adjustment passes slots that are null or not whole: two of them add up unless the first makes a
pointer null. -/
structure FlagsSlots (name type : String) (calls : List ElementCall) : Prop where
  oneBit : (payloadAfter name type calls).relocTable.length = (payloadAfter name type calls).slots
  flags : FlagsComeFrom (fun e i call => Receives e i call ∨ StartsRelocated e i call)
    name type calls
  adds : AddsExactly (Adjusted (payloadAfter name type calls)) (payloadAfter name type calls)
  addsUp : ∀ a b, ((payloadAfter name type calls).adjustOffsets a).adjustOffsets b =
      (payloadAfter name type calls).adjustOffsets (a + b) ↔
    b = 0 ∨ ∀ i, Adjusted (payloadAfter name type calls) i →
      slotWord (payloadAfter name type calls).rawData i + a ≠ 0

end Soot.Model
