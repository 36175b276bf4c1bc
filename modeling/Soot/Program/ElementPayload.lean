import Soot.Computation.StatefulExcept
import Soot.Program.SidBase

/-!
# Payloads of binary elements

The bytes of an element of a module file, and the relocation bits of their words.
-/

set_option autoImplicit false

namespace Soot.Program

open Soot.Computation StatefulExcept
open Script (ofLittleEndian)
open SidTable (wordBytes)

/-- `ProgramBinaryElement`: its bytes, its relocation bits, and the names of its entry, which an
error message shows. SRCLINE: ProgramBinaryElement.hpp:166-170 -/
structure ElementPayload where
  rawData : List UInt8
  relocTable : List Bool
  entryName : String
  entryType : String

structure PtrSlot where
  offset : ℕ
  size : ℕ

namespace ElementPayload

/-- A method of an element. What it writes before it throws stays written. -/
abbrev Method := StatefulExcept ElementPayload String Unit

def slotBytes (raw : List UInt8) (i : ℕ) : List UInt8 := (raw.drop (8 * i)).take 8

/-- The `u64` of a slot. -/
def slotWord (raw : List UInt8) (i : ℕ) : Word := BitVec.ofNat 64 (ofLittleEndian (slotBytes raw i))

def slots (e : ElementPayload) : ℕ := (e.rawData.length + 7) / 8

/-- `check_size`. SRCLINE: ProgramBinaryElement.cpp:47-61 -/
def checkSize : Method := do
  let e ← get
  if e.slots ≠ e.relocTable.length then
    throw (s!"[ProgramBinaryElement] invariant broken: rawData has {e.rawData.length} bytes " ++
      s!"({e.slots} slots, ceil), relocTable has {e.relocTable.length} bits. " ++
      s!"Entry name: '{e.entryName}', type: '{e.entryType}'.")
  else pure ()

def inserted (data : List UInt8) (e : ElementPayload) : ElementPayload :=
  { e with rawData := e.rawData ++ data }

/-- The loop that fills the table with bits that are not set.
SRCLINE: ProgramBinaryElement.hpp:145-146 -/
def filled (e : ElementPayload) : ElementPayload :=
  { e with relocTable := e.relocTable ++ List.replicate (e.slots - e.relocTable.length) false }

/-- `push_value`, of a value with the given bytes.
SRCLINE: ProgramBinaryElement.hpp:139-153 -/
def pushValue (data : List UInt8) : Method := do
  modify (inserted data)
  modify filled
  checkSize

/-- `verify_and_mark_ptr_if_nonnull`. SRCLINE: ProgramBinaryElement.hpp:90-129 -/
def verifyAndMarkPtrIfNonnull (base : ℕ) (slot : PtrSlot) : Method := do
  let e ← get
  let offset := base + slot.offset
  if slot.size ≠ 8 then
    throw (s!"[ProgramBinaryElement] pointer field at byte offset {offset} has size {slot.size} " ++
      s!"bytes; expected 8. Only 8-byte pointers can be relocated.")
  else if offset % 8 ≠ 0 then
    throw (s!"[ProgramBinaryElement] pointer field at byte offset {offset} is not " ++
      s!"8-byte aligned; a relocation bit cannot describe it.")
  else if e.rawData.length < offset + slot.size then
    throw (s!"[ProgramBinaryElement] pointer field at byte offset {offset} (size {slot.size}) " ++
      s!"extends past the payload end ({e.rawData.length}).")
  else if slotWord e.rawData (offset / 8) = 0 then pure ()
  else if e.relocTable.length ≤ offset / 8 then
    throw (s!"[ProgramBinaryElement] internal error — slot index {offset / 8} is out of " ++
      s!"range (relocTable has {e.relocTable.length} entries).")
  else set { e with relocTable := e.relocTable.set (offset / 8) true }

/-- `push_value_with_ptr`. SRCLINE: ProgramBinaryElement.hpp:160-176 -/
def pushValueWithPtr (data : List UInt8) (ptrSlots : List PtrSlot) : Method := do
  let base := (← get).rawData.length
  modify (inserted data)
  modify filled
  ptrSlots.forM (verifyAndMarkPtrIfNonnull base)
  checkSize

/-- The bits of `insert_into_reloctable`. SRCLINE: ProgramBinaryElement.cpp:24-26 -/
def insertedBits (bits : UInt8) (numBits : ℕ) : List Bool :=
  (List.range numBits).map bits.toNat.testBit

/-- `push_blob`, of so many bytes at a pointer that may be null.
SRCLINE: ProgramBinaryElement.cpp:28-45 -/
def pushBlob (isNull : Bool) (data : List UInt8) (relocationBit : UInt8) : Method := do
  if isNull = true ∧ data ≠ [] then
    throw "[ProgramBinaryElement] push_blob: data is null but size > 0"
  else
    let slotsBefore := (← get).slots
    modify (inserted data)
    modify fun e =>
      { e with relocTable := e.relocTable ++
        (List.range (e.slots - slotsBefore)).flatMap fun _ => insertedBits relocationBit 1 }
    checkSize

/-- The loop of `adjust_offsets` over the words that are whole and have a bit. -/
def adjustFrom (offset : Word) : List Bool → List UInt8 → List UInt8
  | flag :: table, raw =>
    if raw.length < 8 then raw
    else
      (if flag ∧ slotWord raw 0 ≠ 0 then wordBytes (slotWord raw 0 + offset) else raw.take 8) ++
        adjustFrom offset table (raw.drop 8)
  | [], raw => raw

/-- `adjust_offsets`. SRCLINE: ProgramBinaryElement.cpp:67-84 -/
def adjustOffsets (e : ElementPayload) (offset : Word) : ElementPayload :=
  { e with rawData := adjustFrom offset e.relocTable e.rawData }

end ElementPayload

inductive ElementCall where
  | pushValue (data : List UInt8)
  | pushValueWithPtr (data : List UInt8) (ptrSlots : List PtrSlot)
  | pushBlob (isNull : Bool) (data : List UInt8) (relocationBit : UInt8)

def ElementCall.method : ElementCall → ElementPayload.Method
  | pushValue data => ElementPayload.pushValue data
  | pushValueWithPtr data ptrSlots => ElementPayload.pushValueWithPtr data ptrSlots
  | pushBlob isNull data relocationBit => ElementPayload.pushBlob isNull data relocationBit

end Soot.Program
