import Soot.Computation.Bytes
import Soot.Program.StringId

/-!
# Loading a module

`BinaryFile`: a module in memory, its loader and its unloader. The loader works in place on
the buffer it is given, by address; an access that is not inside the buffer is a *fault*, and
everything the loader refuses is a rejection with its reason. Slots are the aligned 8-byte
words of the buffer.
-/

set_option autoImplicit false

namespace Soot.Program

open Soot.Computation

/-- A buffer in memory: its address, which is not null, and its size, which is that of an
object. -/
structure Allocation where
  base : Word
  size : ℕ
  nonnull : base ≠ 0
  fits : base.toNat + size ≤ 2 ^ 64
  object : size < 2 ^ 63

/-! ## Layout of the header and of an entry -/

/-- `sizeof(DC_Header)` and the offsets of its fields.
SRCLINE: DCHeader.hpp:42-68 -/
def headerSize : ℕ := 0x20
@[inherit_doc headerSize] def headerMagic : ℕ := 0x00
@[inherit_doc headerSize] def headerVersion : ℕ := 0x04
@[inherit_doc headerSize] def headerTextSize : ℕ := 0x08
@[inherit_doc headerSize] def headerStringsOffset : ℕ := 0x0C
@[inherit_doc headerSize] def headerNumEntries : ℕ := 0x14
@[inherit_doc headerSize] def headerStartOfData : ℕ := 0x18

/-- SRCLINE: DCHeader.hpp:70-71 -/
def DC_FILE_MAGIC : ℕ := 0x44433030
@[inherit_doc DC_FILE_MAGIC] def DC_FILE_VERSION : ℕ := 0x01

/-- `sizeof(DCEntry)` and the offsets of its fields.
SRCLINE: DCHeader.hpp:17-30 -/
def entrySize : ℕ := 0x18
@[inherit_doc entrySize] def entryNameId : ℕ := 0x00
@[inherit_doc entrySize] def entryTypeId : ℕ := 0x08
@[inherit_doc entrySize] def entryPtr : ℕ := 0x10

/-! ## Computations of the loader -/

/-- Why the loader refuses a buffer, with what its message reports.
SRCLINE: BinaryFile.cpp:152-205, 270-358 -/
inductive LoaderError where
  | bufferTooSmall (size : ℕ)
  | badMagic (magic : ℕ)
  | badVersion (version : ℕ)
  | textSizeBelowHeader (textSize : ℕ)
  | textSizeExceedsBuffer (textSize size : ℕ)
  | stringsOffsetExceedsText (stringsOffset textSize : ℕ)
  | tooManyEntries (numEntries : ℕ)
  | noRoomForTablePrefix (textSize size : ℕ)
  | tableSizeZero
  | tableDoesNotFit (tableEnd size : ℕ)
  | slotPastText (slot slotOffset textSize : ℕ)
  | targetOutsideBuffer (slot slotOffset offset size : ℕ)
  | targetOutsideBitmap (slot offset targetSlot totalSlots : ℕ)
  | stringsOffsetPastEnd (stringsOffset size : ℕ)
  deriving DecidableEq

/-- A load that does not complete: an access outside the buffer, or a rejection. -/
inductive LoadFailure where
  | fault (address : Word) (length : ℕ)
  | rejected (error : LoaderError)
  deriving DecidableEq

structure LoadState where
  bytes : Bytes
  pointedAt : ℕ → Bool

abbrev LoadM := StateT LoadState (Except LoadFailure)

def Allocation.index (A : Allocation) (p : Word) : ℕ := (p - A.base).toNat

/-- The `n` bytes at an address are inside the buffer. -/
def Allocation.Inside (A : Allocation) (p : Word) (n : ℕ) : Prop := A.index p + n ≤ A.size

instance (A : Allocation) (p : Word) (n : ℕ) : Decidable (A.Inside p n) :=
  inferInstanceAs (Decidable (_ ≤ _))

/-- Read a number of `n` bytes. -/
def load (A : Allocation) (p : Word) (n : ℕ) : LoadM ℕ := fun s =>
  if A.Inside p n then .ok (s.bytes.read (A.index p) n, s) else .error (.fault p n)

/-- Write a number of `n` bytes. -/
def store (A : Allocation) (p : Word) (n v : ℕ) : LoadM Unit := fun s =>
  if A.Inside p n then .ok ((), { s with bytes := s.bytes.write (A.index p) n v })
  else .error (.fault p n)

def ensure (p : Prop) [Decidable p] (e : LoaderError) : LoadM Unit :=
  if p then pure () else throw (.rejected e)

def Allocation.at (A : Allocation) (offset : ℕ) : Word := A.base + BitVec.ofNat 64 offset

def loadHeader (A : Allocation) (field : ℕ) : LoadM ℕ := load A (A.at field) 4

/-- `location::get<u8>`: the offset from the location is an `i32`.
SRCLINE: BinaryFile.hpp:43-45 -/
def tableByte (A : Allocation) (table : Word) (i : ℕ) : LoadM ℕ :=
  load A (table + (BitVec.ofNat 32 i).signExtend 64) 1

/-! ## Relocation -/

/-- One round of the relocation loop. SRCLINE: BinaryFile.cpp:311-358 -/
def relocateSlot (A : Allocation) (table : Word) (textSize tableSize slot : ℕ) : LoadM Unit := do
  let byte ← tableByte A table (slot / 8)
  if byte.testBit (slot % 8) then
    ensure (slot * 8 + 8 ≤ textSize) (.slotPastText slot (slot * 8) textSize)
    let offset ← load A (A.at (slot * 8)) 8
    ensure (offset < A.size) (.targetOutsideBuffer slot (slot * 8) offset A.size)
    store A (A.at (slot * 8)) 8 (A.at offset).toNat
    ensure (offset / 8 < tableSize * 8)
      (.targetOutsideBitmap slot offset (offset / 8) (tableSize * 8))
    modify fun s => { s with pointedAt := Function.update s.pointedAt (offset / 8) true }

/-- `n` rounds of the relocation loop, from a slot on. -/
def relocateFrom (A : Allocation) (table : Word) (textSize tableSize : ℕ) : ℕ → ℕ → LoadM Unit
  | _, 0 => return
  | slot, n + 1 => do
    relocateSlot A table textSize tableSize slot
    relocateFrom A table textSize tableSize (slot + 1) n

/-- `entries`: the entry table, or null where its address was not relocated.
SRCLINE: BinaryFile.cpp:410-427 -/
def entries (A : Allocation) : LoadM Word := do
  let start ← load A (A.at headerStartOfData) 8
  if start < A.base.toNat then return 0 else return BitVec.ofNat 64 start

/-- The payload of the first entry named `top-level` that is a `script-lambda`, among `n`
entries from the `i`-th on; null where there is none. The fields of an entry are read one by
one. SRCLINE: BinaryFile.cpp:375-381 -/
def findTopLevel (A : Allocation) (table : Word) : ℕ → ℕ → LoadM Word
  | _, 0 => return 0
  | i, n + 1 => do
    let entry := table + BitVec.ofNat 64 (i * entrySize)
    let name ← load A (entry + BitVec.ofNat 64 entryNameId) 8
    if BitVec.ofNat 64 name = stringId "top-level" then
      let type ← load A (entry + BitVec.ofNat 64 entryTypeId) 8
      if BitVec.ofNat 64 type = stringId "script-lambda" then
        return BitVec.ofNat 64 (← load A (entry + BitVec.ofNat 64 entryPtr) 8)
      else findTopLevel A table (i + 1) n
    else findTopLevel A table (i + 1) n

/-- A loaded module: where its relocation bitmap and its strings are, and its entry point;
null where there is none. -/
structure BinaryFile where
  relocTable : Word
  strings : Word
  topLevel : Word
  deriving DecidableEq

def locateTopLevel (A : Allocation) (count : ℕ) : LoadM Word :=
  if count = 0 then pure 0 else entries A >>= fun table => findTopLevel A table 0 count

/-- The search for the entry point when the file is moved: there is none without a table. -/
def relocateTopLevel (A : Allocation) (count : ℕ) : LoadM Word :=
  if count = 0 then pure 0
  else entries A >>= fun table => if table = 0 then pure 0 else findTopLevel A table 0 count

/-- `read_reloc_table`. SRCLINE: BinaryFile.cpp:270-382 -/
def readRelocTable (A : Allocation) : LoadM BinaryFile := do
  let textSize ← loadHeader A headerTextSize
  ensure (textSize + 4 ≤ A.size) (.noRoomForTablePrefix textSize A.size)
  let tableSize ← load A (A.at textSize) 4
  ensure (tableSize ≠ 0) .tableSizeZero
  ensure (textSize + 4 + tableSize ≤ A.size)
    (.tableDoesNotFit (textSize + 4 + tableSize) A.size)
  modify fun s => { s with pointedAt := fun _ => false }
  let table := A.at (textSize + 4)
  relocateFrom A table textSize tableSize 0 (tableSize * 8)
  let stringsOffset ← loadHeader A headerStringsOffset
  ensure (stringsOffset ≤ A.size) (.stringsOffsetPastEnd stringsOffset A.size)
  let numEntries ← loadHeader A headerNumEntries
  let topLevel ← locateTopLevel A numEntries
  return ⟨table, A.at stringsOffset, topLevel⟩

/-- `rebuild_pointers_from_bytes`, when the file is moved.
SRCLINE: BinaryFile.cpp:34-72 -/
def rebuildPointers (A : Allocation) : LoadM BinaryFile := do
  if A.size = 0 then return ⟨0, 0, 0⟩
  else
    let textSize ← loadHeader A headerTextSize
    let stringsOffset ← loadHeader A headerStringsOffset
    let numEntries ← loadHeader A headerNumEntries
    let topLevel ← relocateTopLevel A numEntries
    return {
      relocTable := if textSize + 4 ≤ A.size then A.at (textSize + 4) else 0
      strings := if stringsOffset ≤ A.size then A.at stringsOffset else 0
      topLevel := topLevel }

/-- The checks `from_buffer` makes before it loads the file.
SRCLINE: BinaryFile.cpp:152-205 -/
def checkHeader (A : Allocation) : LoadM Unit := do
  ensure (headerSize ≤ A.size) (.bufferTooSmall A.size)
  let magic ← loadHeader A headerMagic
  ensure (magic = DC_FILE_MAGIC) (.badMagic magic)
  let version ← loadHeader A headerVersion
  ensure (version = DC_FILE_VERSION) (.badVersion version)
  let textSize ← loadHeader A headerTextSize
  ensure (headerSize ≤ textSize) (.textSizeBelowHeader textSize)
  ensure (textSize ≤ A.size) (.textSizeExceedsBuffer textSize A.size)
  let stringsOffset ← loadHeader A headerStringsOffset
  ensure (stringsOffset ≤ textSize) (.stringsOffsetExceedsText stringsOffset textSize)
  let numEntries ← loadHeader A headerNumEntries
  ensure (numEntries ≤ 1000000) (.tooManyEntries numEntries)
  ensure (textSize + 4 ≤ A.size) (.noRoomForTablePrefix textSize A.size)
  let tableSize ← load A (A.at textSize) 4
  ensure (tableSize ≠ 0) .tableSizeZero
  ensure (textSize + 4 + tableSize ≤ A.size)
    (.tableDoesNotFit (textSize + 4 + tableSize) A.size)

/-- `from_buffer`: check the header, load the file, and move it to the caller.
SRCLINE: BinaryFile.cpp:149-221 -/
def fromBuffer (A : Allocation) : LoadM BinaryFile := do
  checkHeader A
  let _ ← readRelocTable A
  rebuildPointers A

def unloaded (bytes : Bytes) : LoadState := ⟨bytes, fun _ => false⟩

/-! ## Unloading -/

/-- One round of the loop of `get_unmapped`, on the copy. -/
def unmapSlot (A : Allocation) (file : BinaryFile) (slot : ℕ) (copy : Bytes) : LoadM Bytes := do
  let byte ← tableByte A file.relocTable (slot / 8)
  if byte.testBit (slot % 8) then
    if slot * 8 + 8 ≤ A.size then
      return copy.write (slot * 8) 8
        (BitVec.ofNat 64 (copy.read (slot * 8) 8) - A.base).toNat
    else throw (.fault (A.at (slot * 8)) 8)
  else return copy

/-- `n` rounds of the loop of `get_unmapped`, from a slot on. -/
def unmapFrom (A : Allocation) (file : BinaryFile) : ℕ → ℕ → Bytes → LoadM Bytes
  | _, 0, copy => return copy
  | slot, n + 1, copy => do
    unmapFrom A file (slot + 1) n (← unmapSlot A file slot copy)

/-- `get_unmapped`: a copy of the file with its pointers mapped back; the size of the table is
read from the copy. SRCLINE: BinaryFile.cpp:387-404 -/
def getUnmapped (A : Allocation) (file : BinaryFile) : LoadM Bytes := do
  let copy := (← get).bytes
  let textSize ← loadHeader A headerTextSize
  if textSize + 4 ≤ A.size then unmapFrom A file 0 (copy.read textSize 4 * 8) copy
  else throw (.fault (A.at textSize) 4)

/-- `gets_pointed_at`: the bitmap has one bit for every eight bytes, as far as it goes; the source
does not check how far. SRCLINE: BinaryFile.cpp:244-249 -/
def getsPointedAt (A : Allocation) (s : LoadState) (location : Word) : Bool :=
  s.pointedAt (A.index location / 8)

end Soot.Program
