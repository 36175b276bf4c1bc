import Mathlib.Data.List.DropRight
import Mathlib.Data.Nat.Digits.Defs
import Soot.Computation.Assignments
import Soot.Program.DataSegment
import Soot.Program.RemoteRuntime

/-!
# Tables of string ids

The names of string ids, kept in a table, which is saved to files of two formats and loaded from
them: a text with a line for each name, and the binary `sidbase`, sorted by id, in which a name is
found by a binary search. The reader of the binary format keeps the file in one buffer. A read
outside this buffer is a fault of the model.
-/

set_option autoImplicit false

namespace Soot.Program

open Soot.Computation
open DataSegment (cString)
open Script (littleEndian ofLittleEndian)

/-! ## The binary format -/

/-- What may go wrong for a reader of a buffer: it leaves the buffer, or it does not come to an
end. -/
inductive BufferFault where
  | outside
  | unfinished
  deriving DecidableEq

inductive InputFile where
  | cannotOpen
  | cannotRead (size : ℕ)
  | content (bytes : Text)

/-- The `u64` at a place of a buffer. -/
def readWord (bytes : Text) (place : ℕ) : Except BufferFault Word :=
  if place + 8 ≤ bytes.length then
    .ok (BitVec.ofNat 64 (ofLittleEndian ((bytes.drop place).take 8)))
  else .error .outside

def cStringAt (bytes : Text) (place : ℕ) : Except BufferFault Text :=
  if 0 ∈ bytes.drop place then .ok (cString (bytes.drop place)) else .error .outside

/-- `SIDBaseEntry`. SRCLINE: SIDBase.hpp:23-26 -/
structure SidBaseEntry where
  hash : Word
  offset : Word
  deriving DecidableEq

/-- `SIDBase`; the entries begin at byte 8. SRCLINE: SIDBase.hpp:36-42 -/
structure SidBase where
  numEntries : Word
  sidBytes : Text
  lowestSid : Word
  highestSid : Word
  deriving DecidableEq

/-- `m_entries[idx].hash`. -/
def entryHash (bytes : Text) (idx : ℕ) : Except BufferFault Word :=
  readWord bytes (8 + 16 * idx)

/-- `m_entries[idx].offset`. -/
def entryOffset (bytes : Text) (idx : ℕ) : Except BufferFault Word :=
  readWord bytes (8 + 16 * idx + 8)

/-- `from_binary`. SRCLINE: SIDBase.cpp:9-45 -/
def SidBase.fromBinary (path : Text) : InputFile → Except BufferFault (Except Text SidBase)
  | .cannotOpen => .ok (.error (text "couldn't open sidbase at path '" ++ path ++ text "'"))
  | .cannotRead size =>
    if size < 8 then .ok (.error (text "sidbase file too small: " ++ path))
    else .ok (.error (text "failed to read sidbase: " ++ path))
  | .content bytes =>
    if bytes.length < 8 then .ok (.error (text "sidbase file too small: " ++ path))
    else do
      let numEntries ← readWord bytes 0
      if numEntries = 0 then return .error (text "sidbase has zero entries: " ++ path)
      else
        let entriesBytes := numEntries * 16
        if bytes.length < (8 + entriesBytes).toNat then
          return .error (text "sidbase table exceeds file size: " ++ path)
        else
          let lowest ← entryHash bytes 0
          let highest ← entryHash bytes (numEntries - 1).toNat
          return .ok ⟨numEntries, bytes, lowest, highest⟩

namespace SidBase

variable (base : SidBase) (hash : Word)

/-- The loop of `search`, with a bound for its turns. SRCLINE: SIDBase.cpp:53-63 -/
def searchLoop : ℕ → Word → Word → Except BufferFault (Option Word)
  | 0, _, _ => .error .unfinished
  | turns + 1, low, high =>
    if low ≤ high then do
      let mid := low + (high - low) / 2
      let current ← entryHash base.sidBytes mid.toNat
      if current = hash then return some (← entryOffset base.sidBytes mid.toNat)
      else if current < hash then searchLoop turns (mid + 1) high
      else if mid = 0 then return none
      else searchLoop turns low (mid - 1)
    else return none

/-- `search`: the offset of the string, from the start of the file.
SRCLINE: SIDBase.cpp:49-65 -/
def search : Except BufferFault (Option Word) :=
  base.searchLoop hash 65 0 (base.numEntries - 1)

/-- The string that `search` leads to. SRCLINE: SIDBase.hpp:69-72 -/
def searchString : Except BufferFault (Option Text) := do
  match ← base.search hash with
  | none => return none
  | some offset => return some (← cStringAt base.sidBytes offset.toNat)

end SidBase

/-! ## The table -/

/-- `reverse_lookup_`, in the order of its iteration.
SRCLINE: StringIdManager.hpp:123-124 -/
abbrev SidTable := List (Word × Text)

namespace SidTable

/-- `register_string`. A name whose id is taken is not entered.
SRCLINE: StringIdManager.cpp:26-43 -/
def registerString (table : SidTable) (str : Text) : Word × SidTable :=
  if (table.lookup (textId str)).isSome then (textId str, table)
  else (textId str, assign table (textId str, str))

/-! ### The binary file -/

/-- The entries of some names, whose strings begin at an offset.
SRCLINE: StringIdManager.cpp:234-243 -/
def entriesFrom : Word → SidTable → List SidBaseEntry
  | _, [] => []
  | offset, (id, name) :: rest =>
    ⟨id, offset⟩ :: entriesFrom (offset + BitVec.ofNat 64 (name.length + 1)) rest

/-- The string pool. SRCLINE: StringIdManager.cpp:240-241 -/
def stringPool (sorted : SidTable) : Text := sorted.flatMap fun e => e.2 ++ [0]

/-- The bytes of a `u64`. -/
def wordBytes (w : Word) : Text := littleEndian 8 w.toNat

/-- The names sorted by id. SRCLINE: StringIdManager.cpp:210-214 -/
def sortedById (table : SidTable) : SidTable := table.mergeSort fun a b => a.1 ≤ b.1

/-- `save_dconstruct_sidbase`: the bytes of the file.
SRCLINE: StringIdManager.cpp:206-256 -/
def saveDconstructSidbase (table : SidTable) : Text :=
  let sorted := table.sortedById
  let entries := entriesFrom (8 + BitVec.ofNat 64 (sorted.length * 16)) sorted
  wordBytes (BitVec.ofNat 64 entries.length) ++
    entries.flatMap (fun e => wordBytes e.hash ++ wordBytes e.offset) ++ stringPool sorted

/-- The body of the loop of `load_dconstruct_sidbase`: an empty string is skipped. A pointer into
the buffer is not null. SRCLINE: StringIdManager.cpp:268-281 -/
def loadEntry (base : SidBase) (table : SidTable) (i : ℕ) : Except BufferFault SidTable := do
  let offset ← entryOffset base.sidBytes i
  let name ← cStringAt base.sidBytes offset.toNat
  if name = [] then return table
  else
    let hash ← entryHash base.sidBytes i
    return assign table (hash, name)

/-- The loop, on the cleared table. SRCLINE: StringIdManager.cpp:265-282 -/
def loadEntries (base : SidBase) : Except BufferFault SidTable :=
  (List.range base.numEntries.toNat).foldlM (loadEntry base) []

/-- `load_dconstruct_sidbase`. SRCLINE: StringIdManager.cpp:259-286 -/
def loadDconstructSidbase (path : Text) (file : InputFile) (table : SidTable) :
    Except BufferFault (Bool × SidTable) := do
  match ← SidBase.fromBinary path file with
  | .error _ => return (false, table)
  | .ok base => return (true, ← loadEntries base)

/-! ### The text file -/

def hexDigit (n : ℕ) : UInt8 := if n < 10 then UInt8.ofNat (48 + n) else UInt8.ofNat (55 + n)

/-- A number as `std::hex`, `std::uppercase`, `std::setw(8)` and `std::setfill('0')` write it. -/
def hex8 (id : Word) : Text :=
  ((Nat.digits 16 id.toNat).reverse.map hexDigit).leftpad 8 (byte '0')

/-- `save_table`: the bytes of the file. SRCLINE: StringIdManager.cpp:99-121 -/
def saveTable (table : SidTable) : Text :=
  table.flatMap fun e => hex8 e.1 ++ byte ' ' :: e.2 ++ [byte '\n']

/-- One of `" \t\r\n"`. -/
def isBlank (b : UInt8) : Bool :=
  b = byte ' ' || b = byte '\t' || b = byte '\r' || b = byte '\n'

/-- Without the blanks at both ends. SRCLINE: StringIdManager.cpp:140-146 -/
def trim (s : Text) : Text := (s.dropWhile isBlank).rdropWhile isBlank

/-- `std::isxdigit`. -/
def isHexDigit (b : UInt8) : Bool :=
  isDigit b || (byte 'A' ≤ b && b ≤ byte 'F') || (byte 'a' ≤ b && b ≤ byte 'f')

def hexDigitValue (b : UInt8) : ℕ :=
  if b ≤ byte '9' then b.toNat - 48 else if b ≤ byte 'F' then b.toNat - 55 else b.toNat - 87

/-- A `u32` read with `std::hex`: what is too large is read as the largest one.
SRCLINE: StringIdManager.cpp:186-189 -/
def readHex32 (s : Text) : ℕ := min (s.foldl (fun n b => 16 * n + hexDigitValue b) 0) 0xFFFFFFFF

/-- A line of the file: its id and its name, or nothing where the line is not valid.
SRCLINE: StringIdManager.cpp:137-192 -/
def readLine (line : Text) : Option (Word × Text) :=
  let line := trim line
  if line = [] then none
  else
    let hexStr := line.takeWhile fun b => ! (b = byte ' ' || b = byte '\t')
    if hexStr.length = line.length then none
    else
      let name := trim (line.drop (hexStr.length + 1))
      if hexStr = [] then none
      else if ! hexStr.all isHexDigit then none
      else if name = [] then none
      else some (BitVec.ofNat 64 (readHex32 hexStr), name)

/-- `load_table`. SRCLINE: StringIdManager.cpp:123-200 -/
def loadTable (file : InputFile) (table : SidTable) : Bool × SidTable :=
  match file with
  | .cannotOpen => (false, table)
  | .cannotRead _ => (false, [])
  | .content bytes =>
    let entries := (bytes.splitOn (byte '\n')).filterMap readLine
    (! entries.isEmpty, entries.foldl assign [])

end SidTable

end Soot.Program
