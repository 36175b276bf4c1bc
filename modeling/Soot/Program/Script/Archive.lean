import Soot.Computation.Archives
import Soot.Program.Script.Object
import Mathlib.Data.List.Nodup

/-!
# Memory buffers and their archives

A memory buffer has bytes with a base address, symbols, relocations and labels, and is written to an
archive and read from it by functions that name the same parts in the same order. An archive is the
memory of a region and a position in it. The host is little-endian, sizes and counts are below
2^31, and the segment and the info of a label are objects, of which nothing is written or read.
-/

set_option autoImplicit false

namespace Soot.Program.Script

open Computation

/-! ## Archives -/

/-- What an archive throws; `overflow` is the negation of the least `int`. -/
inductive ArchiveError where
  | outOfBounds | unimplementedSize | lengthError | overflow
  deriving DecidableEq

abbrev ArchiveM := Archived ArchiveError

/-- The sizes that pointers and checksums are stored with.
SRCLINE: type_system/Config.hpp:24-44 -/
structure TypeConfig where
  pointerSize : ℕ := 4
  crcValueSize : ℕ := 4
  deriving DecidableEq

/-- The sizes before and after the builtin types are registered.
SRCLINE: type_system/Config.hpp:37-40, TypeSystem.cpp:1107-1110 -/
def typeConfig (registered : Bool) : TypeConfig :=
  if registered then ⟨8, 8⟩ else {}

/-- `serialize_obj` of an archive that writes. SRCLINE: MemoryArchive.hpp:85-106 -/
def putBytes (v : List UInt8) : ArchiveM Unit := fun ar =>
  if v = [] then .ok ((), ar)
  else if ar.memory.length < ar.position + v.length then .error .outOfBounds
  else .ok ((), ⟨ar.memory.take ar.position ++ v ++ ar.memory.drop (ar.position + v.length),
    ar.position + v.length⟩)

/-- `serialize_obj` of an archive that reads. SRCLINE: MemoryArchive.hpp:85-106 -/
def getBytes (length : ℕ) : ArchiveM (List UInt8) := fun ar =>
  if length = 0 then .ok ([], ar)
  else if ar.memory.length < ar.position + length then .error .outOfBounds
  else .ok ((ar.memory.drop ar.position).take length, ⟨ar.memory, ar.position + length⟩)

def littleEndian : ℕ → ℕ → List UInt8
  | 0, _ => []
  | n + 1, v => UInt8.ofNat v :: littleEndian n (v / 256)

def ofLittleEndian : List UInt8 → ℕ
  | [] => 0
  | b :: bs => b.toNat + 256 * ofLittleEndian bs

/-- `operator<<` of the unsigned integers of a size. SRCLINE: Archive.hpp:93-124 -/
def putWord (size v : ℕ) : ArchiveM Unit := putBytes (littleEndian size v)

@[inherit_doc putWord] def getWord (size : ℕ) : ArchiveM ℕ := do
  return ofLittleEndian (← getBytes size)

/-- A byte. -/
def putByte (b : UInt8) : ArchiveM Unit := putBytes [b]

@[inherit_doc putByte] def getByte : ArchiveM UInt8 := do
  return (← getBytes 1).headD 0

/-- `operator<<` of a `CompactCrc32`. SRCLINE: Archive.cpp:78-124 -/
def putCrc (config : TypeConfig) (value : BitVec 32) : ArchiveM Unit :=
  match config.crcValueSize with
  | 1 => putWord 1 value.toNat
  | 2 => putWord 2 value.toNat
  | 4 => putWord 4 value.toNat
  | _ => throw .unimplementedSize

@[inherit_doc putCrc] def getCrc (config : TypeConfig) : ArchiveM (BitVec 32) :=
  match config.crcValueSize with
  | 1 => do return BitVec.ofNat 32 (← getWord 1)
  | 2 => do return BitVec.ofNat 32 (← getWord 2)
  | 4 => do return BitVec.ofNat 32 (← getWord 4)
  | _ => throw .unimplementedSize

/-- `operator<<` of a `CompactPointer`: it is written with the size of checksums and read with the
size of pointers. SRCLINE: Archive.cpp:130-170 -/
def putPointer (config : TypeConfig) (value : BitVec 64) : ArchiveM Unit :=
  match config.crcValueSize with
  | 2 => putWord 2 value.toNat
  | 4 => putWord 4 value.toNat
  | 8 => putWord 8 value.toNat
  | _ => throw .unimplementedSize

@[inherit_doc putPointer] def getPointer (config : TypeConfig) : ArchiveM (BitVec 64) :=
  match config.pointerSize with
  | 2 => do return BitVec.ofNat 64 (← getWord 2)
  | 4 => do return BitVec.ofNat 64 (← getWord 4)
  | _ => throw .unimplementedSize

/-- The bytes after the first one. SRCLINE: Archive.cpp:235-263 -/
def putIndexRest (idx : ℕ) : ArchiveM Unit :=
  if 0x1fff < idx then do
    putByte (UInt8.ofNat ((idx >>> 6) &&& 0x7f) ||| 0x80)
    if 0xfffff < idx then do
      putByte (UInt8.ofNat ((idx >>> 13) &&& 0x7f) ||| 0x80)
      if 0x7ffffff < idx then do
        putByte (UInt8.ofNat ((idx >>> 20) &&& 0x7f) ||| 0x80)
        putByte (UInt8.ofNat (idx >>> 27))
      else putByte (UInt8.ofNat ((idx >>> 20) &&& 0x7f))
    else putByte (UInt8.ofNat ((idx >>> 13) &&& 0x7f))
  else putByte (UInt8.ofNat ((idx >>> 6) &&& 0x7f))

/-- `operator<<` of a `CompactIndex` that is written. SRCLINE: Archive.cpp:216-266 -/
def putIndex (value : BitVec 32) : ArchiveM Unit :=
  if value = BitVec.intMin 32 then throw .overflow
  else
    let sign : UInt8 := if value.toInt < 0 then 0x40 else 0
    let idx := value.toInt.natAbs
    if 0x3f < idx then do
      putByte (UInt8.ofNat (idx &&& 0x3f) ||| sign ||| 0x80)
      putIndexRest idx
    else putByte (UInt8.ofNat (idx &&& 0x3f) ||| sign)

/-- The bytes after the first one, and the number so far.
SRCLINE: Archive.cpp:188-209 -/
def getIndexRest (val : ℕ) : ArchiveM ℕ := do
  let b ← getByte
  let val := val ||| ((b &&& 0x7f).toNat <<< 6)
  if b &&& 0x80 = 0 then return val
  else
    let b ← getByte
    let val := val ||| ((b &&& 0x7f).toNat <<< 13)
    if b &&& 0x80 = 0 then return val
    else
      let b ← getByte
      let val := val ||| ((b &&& 0x7f).toNat <<< 20)
      if b &&& 0x80 = 0 then return val
      else
        let b ← getByte
        return val ||| (b.toNat <<< 27)

/-- `operator<<` of a `CompactIndex` that is read. SRCLINE: Archive.cpp:176-215 -/
def getIndex : ArchiveM (BitVec 32) := do
  let b ← getByte
  let val ← (if b &&& 0x80 = 0 then pure (b &&& 0x3f).toNat
    else getIndexRest (b &&& 0x3f).toNat : ArchiveM ℕ)
  return if b &&& 0x40 ≠ 0 then -BitVec.ofNat 32 val else BitVec.ofNat 32 val

/-- A size or a count: a container is resized to it, or made room for. -/
def getCount : ArchiveM ℕ := do
  let value ← getIndex
  if value.toInt < 0 then throw .lengthError else return value.toNat

/-- A size or a count is cast to an `int`. -/
def putCount (count : ℕ) : ArchiveM Unit := putIndex (BitVec.ofNat 32 count)

/-- The length of a string and its bytes. -/
def putName (name : Text) : ArchiveM Unit := do
  putCount name.length
  putBytes name

@[inherit_doc putName] def getName : ArchiveM Text := do
  getBytes (← getCount)

/-! ## Buffers -/

/-- SRCLINE: RelocationTable.hpp:24-27 -/
structure Relocation where
  offset : BitVec 64
  type : UInt8
  targetName : Text
  deriving DecidableEq

/-- SRCLINE: LabelTable.hpp:13-21 -/
structure MemoryLabel where
  name : Text
  offset : BitVec 64
  segment : Object
  info : Object

/-- Labels, by name. SRCLINE: LabelTable.hpp:138-140 -/
structure LabelTable where
  labels : List MemoryLabel
  distinct : (labels.map (·.name)).Nodup

namespace LabelTable

def empty : LabelTable := ⟨[], .nil⟩

/-- `m_labels[label->name] = label`. -/
def insert (t : LabelTable) (l : MemoryLabel) : LabelTable where
  labels := t.labels.filter (·.name ≠ l.name) ++ [l]
  distinct := by
    rw [List.map_append, List.map_singleton, List.nodup_append]
    refine ⟨t.distinct.sublist (List.filter_sublist.map _), List.nodup_singleton _, ?_⟩
    intro name hname other hother
    obtain ⟨m, hm, rfl⟩ := List.mem_map.mp hname
    rw [List.mem_singleton.mp hother]
    simpa using (List.mem_filter.mp hm).2

end LabelTable

/-- SRCLINE: MemoryBuffer.hpp:29-34, MemoryRegion.hpp:22-25 -/
structure MemoryBuffer where
  base : BitVec 32
  data : List UInt8
  symbols : List Text
  relocs : List Relocation
  labels : LabelTable

variable (config : TypeConfig)

/-- `MemoryRegion::serialize`. SRCLINE: MemoryRegion.hpp:69-100 -/
def writeRegion (base : BitVec 32) (data : List UInt8) : ArchiveM Unit := do
  putIndex 1
  putCount data.length
  putWord 4 base.toNat
  putBytes data

@[inherit_doc writeRegion] def readRegion : ArchiveM (BitVec 32 × List UInt8) := do
  let _ ← getIndex
  let size ← getCount
  let base ← getWord 4
  return (BitVec.ofNat 32 base, ← getBytes size)

/-- `MemorySymbolTable::serialize`. SRCLINE: MemorySymbolTable.hpp:24-44, 113-138 -/
def writeSymbols (symbols : List Text) : ArchiveM Unit := do
  putCrc config 0x53594D54
  putCount symbols.length
  Archived.each putName symbols

@[inherit_doc writeSymbols] def readSymbols : ArchiveM (List Text) := do
  let _ ← getCrc config
  Archived.times getName (← getCount)

/-- `Relocation::serialize`. SRCLINE: RelocationTable.hpp:29-54 -/
def writeRelocation (r : Relocation) : ArchiveM Unit := do
  putIndex (r.offset.setWidth 32)
  putByte r.type
  putName r.targetName

@[inherit_doc writeRelocation] def readRelocation : ArchiveM Relocation := do
  let off ← getIndex
  let type ← getByte
  return ⟨off.signExtend 64, type, ← getName⟩

/-- `RelocationTable::serialize`. SRCLINE: RelocationTable.hpp:94-118 -/
def writeRelocs (relocs : List Relocation) : ArchiveM Unit := do
  putCrc config 0x52454C4F
  putCount relocs.length
  Archived.each writeRelocation relocs

@[inherit_doc writeRelocs] def readRelocs : ArchiveM (List Relocation) := do
  let _ ← getCrc config
  Archived.times readRelocation (← getCount)

/-- `MemoryLabel::serialize`; the segment and the info of a label that is read stay null.
SRCLINE: LabelTable.hpp:79-130, Object.hpp:214-216 -/
def writeLabel (l : MemoryLabel) : ArchiveM Unit := do
  putCrc config 0x4D4C424C
  putIndex 1
  putName l.name
  putPointer config l.offset

@[inherit_doc writeLabel] def readLabel : ArchiveM MemoryLabel := do
  let _ ← getCrc config
  let _ ← getIndex
  let name ← getName
  return ⟨name, ← getPointer config, .emptyList, .emptyList⟩

/-- `LabelTable::serialize`. SRCLINE: LabelTable.hpp:198-229 -/
def writeLabels (t : LabelTable) : ArchiveM Unit := do
  putCrc config 0x4C41424C
  putIndex 2
  putCount t.labels.length
  Archived.each (writeLabel config) t.labels

@[inherit_doc writeLabels] def readLabels : ArchiveM LabelTable := do
  let _ ← getCrc config
  let _ ← getIndex
  return (← Archived.times (readLabel config) (← getCount)).foldl LabelTable.insert .empty

/-- `MemoryBuffer::serialize`. SRCLINE: MemoryBuffer.hpp:68-80 -/
def writeBuffer (b : MemoryBuffer) : ArchiveM Unit := do
  writeRegion b.base b.data
  writeSymbols config b.symbols
  writeRelocs config b.relocs
  writeLabels config b.labels

@[inherit_doc writeBuffer] def readBuffer : ArchiveM MemoryBuffer := do
  let (base, data) ← readRegion
  let symbols ← readSymbols config
  let relocs ← readRelocs config
  return ⟨base, data, symbols, relocs, ← readLabels config⟩

end Soot.Program.Script
