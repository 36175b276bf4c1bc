import Soot.Program.SidBase

/-!
# Memory regions

A region of bytes with the address of its first byte, and its export as a file of the Intel HEX
format.
-/

set_option autoImplicit false

namespace Soot.Program

open Soot.Computation
open SidTable (hexDigit)

/-- `MemoryRegion`. SRCLINE: MemoryRegion.hpp:23-26 -/
structure MemoryRegion where
  data : List UInt8
  base : BitVec 32

/-- A byte as `{:02X}` writes it. -/
def hexByte (b : UInt8) : Text := [hexDigit (b.toNat / 16), hexDigit (b.toNat % 16)]

/-- The checksum of a record: the two's complement of the sum of its bytes.
SRCLINE: MemoryRegion.cpp:75-83 -/
def checksum (bytes : List UInt8) : UInt8 := ~~~ bytes.foldl (· + ·) 0 + 1

/-- `format_hex_record`. SRCLINE: MemoryRegion.cpp:73-85 -/
def formatHexRecord (addr : UInt16) (type : UInt8) (data : List UInt8) : Text :=
  let bytes := [UInt8.ofNat data.length, (addr >>> 8).toUInt8, addr.toUInt8, type] ++ data
  byte ':' :: bytes.flatMap hexByte ++ hexByte (checksum bytes) ++ [byte '\n']

/-- The arguments of `export_intel_hex_file`, but for the path. -/
structure HexExport where
  region : MemoryRegion
  startOffset : ℕ
  endOffset : ℕ
  newbase : ℕ
  append : Bool

namespace HexExport

variable (e : HexExport)

/-- SRCLINE: MemoryRegion.cpp:98-99 -/
def origin : ℕ := if e.newbase = 0 then e.region.base.toNat else e.newbase

/-- SRCLINE: MemoryRegion.cpp:106-107 -/
def actualEnd : ℕ :=
  if e.endOffset = 0 ∨ e.endOffset ≥ e.region.data.length then e.region.data.length - 1
  else e.endOffset

/-- Neither check throws. SRCLINE: MemoryRegion.cpp:102-111 -/
def Accepted : Prop := e.startOffset < e.region.data.length ∧ e.startOffset ≤ e.actualEnd

instance : Decidable e.Accepted := by unfold Accepted; infer_instance

/-- The record at an offset. SRCLINE: MemoryRegion.cpp:117-124 -/
def dataRecord (i : ℕ) : Text :=
  formatHexRecord (UInt16.ofNat (e.origin + i)) 0
    ((e.region.data.drop i).take (min 16 (e.actualEnd - i + 1)))

/-- The loop over the offsets. SRCLINE: MemoryRegion.cpp:115-125 -/
def dataRecords (i : ℕ) : Text :=
  if i ≤ e.actualEnd then e.dataRecord i ++ dataRecords (i + 16) else []
termination_by e.actualEnd + 1 - i

/-- The call writes the marker of the end of the file.
SRCLINE: MemoryRegion.cpp:128 -/
def marks : Bool := !e.append || e.startOffset = 0

/-- `full_content`. SRCLINE: MemoryRegion.cpp:113-130 -/
def fullContent : Text :=
  e.dataRecords e.startOffset ++ if e.marks then text ":00000001FF\n" else []

end HexExport

/-- `export_intel_hex_file` on the file that is there: its bytes after the call. A call that
throws leaves the file alone. SRCLINE: MemoryRegion.cpp:97-159 -/
def exportIntelHexFile (file : Text) (e : HexExport) : Text :=
  if e.Accepted then (if e.append then file else []) ++ e.fullContent else file

/-- The export of the whole region. SRCLINE: MemoryRegion.cpp:90-92 -/
def MemoryRegion.export (region : MemoryRegion) (append : Bool) : HexExport :=
  ⟨region, 0, region.data.length - 1, region.base.toNat, append⟩

end Soot.Program
