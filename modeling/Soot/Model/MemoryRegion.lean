import Soot.Computation.IntelHex
import Soot.Program.MemoryRegion

/-!
# Exported regions

What a reader of the Intel HEX format finds in the files of `export_intel_hex_file`.
-/

set_option autoImplicit false

namespace Soot.Model

open Soot.Computation Soot.Program

/-- The last element of a list, and no other one, has a property. -/
def OnlyLast {α : Type} (p : α → Prop) : List α → Prop
  | [] => False
  | [a] => p a
  | a :: b :: l => ¬ p a ∧ OnlyLast p (b :: l)

/-- The bytes of the region from the first offset to the last one, each at its offset from the
new base. -/
def wanted (e : HexExport) : List (UInt8 × ℕ) :=
  ((e.region.data.drop e.startOffset).take (e.actualEnd + 1 - e.startOffset)).zipIdx
    (e.origin + e.startOffset)

def ReadsBack (wraps : Bool) (e : HexExport) : Prop :=
  ∃ rs, HexRecord.decode e.fullContent = some rs ∧ HexRecord.placed wraps 0 rs = wanted e

def fileAfter (exports : List HexExport) : Text := exports.foldl exportIntelHexFile []

/-- Every accepted call is read back, and the file of the calls ends with its one record for the
end of the file. -/
def ExportsRegions (wraps : Bool) (exports : List HexExport) : Prop :=
  (∀ e ∈ exports, e.Accepted → ReadsBack wraps e) ∧
    ((∃ e ∈ exports, e.Accepted) →
      ∃ rs, HexRecord.decode (fileAfter exports) = some rs ∧ OnlyLast (·.type = 1) rs)

/-- The highest address that is written as 16 bits: that of the last record, or of the last byte
where addresses start again at zero. -/
def highestAddress (wraps : Bool) (e : HexExport) : ℕ :=
  e.origin + if wraps then e.actualEnd
    else e.startOffset + 16 * ((e.actualEnd - e.startOffset) / 16)

/-- The accepted calls since the last one that began the file anew. -/
def keptExports (exports : List HexExport) : List HexExport :=
  exports.foldl (fun l e => if e.Accepted then (if e.append then l else []) ++ [e] else l) []

end Soot.Model
