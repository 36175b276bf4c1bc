import Soot.Computation.Texts
import Soot.Program.StringId

/-!
# The string pool of the data segment

A flat buffer in which every string is followed by a zero byte, with an index from the contents of
a string to its offset. Readers take a string up to its first zero byte.
-/

set_option autoImplicit false

namespace Soot.Program.DataSegment

open Soot.Computation

/-- `StringPool`. SRCLINE: DataSegment.hpp:27-68 -/
structure StringPool where
  bytes : List UInt8
  offsets : List UInt32
  index : List (Text × UInt32)

namespace StringPool

def empty : StringPool := ⟨[], [], []⟩

/-- `lookup_or_add`. The size of the buffer is cast to 32 bits.
SRCLINE: DataSegment.hpp:32-42 -/
def lookupOrAdd (p : StringPool) (s : Text) : UInt32 × StringPool :=
  match p.index.lookup s with
  | some offset => (offset, p)
  | none =>
    let offset := UInt32.ofNat p.bytes.length
    (offset, ⟨p.bytes ++ (s ++ [0]), p.offsets ++ [offset], (s, offset) :: p.index⟩)

/-- `get_offset`. SRCLINE: DataSegment.hpp:46-52 -/
def getOffset (p : StringPool) (s : Text) : Except Text UInt32 :=
  match p.index.lookup s with
  | some offset => .ok offset
  | none => .error (text "StringPool: string not present: " ++ s)

/-- `get_at`: the bytes from the address returned on. SRCLINE: DataSegment.hpp:60-62 -/
def getAt (p : StringPool) (offset : UInt32) : List UInt8 := p.bytes.drop offset.toNat

end StringPool

/-- The string that a `const char *` stands for. -/
def cString (bytes : List UInt8) : Text := bytes.takeWhile (· ≠ 0)

end Soot.Program.DataSegment
