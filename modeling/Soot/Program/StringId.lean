import Soot.Program.Variant

/-!
# String ids and the string pool

Names reach the virtual machine as 64-bit FNV-1a hashes of their bytes. String literals are
collected in the string pool of the file's data segment, a flat buffer in which every string
is followed by a zero byte; a literal is identified by the offset of its first byte.
-/

set_option autoImplicit false

namespace Soot.Program

/-- `ToStringId64`: FNV-1a over the bytes of a C string, each byte sign-extended as `char` is.
SRCLINE: StringIdHash.cpp:5-13 -/
def stringId (s : String) : Word :=
  (s.toUTF8.toList.takeWhile (· != 0)).foldl
    (fun hash byte => 0x100000001B3 * (hash ^^^ byte.toBitVec.signExtend 64)) 0xCBF29CE484222325

/-- The pool of string literals. SRCLINE: DataSegment.hpp -/
structure StringPool where
  bytes : List UInt8
  index : List (String × ℕ)
  deriving DecidableEq

namespace StringPool

def empty : StringPool := ⟨[], []⟩

/-- `lookup_or_add`: the offset of a string, appending it when it is new. -/
def lookupOrAdd (p : StringPool) (s : String) : ℕ × StringPool :=
  match p.index.lookup s with
  | some offset => (offset, p)
  | none => (p.bytes.length, ⟨p.bytes ++ s.toUTF8.toList ++ [0], (s, p.bytes.length) :: p.index⟩)

end StringPool

end Soot.Program
