import Soot.Computation.Texts

/-!
# Texts taken apart

Splitting a text at a delimiter, and the characters of a UTF-8 text.
-/

set_option autoImplicit false

namespace Soot.Program

open Soot.Computation

/-! ## Splitting -/

/-- `find`: where the delimiter occurs first. -/
def findText (delimiter : Text) : Text → Option ℕ
  | [] => if delimiter = [] then some 0 else none
  | b :: s => if delimiter.isPrefixOf (b :: s) then some 0 else (findText delimiter s).map (· + 1)

/-- The loop of `split_string` from `pos` on, with a bound for its turns: what lies from `pos` on is
given. SRCLINE: StringUtil.cpp:105-119 -/
def splitString (delimiter : Text) : ℕ → Text → Option (List Text)
  | 0, _ => none
  | turns + 1, rest =>
    match findText delimiter rest with
    | none => some [rest]
    | some found =>
      (splitString delimiter turns (rest.drop (found + delimiter.length))).map
        (rest.take found :: ·)

/-! ## UTF-8 -/

/-- What `next_utf8_char` returns, the index after it, and the indices that it has read. -/
structure CharRead where
  codePoint : ℕ
  index : ℕ
  reads : List ℕ
  deriving DecidableEq

/-- `next_utf8_char`. The byte at the size is the terminator; what lies behind it, which is not
known, is taken as zero. SRCLINE: StringUtil.cpp:258-280 -/
def nextUtf8Char (s : Text) (i : ℕ) : CharRead :=
  let byteAt := fun k => (s.getD k 0).toNat
  let c := byteAt i
  if c < 0x80 then ⟨c, i + 1, [i]⟩
  else if c >>> 5 = 0x6 then
    ⟨(c &&& 0x1F) <<< 6 ||| (byteAt (i + 1) &&& 0x3F), i + 2, [i, i + 1]⟩
  else if c >>> 4 = 0xE then
    ⟨(c &&& 0x0F) <<< 12 ||| (byteAt (i + 1) &&& 0x3F) <<< 6 ||| (byteAt (i + 2) &&& 0x3F), i + 3,
      [i, i + 1, i + 2]⟩
  else if c >>> 3 = 0x1E then
    ⟨(c &&& 0x07) <<< 18 ||| (byteAt (i + 1) &&& 0x3F) <<< 12 ||| (byteAt (i + 2) &&& 0x3F) <<< 6 |||
      (byteAt (i + 3) &&& 0x3F), i + 4, [i, i + 1, i + 2, i + 3]⟩
  else ⟨0, i + 1, [i]⟩

/-- `utf8_encode`. SRCLINE: StringUtil.cpp:282-299 -/
def utf8Encode (cp : ℕ) : Text :=
  if cp ≤ 0x7F then [UInt8.ofNat cp]
  else if cp ≤ 0x7FF then
    [UInt8.ofNat (0xC0 ||| (cp >>> 6 &&& 0x1F)), UInt8.ofNat (0x80 ||| (cp &&& 0x3F))]
  else if cp ≤ 0xFFFF then
    [UInt8.ofNat (0xE0 ||| (cp >>> 12 &&& 0x0F)), UInt8.ofNat (0x80 ||| (cp >>> 6 &&& 0x3F)),
      UInt8.ofNat (0x80 ||| (cp &&& 0x3F))]
  else if cp ≤ 0x10FFFF then
    [UInt8.ofNat (0xF0 ||| (cp >>> 18 &&& 0x07)), UInt8.ofNat (0x80 ||| (cp >>> 12 &&& 0x3F)),
      UInt8.ofNat (0x80 ||| (cp >>> 6 &&& 0x3F)), UInt8.ofNat (0x80 ||| (cp &&& 0x3F))]
  else []

end Soot.Program
