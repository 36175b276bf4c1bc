import Soot.Program.Script.Strings

/-!
# Texts as sequences of characters

A text is walked character by character. It is whole when its units, each as long as its first byte
says, fill it.
-/

set_option autoImplicit false

namespace Soot.Model

open Soot.Computation Soot.Program

/-- The walk `while (i < s.size())`, with a bound for its turns: what each turn gives, and the index
at the end. -/
def walkUtf8 (s : Text) : ℕ → ℕ → List CharRead × ℕ
  | 0, i => ([], i)
  | turns + 1, i =>
    if i < s.length then
      let char := nextUtf8Char s i
      let later := walkUtf8 s turns char.index
      (char :: later.1, later.2)
    else ([], i)

/-- The walk over a whole text. A turn moves on by at least one byte. -/
def utf8Walk (s : Text) : List CharRead × ℕ := walkUtf8 s s.length 0

def unitLength (lead : UInt8) : ℕ :=
  if lead.toNat < 0x80 then 1
  else if lead.toNat >>> 5 = 0x6 then 2
  else if lead.toNat >>> 4 = 0xE then 3
  else if lead.toNat >>> 3 = 0x1E then 4
  else 1

inductive Whole : Text → Prop where
  | nil : Whole []
  | unit (lead : UInt8) (more rest : Text) (long : more.length + 1 = unitLength lead)
      (whole : Whole rest) : Whole (lead :: (more ++ rest))

structure WalkedInside (s : Text) : Prop where
  reads : ∀ char ∈ (utf8Walk s).1, ∀ k ∈ char.reads, k < s.length
  finish : (utf8Walk s).2 = s.length

/-- The walk over the encoding of some code points gives them back and ends at its size. -/
structure Decoded (cps : List ℕ) : Prop where
  chars : (utf8Walk (cps.flatMap utf8Encode)).1.map CharRead.codePoint = cps
  finish : (utf8Walk (cps.flatMap utf8Encode)).2 = (cps.flatMap utf8Encode).length

end Soot.Model

/-! ## Strings that come back from their pieces -/

namespace Soot.Model.Script

open Soot.Computation Soot.Program Soot.Program.Script

/-- `string-split` comes to an end, with an error or with a list, of which no piece holds the
delimiter and from which `string-join` makes the string again. -/
def SplitsAndJoins (P : Printing) (form : Script.Object) (s d : Text) : Prop :=
  ∃ turns,
    (∃ e, e ≠ .unfinished ∧
      evalStringSplit P form turns { unnamed := [.string s, .string d] } = .error e) ∨
    ∃ list, evalStringSplit P form turns { unnamed := [.string s, .string d] } = .ok list ∧
      (∀ piece ∈ list.elements, ∀ name, piece = .symbol name → ¬ d <:+: name) ∧
      evalStringJoin P form { unnamed := [list, .string d] } = .ok (.string s)

/-- The string is made of pieces without a zero byte, with the delimiter between them. -/
def JoinedFromCStrings (s d : Text) : Prop :=
  ∃ pieces, pieces ≠ [] ∧ (∀ piece ∈ pieces, 0 ∉ piece) ∧ d.intercalate pieces = s

end Soot.Model.Script
