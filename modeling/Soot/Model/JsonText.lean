import Mathlib.Data.List.Infix
import Soot.Program.JsonText

/-!
# Texts with comments

What a text with comments is, as JSON has it: tokens, string literals with escapes, and comments
between them. Next to it, a reading of any text, one byte after the other, that says what is open
at its end.
-/

set_option autoImplicit false

namespace Soot.Model

open Soot.Computation

/-- A part of the body of a string literal: a byte that stands for itself, or a backslash and the
byte that it escapes. -/
inductive LiteralPart where
  | plain (b : UInt8) (stands : b ≠ byte '"' ∧ b ≠ byte '\\')
  | escape (b : UInt8)

def LiteralPart.text : LiteralPart → Text
  | .plain b _ => [b]
  | .escape b => [byte '\\', b]

def bodyText (parts : List LiteralPart) : Text := parts.flatMap LiteralPart.text

/-- A piece of a text with comments. A token that is no string, and white space, has no slash, no
quote and no backslash. -/
inductive Piece where
  | token (bytes : Text) (plain : ∀ b ∈ bytes, b ≠ byte '/' ∧ b ≠ byte '"' ∧ b ≠ byte '\\')
  | literal (body : List LiteralPart)
  | lineComment (body : Text) (line : byte '\n' ∉ body)
  | blockComment (body : Text) (inner : ¬ [byte '*', byte '/'] <:+: body)

namespace Piece

def text : Piece → Text
  | .token bytes _ => bytes
  | .literal body => byte '"' :: bodyText body ++ [byte '"']
  | .lineComment body _ => byte '/' :: byte '/' :: body
  | .blockComment body _ => byte '/' :: byte '*' :: body ++ [byte '*', byte '/']

def kept : Piece → Text
  | .lineComment _ _ => []
  | .blockComment _ _ => []
  | p => p.text

end Piece

def written (pieces : List Piece) : Text := pieces.flatMap Piece.text

def withoutComments (pieces : List Piece) : Text := pieces.flatMap Piece.kept

def LinesEnd : List Piece → Prop
  | [] => True
  | .lineComment _ _ :: rest =>
    ((written rest).head? = none ∨ (written rest).head? = some (byte '\n')) ∧ LinesEnd rest
  | _ :: rest => LinesEnd rest

/-- The bytes of a `//` or of a `/*`. -/
def HasMarker (bytes : Text) : Prop :=
  [byte '/', byte '/'] <:+: bytes ∨ [byte '/', byte '*'] <:+: bytes

/-- From a place on, where `waiting` says that a literal before it ended in a backslash: such a
literal is followed, before any comment and before the end, by one that holds a quote and does not
end in a backslash, and no literal up to this quote holds a comment marker. -/
def Recovers : Bool → List Piece → Prop
  | waiting, [] => waiting = false
  | waiting, .token _ _ :: rest => Recovers waiting rest
  | waiting, .lineComment _ _ :: rest => waiting = false ∧ Recovers false rest
  | waiting, .blockComment _ _ :: rest => waiting = false ∧ Recovers false rest
  | false, .literal body :: rest =>
    Recovers ((bodyText body).getLast? = some (byte '\\')) rest
  | true, .literal body :: rest =>
    ¬ HasMarker ((bodyText body).takeWhile (· ≠ byte '"')) ∧
      Recovers (byte '"' ∉ bodyText body ∨ (bodyText body).getLast? = some (byte '\\')) rest

/-! ## Any text -/

/-- What a place in a text is in. `slash` and `star` come after a byte that may be half a marker,
`escape` after a backslash in a literal. -/
inductive Place where
  | outside
  | slash
  | line
  | block
  | star
  | literal
  | escape
  deriving DecidableEq

def Place.next (place : Place) (b : UInt8) : Place :=
  match place with
  | .outside =>
    if b = byte '/' then .slash else if b = byte '"' then .literal else .outside
  | .slash =>
    if b = byte '/' then .line else if b = byte '*' then .block
    else if b = byte '"' then .literal else .outside
  | .line => if b = byte '\n' then .outside else .line
  | .block => if b = byte '*' then .star else .block
  | .star => if b = byte '/' then .outside else if b = byte '*' then .star else .block
  | .literal =>
    if b = byte '\\' then .escape else if b = byte '"' then .outside else .literal
  | .escape => .literal

def placeAfter (s : Text) : Place := s.foldl Place.next .outside

def Place.Open (place : Place) : Prop :=
  place = .block ∨ place = .star ∨ place = .literal ∨ place = .escape

/-- A literal of the text ends in a backslash: a quote right after one is not escaped. -/
def LiteralEndsInBackslash (s : Text) : Prop :=
  ∃ before after, s = before ++ byte '\\' :: byte '"' :: after ∧
    placeAfter (before ++ [byte '\\']) = .literal

end Soot.Model
