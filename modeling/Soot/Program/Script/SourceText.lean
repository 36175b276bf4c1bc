import Soot.Computation.Lines
import Soot.Program.Script.Arguments

/-!
# Source texts and positions in them

A text knows where its lines begin, and a database links forms to offsets in texts. An `int` is an
integer. A form that is a pair is its address; how a terminal shows text in colour is a parameter.
-/

set_option autoImplicit false

namespace Soot.Program.Script

open Soot.Computation

/-- `SourceText`, of which `text` is `m_text`. SRCLINE: SourceText.hpp:10-61 -/
structure SourceText where
  text : Text
  description : Text
  terminateCompilerError : Bool := true

namespace SourceText

/-- `has_bom`. SRCLINE: SourceText.hpp:44-47 -/
def hasBom (s : SourceText) : Bool := s.text.take 3 = [0xEF, 0xBB, 0xBF]

/-- `m_offset_by_line` after `build_offsets`. SRCLINE: SourceText.cpp:17-27 -/
def offsetByLine (s : SourceText) : List ℤ :=
  (if s.hasBom then 3 else 0) :: (breaks (byte '\n') s.text).map Int.ofNat ++ [(s.text.length : ℤ)]

/-- The first line between whose offset and that of the next one an offset lies.
SRCLINE: SourceText.cpp:49-53, 71-76 -/
def findLine (s : SourceText) (offset : ℤ) : Option ℕ :=
  (List.range (s.offsetByLine.length - 1)).find? fun line =>
    s.offsetByLine.getD line 0 ≤ offset ∧ offset < s.offsetByLine.getD (line + 1) 0

/-- `get_line_idx`. SRCLINE: SourceText.cpp:43-57 -/
def getLineIdx (s : SourceText) (offset : ℤ) : Except Failure ℕ :=
  if s.offsetByLine.getD 0 0 > offset then .ok 0
  else
    match s.findLine offset with
    | some line => .ok line
    | none => .error (.runtime (Computation.text
        "Unable to get line index for character at position " ++ intDigits offset))

/-- `get_offset_of_line`. SRCLINE: SourceText.cpp:59-61 -/
def getOffsetOfLine (s : SourceText) (lineIdx : ℕ) : Except Failure ℤ :=
  match s.offsetByLine[lineIdx]? with
  | some offset => .ok offset
  | none => .error .outOfRange

/-- `get_containing_line`. SRCLINE: SourceText.cpp:65-79 -/
def getContainingLine (s : SourceText) (offset : ℤ) : ℤ × ℤ :=
  let first := s.offsetByLine.getD 0 0
  match s.findLine (if first > offset then first else offset) with
  | some line => (s.offsetByLine.getD line 0, s.offsetByLine.getD (line + 1) 0 - 1)
  | none => (0, s.text.length)

/-- `get_line_containing_offset`; `substr` throws for a position beyond the end.
SRCLINE: SourceText.cpp:32-35 -/
def getLineContainingOffset (s : SourceText) (offset : ℤ) : Except Failure Text :=
  let range := s.getContainingLine offset
  if range.1 < 0 ∨ s.text.length < range.1 then .error .outOfRange
  else .ok ((s.text.drop range.1.toNat).take (max 0 (range.2 - range.1)).toNat)

end SourceText

/-- SRCLINE: SourceText.hpp:118-124 -/
structure TextRef where
  offset : ℤ
  frag : SourceText

/-- SRCLINE: TextDb.hpp:14-18 -/
structure ShortInfo where
  filename : Text
  lineText : Text
  lineNumber : ℤ
  colNumber : ℤ
  deriving DecidableEq

inductive LinkedForm where
  | null
  | pair (address : ℕ)
  | other

/-- SRCLINE: TextDb.hpp:66-113 -/
structure TextDb where
  map : ℕ → Option TextRef := fun _ => none

structure Colours where
  grey : Text → Text
  redBold : Text → Text

namespace TextDb

/-- `link`, where `none` is an assertion that fails. SRCLINE: TextDb.cpp:19-40 -/
def link (db : TextDb) (o : LinkedForm) (frag : SourceText) (offset : ℤ) : Option TextDb :=
  match o with
  | .null => some db
  | .pair address =>
    some ⟨fun a => if a = address then some ⟨offset, frag⟩ else db.map a⟩
  | .other => none

/-- The report on a place in a text. SRCLINE: TextDb.cpp:124-154 -/
def getInfoAt (C : Colours) (frag : SourceText) (offset : ℤ) : Except Failure Text := do
  let offset := max 0 (min offset (frag.text.length - 1))
  let lineIdx ← frag.getLineIdx offset
  let line ← frag.getLineContainingOffset offset
  let result := C.grey (text "  at " ++ frag.description ++ text ":" ++ digits (lineIdx + 1) ++
    text "\n") ++ text "    " ++ line
  let result := if result.getLast? = some (byte '\n') then result else result ++ text "\n"
  let offsetInLine := offset - (← frag.getOffsetOfLine lineIdx)
  let offsetInLine := if offsetInLine < 0 then 0 else offsetInLine
  return result ++ List.replicate (4 + offsetInLine).toNat (byte ' ') ++ C.redBold (text "^\n")

/-- `get_info_for`, with the flag that it sets. SRCLINE: TextDb.cpp:70-93 -/
def getInfoFor (C : Colours) (db : TextDb) (o : LinkedForm) : Except Failure (Text × Bool) :=
  match o with
  | .pair address =>
    match db.map address with
    | some ref => do return (← getInfoAt C ref.frag ref.offset, ref.frag.terminateCompilerError)
    | none => .ok (text "?", false)
  | _ => .ok (text "?", false)

/-- The short information on a place in a text. SRCLINE: TextDb.cpp:156-170 -/
def getShortInfoAt (frag : SourceText) (offset : ℤ) : Except Failure ShortInfo := do
  let lineIdx ← frag.getLineIdx offset
  let offsetInLine := max (offset - (← frag.getOffsetOfLine lineIdx)) 0
  return {
    filename := frag.description
    lineNumber := lineIdx + 1
    colNumber := offsetInLine + 1
    lineText := ← frag.getLineContainingOffset offset }

/-- `get_short_info_for`. SRCLINE: TextDb.cpp:95-106 -/
def getShortInfoFor (db : TextDb) (o : LinkedForm) : Except Failure (Option ShortInfo) :=
  match o with
  | .pair address =>
    match db.map address with
    | some ref => some <$> getShortInfoAt ref.frag ref.offset
    | none => .ok none
  | _ => .ok none

/-- A file's name without its directories, unless nothing is left.
SRCLINE: TextDb.cpp:178-187 -/
def shortenPath (filename : Text) : Text :=
  let start := (filename.zipIdx.filter fun (c, _) => c = byte '/' ∨ c = byte '\\').getLast?.map
    (·.2 + 1)
  if start.getD 0 < filename.length then filename.drop (start.getD 0) else filename

/-- `try_get_short_info`; a string of a negative length cannot be made.
SRCLINE: TextDb.cpp:172-217 -/
def tryGetShortInfo (db : TextDb) (o : LinkedForm) : Except Failure (Option ShortInfo) :=
  match o with
  | .pair address =>
    match db.map address with
    | some ref => do
      let lineIdx ← ref.frag.getLineIdx ref.offset
      let offsetOfThisLine ← ref.frag.getOffsetOfLine lineIdx
      let offsetOfNextLine ← ref.frag.getOffsetOfLine (lineIdx + 1)
      let lineLength := offsetOfNextLine - offsetOfThisLine
      let startOffsetInLine := ref.offset - offsetOfThisLine
      if lineLength - 1 < 0 then throw (.runtime (text "basic_string::_M_create"))
      return some {
        filename := shortenPath ref.frag.description
        lineNumber := lineIdx + 1
        colNumber := max startOffsetInLine 0 + 1
        lineText := (ref.frag.text.drop offsetOfThisLine.toNat).take (lineLength - 1).toNat }
    | none => .ok none
  | _ => .ok none

end TextDb

end Soot.Program.Script
