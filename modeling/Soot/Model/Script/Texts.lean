import Soot.Program.Script.Reader
import Soot.Program.Script.SourceText

/-!
# Reading and printing script texts

The vocabulary for the reader, the round trip through the printer and the positions of a text.
-/

set_option autoImplicit false

namespace Soot.Model.Script

open Soot.Computation Soot.Program.Script

/-!
## Reading as a relation

What the mutually recursive functions of the reader do, with a rule for each of their branches and
no count of calls. A rule names the token that its branch looks at; the branch of an array is not
among them, since no token starts with `#(`.
-/

inductive Escape : Text → UInt8 → Prop where
  | newline : Escape [byte 'n'] (byte '\n')
  | tab : Escape [byte 't'] (byte '\t')
  | backslash : Escape [byte '\\'] (byte '\\')
  | quote : Escape [byte '"'] (byte '"')
  | code {a b : UInt8} {high low : ℕ} (first : hexValue a = some high)
      (second : hexValue b = some low) :
      Escape [byte 'c', a, b] (UInt8.ofNat (16 * high + low))

/-- The string that a text starts with, up to its closing quote, and what remains. -/
inductive ReadsString : Text → Text → Text → Prop where
  | close {rest : Text} : ReadsString (byte '"' :: rest) [] rest
  | plain {s str rest : Text} {c : UInt8} (open' : c ≠ byte '"') (unescaped : c ≠ byte '\\')
      (more : ReadsString s str rest) : ReadsString (c :: s) (c :: str) rest
  | escape {e s str rest : Text} {c : UInt8} (means : Escape e c) (more : ReadsString s str rest) :
      ReadsString (byte '\\' :: (e ++ s)) (c :: str) rest

def terminatorOf (tok : Text) : Option Text :=
  if tok = text "(" then some (text ")")
  else if tok = text "[" then some (text "]")
  else none

/-- `read_object` for a token that does not start an array. -/
def readAtom (R : ReaderEnvironment) (tok s : Text) : Except ReadError (Option (Object × Text)) :=
  let failed (what : Text) := text "parsing token " ++ tok ++ text " failed: " ++ what
  match tryTokenAsNumber R tok with
  | .error what => .error (.message (failed what))
  | .ok (some o) => .ok (some (o, s))
  | .ok none =>
    if tok.head? = some (byte '"') then
      if tok.length ≠ 1 then .error .assertion
      else match readString s with
        | .error err => .error (.message (failed err))
        | .ok (some (str, rest)) => .ok (some (.string str, rest))
        | .ok none =>
          .error (.message (failed (text "failed to read string, close quote not found")))
    else match tryTokenAsChar tok with
      | some o => .ok (some (o, s))
      | none => .ok ((tryTokenAsSymbol R tok).map (·, s))

/-- An element of a list: a list is read by `read_list` itself.
SRCLINE: Reader.cpp:659-671 -/
def readElement (R : ReaderEnvironment) (n : ℕ) (tok rest s : Text) :
    Except ReadError (Object × Text) :=
  match terminatorOf tok with
  | some terminator => readList R n terminator [] false none rest
  | none => readSingleForm R n s

inductive Pending where
  | form
  | list (terminator : Text) (pairs : List Object) (gotDot : Bool) (afterDot : Option Object)

def Pending.read (R : ReaderEnvironment) (n : ℕ) :
    Pending → Text → Except ReadError (Object × Text)
  | form => readSingleForm R n
  | list terminator pairs gotDot afterDot => readList R n terminator pairs gotDot afterDot

def Pending.calls (s : Text) : Pending → ℕ
  | form => 2 * s.length + 1
  | list _ _ _ _ => 2 * s.length + 2

inductive Reads (R : ReaderEnvironment) : Pending → Text → Object → Text → Prop where
  | nothing {s rest : Text} (token : getNextToken s = ([], rest)) :
      Reads R .form s .emptyList rest
  | quotation {s tok rest replacement rest' : Text} {inner : Object}
      (token : getNextToken s = (tok, rest)) (replaced : readerMacro tok = some replacement)
      (reads : Reads R .form rest inner rest') :
      Reads R .form s (.ofList [.symbol replacement, inner]) rest'
  | list {s tok rest terminator rest' : Text} {o : Object}
      (token : getNextToken s = (tok, rest)) (opens : terminatorOf tok = some terminator)
      (reads : Reads R (.list terminator [] false none) rest o rest') :
      Reads R .form s o rest'
  | atom {s tok rest rest' : Text} {o : Object}
      (token : getNextToken s = (tok, rest)) (nonempty : tok ≠ [])
      (kept : readerMacro tok = none) (closed : terminatorOf tok = none)
      (read : readAtom R tok rest = .ok (some (o, rest'))) :
      Reads R .form s o rest'
  | invalid {s tok rest : Text}
      (token : getNextToken s = (tok, rest)) (nonempty : tok ≠ [])
      (kept : readerMacro tok = none) (closed : terminatorOf tok = none)
      (read : readAtom R tok rest = .ok none) :
      Reads R .form s .emptyList rest
  | terminator {s rest terminator : Text} {pairs : List Object} {gotDot : Bool}
      {afterDot : Option Object} (token : getNextToken s = (terminator, rest))
      (nonempty : terminator ≠ []) :
      Reads R (.list terminator pairs gotDot afterDot) s
        (.ofListWith (afterDot.getD .emptyList) pairs) rest
  | dot {s rest rest' terminator : Text} {pairs : List Object} {afterDot : Option Object}
      {o : Object} (token : getNextToken s = (text ".", rest)) (other : terminator ≠ text ".")
      (nonempty : pairs ≠ []) (reads : Reads R (.list terminator pairs true afterDot) rest o rest') :
      Reads R (.list terminator pairs false afterDot) s o rest'
  | element {s tok rest rest₁ rest' terminator : Text} {pairs : List Object}
      {afterDot : Option Object} {o list : Object}
      (token : getNextToken s = (tok, rest)) (nonempty : tok ≠ []) (other : tok ≠ terminator)
      (undotted : tok ≠ text ".") (reads : Reads R .form s o rest₁)
      (more : Reads R (.list terminator (pairs ++ [o]) false none) rest₁ list rest') :
      Reads R (.list terminator pairs false afterDot) s list rest'
  | tail {s tok rest rest₁ rest' terminator : Text} {pairs : List Object} {o list : Object}
      (token : getNextToken s = (tok, rest)) (nonempty : tok ≠ []) (other : tok ≠ terminator)
      (undotted : tok ≠ text ".") (reads : Reads R .form s o rest₁)
      (more : Reads R (.list terminator pairs true (some o)) rest₁ list rest') :
      Reads R (.list terminator pairs true none) s list rest'

inductive ReadsForms (R : ReaderEnvironment) : Text → List Object → Prop where
  | done {s : Text} (ends : seekPast .outer s = []) : ReadsForms R s []
  | form {s rest : Text} {o : Object} {forms : List Object} (remains : seekPast .outer s ≠ [])
      (reads : Reads R .form s o rest) (more : ReadsForms R rest forms) :
      ReadsForms R s (o :: forms)

/-!
## Printing and reading again

Which data the printer and the reader are meant for (`IsDatum`), what it is for one of them to come
back (`RoundTrips`), and what the two really agree on (`Legible`): integers, printable characters,
symbols that are one token, strings without quote and backslash, and lists of these, where the empty
list is not an element and no element is an array.
-/

/-- Integers, symbols of the reader's characters that are not numerals, strings without a null
byte, characters, and lists and arrays of these. -/
inductive IsDatum (R : ReaderEnvironment) : Object → Prop where
  | int (i : Program.I64) : IsDatum R (.int i)
  | symbol {name : Text} (valid : name.all (validSymbolChar R) = true)
      (number : tryTokenAsNumber R name = .ok none) : IsDatum R (.symbol name)
  | string {data : Text} (nonNull : (0 : UInt8) ∉ data) : IsDatum R (.string data)
  | char (c : UInt8) : IsDatum R (.char c)
  | emptyList : IsDatum R .emptyList
  | pair {car cdr : Object} (first : IsDatum R car) (rest : IsDatum R cdr) :
      IsDatum R (.pair car cdr)
  | array {data : List Object} (elements : ∀ o ∈ data, IsDatum R o) : IsDatum R (.array data)

def RoundTrips (R : ReaderEnvironment) (P : Printing) (C : Comparison) (d : Object) : Prop :=
  ∃ d', readFromString R (d.print P) = .ok (.pair (.symbol (text "top-level")) (.ofList [d'])) ∧
    d'.equal C d = .ok true

/-- A symbol that the reader takes for one token, and for a symbol, wherever it stands. -/
def PlainSymbol (name : Text) : Prop :=
  name ≠ [] ∧ name ≠ text "." ∧ name ≠ text ":" ∧
    if name.take 2 = text "#\\" then
      name.drop 2 ≠ [] ∧ byte ';' ∉ name.drop 3 ∧ (tryTokenAsChar name).isNone
    else byte ',' ∉ name ∧ byte ';' ∉ name

/-- What is printed as the reader reads it, as an element of a list or as a list's tail. -/
def Legible : Bool → Object → Prop
  | _, .pair car cdr => Legible false car ∧ Legible true cdr
  | inTail, .emptyList => inTail = true
  | _, .int _ => True
  | _, .char c => isPrintable c ∧ c ≠ byte ' '
  | _, .symbol name => PlainSymbol name
  | _, .string data => byte '"' ∉ data ∧ byte '\\' ∉ data
  | _, _ => False

/-- What is printed as the reader reads it by itself: there a dot is a symbol, and so is the start
of a character's name with nothing after it; but the bytes of an encoding are passed over. -/
def LegibleAlone : Object → Prop
  | .symbol name =>
    (PlainSymbol name ∨ name = text "." ∨ name = text "#\\") ∧ name.take 3 ≠ [0xEF, 0xBB, 0xBF]
  | d => Legible false d

/-!
## Positions in a source text

The line of an offset is what lies between the newlines around it, a byte order mark not being part
of the first line. A text is `Located` at an offset if all that is asked about the offset, of the
text or of a form that is linked to it, is answered with that line, its number and the offset's
column.
-/

section

variable (s : SourceText) (offset : ℕ)

def newlinesBefore : ℕ := (s.text.take offset).count (byte '\n')

def lineHead : Text := (s.text.take offset).rtakeWhile (· ≠ byte '\n')

def lineTail : Text := (s.text.drop offset).takeWhile (· ≠ byte '\n')

def markLength : ℕ := if s.hasBom ∧ newlinesBefore s offset = 0 then 3 else 0

def lineAt : Text := (lineHead s offset ++ lineTail s offset).drop (markLength s offset)

def columnAt : ℕ := (lineHead s offset).length - markLength s offset

/-- The report on an offset: its line, with an arrow below its column. -/
def reportAt (C : Colours) : Text :=
  C.grey (text "  at " ++ s.description ++ text ":" ++ digits (newlinesBefore s offset + 1) ++
    text "\n") ++ text "    " ++ lineAt s offset ++ text "\n" ++
    List.replicate (4 + columnAt s offset) (byte ' ') ++ C.redBold (text "^\n")

/-- The short information on an offset, under the name of a file. -/
def shortInfoAt (filename : Text) : ShortInfo where
  filename := filename
  lineText := lineAt s offset
  lineNumber := newlinesBefore s offset + 1
  colNumber := columnAt s offset + 1

def Reported (C : Colours) (db : TextDb) (address : ℕ) : Prop :=
  ∃ linked, db.link (.pair address) s offset = some linked ∧
    linked.getInfoFor C (.pair address) = .ok (reportAt s offset C, s.terminateCompilerError) ∧
    linked.getShortInfoFor (.pair address) = .ok (some (shortInfoAt s offset s.description)) ∧
    linked.tryGetShortInfo (.pair address) =
      .ok (some (shortInfoAt s offset (TextDb.shortenPath s.description)))

def Located : Prop :=
  s.getLineIdx offset = .ok (newlinesBefore s offset) ∧
    s.getLineContainingOffset offset = .ok (lineAt s offset) ∧
    ∀ C db address, Reported s offset C db address

end

end Soot.Model.Script
