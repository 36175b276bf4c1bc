import Soot.Program.Script.Object

/-!
# The reader

A stream is the text that remains of it. Read macros are those that a reader starts with. Where an
error is thrown, the text that tells its place is left out. The table of symbol characters is
indexed with a `char` that may be negative: what lies before the table is a parameter.
-/

set_option autoImplicit false

namespace Soot.Program.Script

open Soot.Computation

/-- What is used of the C library for floating-point numbers, and what a reader has in memory
before its table of symbol characters. -/
structure ReaderEnvironment where
  strtod : Text → Option (BitVec 64)
  beforeTable : UInt8 → Bool

/-! ## Between tokens -/

/-- The loops of `seek_past_whitespace_and_comments`: the outer one, that of a line comment, and in
a block comment the bar that opens it, the loop for the next bar, and the byte after one. -/
inductive Seek where
  | outer
  | line
  | opening
  | bar
  | hash
  deriving DecidableEq

/-- `seek_past_whitespace_and_comments`. SRCLINE: Reader.cpp:56-95 -/
def seekPast : Seek → Text → Text
  | _, [] => []
  | .outer, c :: s =>
    if c = byte ' ' ∨ c = byte '\t' ∨ c = byte '\n' ∨ c = byte '\r' then seekPast .outer s
    else if c = byte ';' then seekPast .line s
    else if c = byte '#' ∧ s.head? = some (byte '|') then seekPast .opening s
    else c :: s
  | .line, c :: s => if c = byte '\n' then seekPast .outer s else seekPast .line s
  | .opening, _ :: s => seekPast .bar s
  | .bar, c :: s => if c = byte '|' then seekPast .hash s else seekPast .bar s
  | .hash, c :: s => if c = byte '#' then seekPast .outer s else seekPast .bar s

def isSpace (c : UInt8) : Bool := c = byte ' ' || 9 ≤ c && c ≤ 13

def backQuote : UInt8 := 96

/-- The replacement of a read macro that a reader starts with. SRCLINE: Reader.cpp:123-128 -/
def readerMacro (shortcut : Text) : Option Text :=
  if shortcut = text "'" then some (text "quote")
  else if shortcut = [backQuote] then some (text "quasiquote")
  else if shortcut = text "," then some (text "unquote")
  else if shortcut = text ",@" then some (text "unquote-splicing")
  else none

/-- What ends the name of a character. SRCLINE: Reader.cpp:406-409 -/
def endsCharName (c : UInt8) : Bool :=
  isSpace c || c = byte ')' || c = byte '(' || c = byte '[' || c = byte ']' || c = byte '"' ||
    c = byte ';'

/-- What ends an ordinary token. SRCLINE: Reader.cpp:434-436 -/
def endsToken (c : UInt8) : Bool :=
  isSpace c || c = byte ')' || c = byte '(' || c = byte '"' || c = byte ';' ||
    (readerMacro [c]).isSome

/-- The token that begins with a byte, and what remains. SRCLINE: Reader.cpp:390-447 -/
def tokenFrom (first : UInt8) (s : Text) : Text × Text :=
  if first = byte '#' ∧ s.head? = some (byte '\\') then
    match s.tail with
    | [] => ([first, byte '\\'], [])
    | c :: s =>
      (first :: byte '\\' :: c :: s.takeWhile (!endsCharName ·), s.dropWhile (!endsCharName ·))
  else if first = byte ',' ∧ s.head? = some (byte '@') then ([first, byte '@'], s.tail)
  else if first = byte '(' ∨ first = byte ')' ∨ first = byte '"' ∨ first = byte '\'' ∨
      first = backQuote then ([first], s)
  else if (readerMacro [first]).isSome then ([first], s)
  else (first :: s.takeWhile (!endsToken ·), s.dropWhile (!endsToken ·))

/-- `get_next_token`. SRCLINE: Reader.cpp:379-448 -/
def getNextToken (s : Text) : Text × Text :=
  match seekPast .outer s with
  | [] => ([], [])
  | first :: s => tokenFrom first s

/-! ## Tokens as objects -/

/-- `try_token_as_integer`. SRCLINE: Reader.cpp:879-907 -/
def tryTokenAsInteger (tok : Text) : Except Text (Option Object) :=
  match tok with
  | [] => .ok none
  | first :: s =>
    if (isDigit first || first = byte '-') && !tok.contains (byte '.') then
      let number := if first = byte '-' then s else tok
      if number = [] then .ok none
      else if number.any (!isDigit ·) then .ok none
      else
        let n := digitsValue number 0
        if first = byte '-' then
          if n ≤ 2 ^ 63 then .ok (some (.int (BitVec.ofInt 64 (-n))))
          else .error (text "The number " ++ tok ++ text " cannot be an integer constant")
        else if n < 2 ^ 63 then .ok (some (.int (BitVec.ofNat 64 n)))
        else .error (text "The number " ++ tok ++ text " cannot be an integer constant")
    else .ok none

/-- The value of a hexadecimal digit. SRCLINE: Reader.cpp:27-32 -/
def hexValue (c : UInt8) : Option ℕ :=
  if isDigit c then some (c.toNat - 48)
  else if byte 'a' ≤ c ∧ c ≤ byte 'f' then some (c.toNat - 87)
  else if byte 'A' ≤ c ∧ c ≤ byte 'F' then some (c.toNat - 55)
  else none

/-- `try_token_as_hex`. SRCLINE: Reader.cpp:849-874 -/
def tryTokenAsHex (tok : Text) : Except Text (Option Object) :=
  match tok with
  | a :: b :: number =>
    if a = byte '#' ∧ b = byte 'x' ∧ number ≠ [] ∧ number.all (hexValue · |>.isSome) then
      let n := number.foldl (fun n c => 16 * n + (hexValue c).getD 0) 0
      if n < 2 ^ 64 then .ok (some (.int (BitVec.ofNat 64 n)))
      else .error (text "The number " ++ tok ++ text " cannot be a hexadecimal constant")
    else .ok none
  | _ => .ok none

/-- `try_token_as_binary`. SRCLINE: Reader.cpp:820-848 -/
def tryTokenAsBinary (tok : Text) : Except Text (Option Object) :=
  match tok with
  | a :: b :: number =>
    if a = byte '#' ∧ b = byte 'b' ∧ number ≠ [] ∧
        number.all (fun c => c = byte '0' || c = byte '1') then
      let value : Except Text ℕ := number.foldlM (fun value c =>
        if value < 2 ^ 63 then .ok (2 * value + if c = byte '1' then 1 else 0)
        else .error (text "overflow in binary constant: " ++ tok)) 0
      value.map fun n => some (.int (BitVec.ofNat 64 n))
    else .ok none
  | _ => .ok none

/-- `try_token_as_float`. SRCLINE: Reader.cpp:793-815 -/
def tryTokenAsFloat (R : ReaderEnvironment) (tok : Text) : Option Object :=
  match tok with
  | [] => none
  | first :: s =>
    if (isDigit first || first = byte '-' || first = byte '.') && tok.contains (byte '.') then
      let number := if first = byte '-' then s else tok
      if number.any fun c => !isDigit c && c != byte '.' then none
      else (R.strtod tok).map .float
    else none

/-- The number parsers in their order. SRCLINE: Reader.cpp:503-511 -/
def tryTokenAsNumber (R : ReaderEnvironment) (tok : Text) : Except Text (Option Object) := do
  if let some o ← tryTokenAsInteger tok then return some o
  if let some o ← tryTokenAsHex tok then return some o
  if let some o ← tryTokenAsBinary tok then return some o
  return tryTokenAsFloat R tok

/-- `try_token_as_char`. SRCLINE: Reader.cpp:909-931 -/
def tryTokenAsChar (tok : Text) : Option Object :=
  match tok with
  | [a, b, c] =>
    if a = byte '#' ∧ b = byte '\\' ∧ isPrintable c ∧ c ≠ byte ' ' then some (.char c) else none
  | [a, b, c, d] =>
    if a = byte '#' ∧ b = byte '\\' ∧ c = byte '\\' then
      if d = byte 'n' then some (.char (byte '\n'))
      else if d = byte 's' then some (.char (byte ' '))
      else if d = byte 't' then some (.char (byte '\t'))
      else none
    else none
  | _ => none

/-- `m_valid_symbols_chars`. SRCLINE: Reader.cpp:130-151 -/
def validSymbolChar (R : ReaderEnvironment) (c : UInt8) : Bool :=
  if 128 ≤ c then R.beforeTable c
  else byte 'a' ≤ c && c ≤ byte 'z' || byte 'A' ≤ c && c ≤ byte 'Z' || isDigit c ||
    (text "!$%&*+-/\\.,@^_-;:<>?~=#").contains c

/-- `try_token_as_symbol`. SRCLINE: Reader.cpp:577-612 -/
def tryTokenAsSymbol (R : ReaderEnvironment) (tok : Text) : Option Object :=
  match tok with
  | [] => none
  | first :: s =>
    if first = byte ':' then
      if s = [] then none
      else if s.all (validSymbolChar R) then some (.symbol tok) else none
    else if tok.all (validSymbolChar R) then some (.symbol tok) else none

/-- `read_string`, after the opening quote: the string and what remains, unless there is no closing
quote. SRCLINE: Reader.cpp:730-784 -/
def readString : Text → Except Text (Option (Text × Text))
  | [] => .ok none
  | c :: s =>
    if c = byte '"' then .ok (some ([], s))
    else if c = byte '\\' then
      match s with
      | [] => .error (text "incomplete string escape code")
      | e :: s =>
        let push (c : UInt8) (result : Except Text (Option (Text × Text))) :=
          result.map (·.map fun (str, rest) => (c :: str, rest))
        if e = byte 'n' then push (byte '\n') (readString s)
        else if e = byte 't' then push (byte '\t') (readString s)
        else if e = byte '\\' then push (byte '\\') (readString s)
        else if e = byte '"' then push (byte '"') (readString s)
        else if e = byte 'c' then
          match s with
          | a :: b :: s =>
            if s = [] then .error (text "incomplete string escape code")
            else match hexValue a, hexValue b with
              | some high, some low => push (UInt8.ofNat (16 * high + low)) (readString s)
              | _, _ => .error (text "invalid character escape hex number")
          | _ => .error (text "incomplete string escape code")
        else .error (text "unknown string escape code")
    else (readString s).map (·.map fun (str, rest) => (c :: str, rest))

/-! ## Forms -/

/-- How reading fails: by a throw, by an assertion, or not within the calls that are given. -/
inductive ReadError where
  | message (err : Text)
  | assertion
  | unfinished

def Object.ofListWith (tail : Object) (l : List Object) : Object := l.foldr .pair tail

mutual

/-- `read_single_form`, without a callback. SRCLINE: Reader.cpp:184-251 -/
def readSingleForm (R : ReaderEnvironment) : ℕ → Text → Except ReadError (Object × Text)
  | 0, _ => .error .unfinished
  | n + 1, s =>
    match getNextToken s with
    | ([], rest) => .ok (.emptyList, rest)
    | (tok, rest) =>
      match readerMacro tok with
      | some replacement => do
        let (inner, rest) ← readSingleForm R n rest
        return (.ofList [.symbol replacement, inner], rest)
      | none =>
        if tok = text "(" then readList R n (text ")") [] false none rest
        else if tok = text "[" then readList R n (text "]") [] false none rest
        else do
          match ← readObject R n tok rest with
          | some result => return result
          -- the source has a report of the invalid token here, commented out
          | none => return (.emptyList, rest)

/-- `read_object`. SRCLINE: Reader.cpp:497-532 -/
def readObject (R : ReaderEnvironment) :
    ℕ → Text → Text → Except ReadError (Option (Object × Text))
  | 0, _, _ => .error .unfinished
  | n + 1, tok, s =>
    let failed (what : Text) := text "parsing token " ++ tok ++ text " failed: " ++ what
    match tryTokenAsNumber R tok with
    | .error what => .error (.message (failed what))
    | .ok (some o) => .ok (some (o, s))
    | .ok none =>
      if tok.head? = some (byte '"') then
        if tok.length ≠ 1 then .error .assertion
        else match readString s with
          | .error err => .error (.message (failed err))
          | .ok (some (str, rest)) => .ok (some (.string str, rest))
          | .ok none =>
            .error (.message (failed (text "failed to read string, close quote not found")))
      else if tok.take 2 = text "#(" then (readArray R n [] s).map some
      else match tryTokenAsChar tok with
        | some o => .ok (some (o, s))
        | none => .ok ((tryTokenAsSymbol R tok).map (·, s))

/-- `read_array`, after some of its elements. SRCLINE: Reader.cpp:534-572 -/
def readArray (R : ReaderEnvironment) :
    ℕ → List Object → Text → Except ReadError (Object × Text)
  | 0, _, _ => .error .unfinished
  | n + 1, objects, s =>
    match getNextToken s with
    | ([], _) => .error (.message (text "An array must end in a close parenthesis"))
    | (c :: tok, rest) =>
      if c = byte '(' then do
        let (o, rest) ← readList R n (text ")") [] false none rest
        readArray R n (objects ++ [o]) rest
      else if c = byte ')' then .ok (.array objects, rest)
      else do
        match ← readObject R n (c :: tok) rest with
        | some (o, rest) => readArray R n (objects ++ [o]) rest
        | none => .error (.message
            (text "Invalid token encountered in array reader: '" ++ (c :: tok) ++ text "'"))

/-- `read_list`, after some of its elements, perhaps a dot, and perhaps what follows the dot.
SRCLINE: Reader.cpp:617-723 -/
def readList (R : ReaderEnvironment) : ℕ → Text → List Object → Bool → Option Object → Text →
    Except ReadError (Object × Text)
  | 0, _, _, _, _, _ => .error .unfinished
  | n + 1, terminator, pairs, gotDot, afterDot, s =>
    match getNextToken s with
    | ([], _) =>
      .error (.message (text "Unclosed list: expected '" ++ terminator ++ text "'"))
    | (tok, rest) =>
      if tok = terminator then .ok (.ofListWith (afterDot.getD .emptyList) pairs, rest)
      else if tok = text "." then
        if gotDot then .error (.message (text "Multiple dots in list"))
        else if pairs = [] then .error (.message (text "List cannot start with dot"))
        else readList R n terminator pairs true afterDot rest
      else do
        let (o, rest) ←
          if tok = text "(" then readList R n (text ")") [] false none rest
          else if tok = text "[" then readList R n (text "]") [] false none rest
          else readSingleForm R n s
        if gotDot then
          if afterDot.isSome then throw (.message (text "Only one object allowed after dot"))
          readList R n terminator pairs true (some o) rest
        else readList R n terminator (pairs ++ [o]) false none rest

end

/-- The loop of `internal_read`. SRCLINE: Reader.cpp:308-335 -/
def readForms (R : ReaderEnvironment) : ℕ → Text → Except ReadError (List Object)
  | 0, _ => .error .unfinished
  | n + 1, s =>
    match seekPast .outer s with
    | [] => .ok []
    | c :: s => do
      let (form, rest) ← readSingleForm R n (c :: s)
      let forms ← readForms R n rest
      return form :: forms

/-- `read_utf8_encoding`, where the encoding bytes are not asked for.
SRCLINE: Reader.cpp:102-119 -/
def dropEncoding (s : Text) : Text := if s.take 3 = [0xEF, 0xBB, 0xBF] then s.drop 3 else s

/-- `read_from_string`, without a callback; each call of its functions takes a byte.
SRCLINE: Reader.cpp:256-351 -/
def readFromString (R : ReaderEnvironment) (str : Text) : Except ReadError Object := do
  let s := dropEncoding str
  let forms ← readForms R (2 * s.length + 2) (seekPast .outer s)
  return .pair (.symbol (text "top-level")) (.ofList forms)

end Soot.Program.Script
