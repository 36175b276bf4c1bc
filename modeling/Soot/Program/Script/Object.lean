import Soot.Computation.Texts
import Soot.Program.Variant

/-!
# Objects of the script interpreter

Numbers, characters, symbols, strings, pairs and arrays are values here; functions, macros,
environments and what else lies in the heap are references. An interned symbol is its name.
-/

set_option autoImplicit false

namespace Soot.Program.Script

open Soot.Computation

inductive SpecialForm where
  | quote
  | lambda
  | other (index : ℕ)
  deriving DecidableEq

inductive Primitive where
  | apply
  | other (index : ℕ)
  deriving DecidableEq

/-- The types that only references have. SRCLINE: Object.hpp:25-57 -/
inductive HeapType where
  | environment
  | hashTable
  | pointer
  | nativeObject
  | reader
  | writer
  deriving DecidableEq

/-- `Object`. SRCLINE: Object.hpp:190-210 -/
inductive Object where
  | none
  | emptyList
  | int (value : I64)
  | float (value : BitVec 64)
  | char (value : UInt8)
  | symbol (name : Text)
  | string (data : Text)
  | pair (car cdr : Object)
  | array (data : List Object)
  | function (ref : ℕ)
  | macroObject (ref : ℕ)
  | primitive (method : Primitive)
  | specialForm (method : SpecialForm)
  | heapObject (type : HeapType) (ref : ℕ)

namespace Object

/-- `object_type_to_string`. SRCLINE: Object.cpp:22-66 -/
def typeName : Object → Text
  | none => text "none"
  | emptyList => text "null"
  | int _ => text "int"
  | float _ => text "float"
  | char _ => text "char"
  | symbol _ => text "symbol"
  | string _ => text "string"
  | pair _ _ => text "pair"
  | array _ => text "array"
  | function _ => text "function"
  | macroObject _ => text "macro"
  | primitive _ => text "primitive"
  | specialForm _ => text "specialform"
  | heapObject .environment _ => text "environment"
  | heapObject .hashTable _ => text "hash-table"
  | heapObject .pointer _ => text "pointer"
  | heapObject .nativeObject _ => text "native-obj"
  | heapObject .reader _ => text "reader"
  | heapObject .writer _ => text "writer"

def isNull : Object → Bool
  | emptyList => true
  | _ => false

def isNone : Object → Bool
  | none => true
  | _ => false

def isPair : Object → Bool
  | pair _ _ => true
  | _ => false

/-- `is_symbol` and the symbol's name. -/
def symbolName : Object → Option Text
  | symbol name => some name
  | _ => .none

/-- `is_keyword`: a symbol whose name starts with a colon, and the name without it.
SRCLINE: Object.hpp:93-95, 299-301 -/
def keywordName : Object → Option Text
  | symbol (c :: name) => if c = byte ':' then some name else .none
  | _ => .none

/-- `build_list`. -/
def ofList : List Object → Object
  | [] => emptyList
  | o :: l => pair o (ofList l)

def elements : Object → List Object
  | pair car cdr => car :: elements cdr
  | _ => []

@[simp] theorem elements_ofList (l : List Object) : (ofList l).elements = l := by
  induction l with
  | nil => rfl
  | cons o l ih => rw [ofList, elements, ih]

end Object

/-! ## Printing -/

/-- How numbers that are not integers and references are printed. -/
structure Printing where
  float : BitVec 64 → Text
  object : Object → Text

def hexByte (c : UInt8) : Text :=
  let digit (n : ℕ) : UInt8 := byte (Nat.digitChar n)
  [digit (c.toNat / 16), digit (c.toNat % 16)]

/-- `is_printable_char`, and `isprint` of the C locale. SRCLINE: Reader.cpp:43-45 -/
def isPrintable (c : UInt8) : Bool := byte ' ' ≤ c && c ≤ byte '~'

/-- `fixed_to_string` of a character. SRCLINE: Object.cpp:258-285 -/
def printChar (c : UInt8) : Text :=
  if c = byte '\n' then text "#\\newline"
  else if c = byte ' ' then text "#\\space"
  else if c = byte '\t' then text "#\\tab"
  else if c = byte '\r' then text "#\\return"
  else if c = 0 then text "#\\null"
  else if c = 8 then text "#\\backspace"
  else if c = 27 then text "#\\escape"
  else if isPrintable c then text "#\\" ++ [c]
  else text "#\\x" ++ hexByte c

mutual

/-- The text of an object, and the text of a list's tail that starts with it.
SRCLINE: Object.cpp:1187-1211, 1345-1367, Object.hpp:908-910, 963-973 -/
def Object.prints (P : Printing) : Object → Text × Text
  | .pair car cdr =>
    let inner := (car.prints P).1 ++ (cdr.prints P).2
    (byte '(' :: inner ++ [byte ')'], byte ' ' :: inner)
  | .emptyList => (text "null", [])
  | .none => (text "none", text " . none")
  | .int i => (intDigits i.toInt, text " . " ++ intDigits i.toInt)
  | .float x => (P.float x, text " . " ++ P.float x)
  | .char c => (printChar c, text " . " ++ printChar c)
  | .symbol name => (name, text " . " ++ name)
  | .string data =>
    let quoted := byte '"' :: data ++ [byte '"']
    (quoted, text " . " ++ quoted)
  | .array data =>
    let elements := text "#(" ++ (Object.printElements P data).dropLast ++ [byte ')']
    (elements, text " . " ++ elements)
  | o@(.function _) | o@(.macroObject _) | o@(.primitive _) | o@(.specialForm _)
  | o@(.heapObject _ _) => (P.object o, text " . " ++ P.object o)

/-- Each element with a space after it. SRCLINE: Object.hpp:968-970 -/
def Object.printElements (P : Printing) : List Object → Text
  | [] => []
  | o :: l => (o.prints P).1 ++ byte ' ' :: Object.printElements P l

end

def Object.print (P : Printing) (o : Object) : Text := (o.prints P).1

/-! ## Comparison -/

/-- How floating-point numbers and references of one type are compared: that may throw. -/
structure Comparison where
  float : BitVec 64 → BitVec 64 → Bool
  object : Object → Object → Except Text Bool

mutual

/-- `operator==`. SRCLINE: Object.cpp:793-841 -/
def Object.equal (C : Comparison) : Object → Object → Except Text Bool
  | .none, .none => .ok false
  | .emptyList, .emptyList => .ok true
  | .int i, .int j => .ok (i == j)
  | .float x, .float y => .ok (C.float x y)
  | .char c, .char d => .ok (c == d)
  | .symbol name, .symbol name' => .ok (name == name')
  | .string data, .string data' => .ok (data == data')
  | .pair car cdr, .pair car' cdr' => do
    if ← car.equal C car' then cdr.equal C cdr' else return false
  | .array data, .array data' =>
    if data.length = data'.length then Object.equalElements C data data' else .ok false
  | .function ref, .function ref' => C.object (.function ref) (.function ref')
  | .macroObject ref, .macroObject ref' => C.object (.macroObject ref) (.macroObject ref')
  | .primitive method, .primitive method' => C.object (.primitive method) (.primitive method')
  | .specialForm method, .specialForm method' =>
    C.object (.specialForm method) (.specialForm method')
  | .heapObject type ref, .heapObject type' ref' =>
    if type = type' then C.object (.heapObject type ref) (.heapObject type' ref') else .ok false
  | _, _ => .ok false

/-- `operator==` of two vectors of one length. -/
def Object.equalElements (C : Comparison) : List Object → List Object → Except Text Bool
  | o :: l, o' :: l' => do
    if ← o.equal C o' then Object.equalElements C l l' else return false
  | _, _ => .ok true

end

/-- `truncate_obj`. SRCLINE: Object.cpp:1172-1184 -/
def truncateText (s : Text) (maxArgLen : ℕ) : Text :=
  if s.length ≤ maxArgLen then s else s.take (maxArgLen - 3) ++ text "..."

end Soot.Program.Script
