import Soot.Program.Script.Interpreter
import Soot.Program.StringUtil

/-!
# Splitting and joining strings

The primitives `string-split` and `string-join`. The pieces of a string become symbols, which are
named by C strings.
-/

set_option autoImplicit false

namespace Soot.Program.Script

open Soot.Computation

/-- `to_symbol`: the symbol of a C string. SRCLINE: Printer.cpp:53-56 -/
def toSymbol (str : Text) : Object := .symbol (str.takeWhile (· ≠ 0))

section Strings

variable (P : Printing) (form : Object)

/-- `eval_string_split`, with a bound for the turns of the loop.
SRCLINE: Interpreter.cpp:3562-3570, Printer.cpp:83-93 -/
def evalStringSplit (turns : ℕ) (args : Arguments) : Except Failure Object := do
  varargCheck P form args [[text "string"], [text "string"]]
  match args.unnamed with
  | .string str :: .string delim :: _ =>
    match splitString delim turns str with
    | none => throw .unfinished
    | some list => return Object.ofList (list.map toSymbol)
  | _ => throw .outOfRange

/-- An element of a list as `string-join` writes it. SRCLINE: Interpreter.cpp:3591-3600 -/
def joinedText : Object → Text
  | .symbol name => name
  | .string data => data
  | .int value => intDigits value.toInt
  | o => o.print P

/-- The loop of `eval_string_join`; `first` is the flag of the first element.
SRCLINE: Interpreter.cpp:3585-3603 -/
def joinLoop (delim : Text) : Bool → List Object → Text
  | _, [] => []
  | first, o :: rest =>
    (if first then [] else delim) ++ joinedText P o ++ joinLoop delim false rest

/-- `for_each_in_list` throws at the end of a list that does not end in null.
SRCLINE: Interpreter.cpp:342-356 -/
def isProperList : Object → Bool
  | .pair _ cdr => isProperList cdr
  | o => o.isNull

/-- `eval_string_join`. SRCLINE: Interpreter.cpp:3572-3606 -/
def evalStringJoin (args : Arguments) : Except Failure Object := do
  varargCheck P form args [[text "pair"], [text "string"]]
  match args.unnamed with
  | list :: .string delim :: _ =>
    if isProperList list then return .string (joinLoop P delim true list.elements)
    else throw (evalError list (text "Invalid list: " ++ list.print P))
  | _ => throw .outOfRange

end Strings

end Soot.Program.Script
