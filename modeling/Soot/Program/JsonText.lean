import Soot.Computation.Texts

/-!
# JSON with comments

The scanner that takes the comments out of a text before it goes to the JSON parser.
-/

set_option autoImplicit false

namespace Soot.Program

open Soot.Computation

/-- SRCLINE: JsonUtil.cpp:13 -/
inductive StripState where
  | normal
  | blockComment
  | lineComment
  | string
  deriving DecidableEq

/-- The body of the loop at a character: the state after it, what is pushed to the output, and
whether the next character is skipped. SRCLINE: JsonUtil.cpp:16-60 -/
def stripStep (state : StripState) (prev c next : UInt8) : StripState × Text × Bool :=
  match state with
  | .normal =>
    if c = byte '/' ∧ next = byte '*' then (.blockComment, [], true)
    else if c = byte '/' ∧ next = byte '/' then (.lineComment, [], true)
    else if c = byte '"' then (.string, [c], false)
    else (.normal, [c], false)
  | .blockComment =>
    if c = byte '*' ∧ next = byte '/' then (.normal, [], true) else (.blockComment, [], false)
  | .lineComment =>
    if c = byte '\n' then (.normal, [c], false) else (.lineComment, [], false)
  | .string =>
    if c = byte '"' ∧ prev ≠ byte '\\' then (.normal, [c], false) else (.string, [c], false)

/-- The loop from a position on, with the character before it: the last state and what is pushed
from there on. SRCLINE: JsonUtil.cpp:15-61 -/
def stripLoop (state : StripState) (prev : UInt8) (skip : Bool) : Text → StripState × Text
  | [] => (state, [])
  | c :: rest =>
    if skip then stripLoop state c false rest
    else
      let step := stripStep state prev c (rest.headD 0)
      let later := stripLoop step.1 c step.2.2 rest
      (later.1, step.2.1 ++ later.2)

/-- SRCLINE: JsonUtil.cpp:10-72 -/
def stripCppStyleComments (input : Text) : Except String Text :=
  let result := stripLoop .normal 0 false input
  if result.1 = .blockComment then
    .error "strip_cpp_style_comments ended in a block comment"
  else if result.1 = .string then .error "strip_cpp_style_comments ended in a string."
  else .ok result.2

end Soot.Program
