import Soot.Program.Script.Interpreter

/-!
# Quasiquotation

A template is gone through cell by cell: an element that is headed by `unquote` or
`unquote-splicing` is evaluated, any other list is a template of its own. The links to the text
from which a cell was read are left out.
-/

set_option autoImplicit false

namespace Soot.Program.Script

open Soot.Computation

/-- `build_list_with_links`. SRCLINE: Interpreter.cpp:1611-1627 -/
def buildListWithLinks (entries : List Object) (tail : Object) : Object := entries.foldr .pair tail

/-- `eval_unquote_arg`. SRCLINE: Interpreter.cpp:1629-1646 -/
def evalUnquoteArg (P : Printing) (ev : Evaluator) (item : Object) (env : ℕ) : Eval Object :=
  match item with
  | .pair _ .emptyList => throw (evalError item (text "unquote must have exactly 1 argument, got 0"))
  | .pair _ (.pair arg .emptyList) => ev arg env
  | .pair _ (.pair _ _) =>
    throw (evalError item (text "unquote must have exactly 1 argument, got more"))
  | .pair _ cdr => throw (asPairError P cdr)
  | item => throw (asPairError P item)

def headSymbol : Object → Option Text
  | .pair head _ => head.symbolName
  | _ => none

/-- The loop of `quasiquote_helper` over the cells of a template, for the entries that have been
collected; an element that is a list is a template of its own.
SRCLINE: Interpreter.cpp:1651-1721 -/
def quasiquoteFrom (P : Printing) (ev : Evaluator) (env : ℕ) (form : Object)
    (entries : List Object) : Object → Eval Object
  | .pair item rest =>
    if headSymbol item = some (text "unquote") then do
      let val ← evalUnquoteArg P ev item env
      quasiquoteFrom P ev env form (entries ++ [val]) rest
    else if headSymbol item = some (text "unquote-splicing") then do
      let spliceList ← evalUnquoteArg P ev item env
      if spliceList.isPair then
        quasiquoteFrom P ev env form (entries ++ spliceList.elements) rest
      else if spliceList.isNull then quasiquoteFrom P ev env form entries rest
      else throw (evalError form (text "unquote-splicing must return a list"))
    else do
      let processed ← (if item.isPair then quasiquoteFrom P ev env item [] item else pure item)
      quasiquoteFrom P ev env form (entries ++ [processed]) rest
  | last => return buildListWithLinks entries last

/-- `quasiquote_helper`. SRCLINE: Interpreter.cpp:1651-1721 -/
def quasiquoteHelper (P : Printing) (ev : Evaluator) (form : Object) (env : ℕ) : Eval Object :=
  quasiquoteFrom P ev env form [] form

/-- `eval_quasiquote_special`. SRCLINE: Interpreter.cpp:1363-1369 -/
def evalQuasiquoteSpecial (P : Printing) (ev : Evaluator) (form rest : Object) (env : ℕ) :
    Eval Object :=
  match rest with
  | .pair template .emptyList => quasiquoteHelper P ev template env
  | _ => throw (evalError form (text "quasiquote must have one argument!"))

end Soot.Program.Script
