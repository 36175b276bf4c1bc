import Soot.Program.Variant

/-!
# Forms

The objects the reader produces, as far as the node builder looks at them: a form is an atom
or a pair, and a list is a chain of pairs. An object of any other kind (a character, an array,
an environment, a native object) is only ever recognised as none of these.
-/

set_option autoImplicit false

namespace Soot.Program

/-- SRCLINE: Object.hpp -/
inductive Object where
  | null
  | symbol (name : String)
  | integer (value : I64)
  | float (bits : BitVec 64)
  | string (text : String)
  | pair (car cdr : Object)
  | other (className : String)
  deriving DecidableEq

namespace Object

def isNull : Object → Bool
  | null => true
  | _ => false

/-- A proper list. SRCLINE: Object.cpp, build_list -/
def ofList : List Object → Object
  | [] => null
  | o :: os => pair o (ofList os)

end Object

end Soot.Program
