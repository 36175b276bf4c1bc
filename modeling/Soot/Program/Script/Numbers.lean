import Soot.Program.Script.Interpreter
import Mathlib.Logic.Function.Iterate

/-!
# Arithmetic of the script interpreter

The primitives on integers. A primitive works on the integers or on the floating-point numbers that
its arguments stand for, as its first argument is one or the other. Integers wrap around; what
traps, or shifts by an amount that the width does not allow, is undefined. The arithmetic of
floating-point numbers is a parameter.
-/

set_option autoImplicit false

namespace Soot.Program.Script

open Soot.Computation

/-- The arithmetic of `double`, and its conversions to and from `int64_t`. -/
structure FloatArithmetic where
  ofInteger : I64 → BitVec 64
  toInteger : BitVec 64 → I64
  add : BitVec 64 → BitVec 64 → BitVec 64
  mul : BitVec 64 → BitVec 64 → BitVec 64
  sub : BitVec 64 → BitVec 64 → BitVec 64
  div : BitVec 64 → BitVec 64 → BitVec 64
  pow : BitVec 64 → BitVec 64 → BitVec 64
  neg : BitVec 64 → BitVec 64
  less : BitVec 64 → BitVec 64 → Bool

/-! ## Operations on integers -/

/-- `INT64_MIN`. -/
def intMin : I64 := BitVec.intMin 64

/-- `/` of two integers. -/
def quotient (a b : I64) : Except Failure I64 :=
  if b = 0 ∨ a = intMin ∧ b = -1 then .error .undefinedBehaviour else .ok (a.sdiv b)

/-- `%` of two integers. -/
def remainder (a b : I64) : Except Failure I64 :=
  if b = 0 ∨ a = intMin ∧ b = -1 then .error .undefinedBehaviour else .ok (a.srem b)

/-- `<<`. -/
def shiftLeft (a sa : I64) : Except Failure I64 :=
  if 0 ≤ sa.toInt ∧ sa.toInt < 64 then .ok (a <<< sa.toNat) else .error .undefinedBehaviour

/-- `>>`. -/
def shiftRight (a sa : I64) : Except Failure I64 :=
  if 0 ≤ sa.toInt ∧ sa.toInt < 64 then .ok (a.sshiftRight sa.toNat)
  else .error .undefinedBehaviour

/-! ## Numbers -/

def notANumber (obj : Object) : Failure :=
  evalError obj (text "object cannot be interpreted as a number!")

/-- `number_to_integer`. SRCLINE: Interpreter.cpp:2445-2457 -/
def numberToInteger (F : FloatArithmetic) : Object → Except Failure I64
  | .int value => .ok value
  | .float value => .ok (F.toInteger value)
  | .char value => .ok (value.toBitVec.signExtend 64)
  | obj => .error (notANumber obj)

/-- `number_to_float`. SRCLINE: Interpreter.cpp:2462-2472 -/
def numberToFloat (F : FloatArithmetic) : Object → Except Failure (BitVec 64)
  | .int value => .ok (F.ofInteger value)
  | .float value => .ok value
  | obj => .error (notANumber obj)

/-- `is_number`. SRCLINE: Object.hpp:281-283 -/
def Object.isNumber : Object → Bool
  | int _ | float _ => true
  | _ => false

structure Numeric (T : Type) where
  number : Object → Except Failure T
  make : T → Object
  zero : T
  one : T
  add : T → T → T
  mul : T → T → T
  sub : T → T → T
  neg : T → T
  div : T → T → Except Failure T

def integers (F : FloatArithmetic) : Numeric I64 where
  number := numberToInteger F
  make := .int
  zero := 0
  one := 1
  add a b := a + b
  mul a b := a * b
  sub a b := a - b
  neg a := -a
  div := quotient

def floats (F : FloatArithmetic) : Numeric (BitVec 64) where
  number := numberToFloat F
  make := .float
  zero := F.ofInteger 0
  one := F.ofInteger 1
  add := F.add
  mul := F.mul
  sub := F.sub
  neg := F.neg
  div a b := .ok (F.div a b)

section Templates

variable {T : Type} (N : Numeric T)

/-- The loop over arguments that combines each with what there is. -/
def combine (op : T → T → T) (start : T) (args : List Object) : Except Failure T :=
  args.foldlM (fun result arg => do return op result (← N.number arg)) start

/-- `num_plus`. SRCLINE: Interpreter.cpp:2492-2501 -/
def numPlus (args : List Object) : Except Failure Object := do
  return N.make (← combine N N.add N.zero args)

/-- `num_times`. SRCLINE: Interpreter.cpp:2532-2541 -/
def numTimes (args : List Object) : Except Failure Object := do
  return N.make (← combine N N.mul N.one args)

/-- `num_minus`. SRCLINE: Interpreter.cpp:2572-2586 -/
def numMinus : List Object → Except Failure Object
  | [] => .error .undefinedBehaviour
  | [arg] => do return N.make (N.neg (← N.number arg))
  | arg :: args => do return N.make (← combine N N.sub (← N.number arg) args)

/-- `num_divide`. SRCLINE: Interpreter.cpp:2617-2623 -/
def numDivide : List Object → Except Failure Object
  | a :: b :: _ => do return N.make (← N.div (← N.number a) (← N.number b))
  | _ => .error .undefinedBehaviour

end Templates

/-! ## Primitives -/

section Primitives

variable (F : FloatArithmetic) (P : Printing) (form : Object)

/-- The `switch` on the type of the first argument. -/
def byFirst (name : Text) (args : List Object) (ofIntegers ofFloats : Except Failure Object) :
    Except Failure Object :=
  match args with
  | .int _ :: _ => ofIntegers
  | .float _ :: _ => ofFloats
  | _ => .error (evalError form (name ++ text " must have a numeric argument"))

/-- `eval_plus`. SRCLINE: Interpreter.cpp:2506-2526 -/
def evalPlus (args : Arguments) : Except Failure Object :=
  if args.named ≠ [] ∨ args.unnamed.isEmpty then .ok (.int 0)
  else byFirst form (text "+") args.unnamed (numPlus (integers F) args.unnamed)
    (numPlus (floats F) args.unnamed)

/-- `eval_times`. SRCLINE: Interpreter.cpp:2546-2566 -/
def evalTimes (args : Arguments) : Except Failure Object :=
  if args.named ≠ [] ∨ args.unnamed.isEmpty then .ok (.int 1)
  else byFirst form (text "*") args.unnamed (numTimes (integers F) args.unnamed)
    (numTimes (floats F) args.unnamed)

/-- `eval_minus`. SRCLINE: Interpreter.cpp:2591-2611 -/
def evalMinus (args : Arguments) : Except Failure Object :=
  if args.named ≠ [] ∨ args.unnamed.isEmpty then .ok (.int 0)
  else byFirst form (text "-") args.unnamed (numMinus (integers F) args.unnamed)
    (numMinus (floats F) args.unnamed)

/-- `eval_divide`. SRCLINE: Interpreter.cpp:2628-2642 -/
def evalDivide (args : Arguments) : Except Failure Object := do
  varargCheck P form args [[], []]
  byFirst form (text "/") args.unnamed (numDivide (integers F) args.unnamed)
    (numDivide (floats F) args.unnamed)

/-- `eval_abs`. SRCLINE: Interpreter.cpp:2791-2809 -/
def evalAbs (args : Arguments) : Except Failure Object :=
  if args.named ≠ [] then
    .error (evalError form (text "abs must receive at least one unnamed argument!"))
  else
    match args.unnamed with
    | [] => .error (evalError form (text "abs must receive at least one unnamed argument!"))
    | .int val :: _ => .ok (.int (if val.toInt < 0 then -val else val))
    | .float val :: _ => .ok (.float (if F.less val (F.ofInteger 0) then F.neg val else val))
    | _ => .error (evalError form (text "abs requires a number argument"))

/-- `eval_max` and `eval_min`: the loop that keeps the better of two numbers.
SRCLINE: Interpreter.cpp:2814-2849, 2854-2889 -/
def evalBest (name : Text) (better : I64 → I64 → Bool) (betterFloat : BitVec 64 → BitVec 64 → Bool)
    (args : Arguments) : Except Failure Object :=
  if args.named ≠ [] ∨ args.unnamed.isEmpty then
    .error (evalError form (name ++ text " must receive at least one unnamed argument!"))
  else if args.unnamed.any (!·.isNumber) then
    .error (evalError form (name ++ text " requires number arguments"))
  else
    match args.unnamed with
    | .int first :: rest => do
      return .int (← combine (integers F) (fun best val => if better val best then val else best)
        first rest)
    | .float first :: rest => do
      return .float (← combine (floats F)
        (fun best val => if betterFloat val best then val else best) first rest)
    | _ => .error .undefinedBehaviour

/-- `eval_max`. SRCLINE: Interpreter.cpp:2814-2849 -/
def evalMax : Arguments → Except Failure Object :=
  evalBest F form (text "max") (fun val best => best.slt val) fun val best => F.less best val

/-- `eval_min`. SRCLINE: Interpreter.cpp:2854-2889 -/
def evalMin : Arguments → Except Failure Object :=
  evalBest F form (text "min") (fun val best => val.slt best) F.less

/-- `eval_expt`. SRCLINE: Interpreter.cpp:2894-2921 -/
def evalExpt (args : Arguments) : Except Failure Object := do
  varargCheck P form args [[], []]
  match args.unnamed with
  | a :: b :: _ =>
    if !a.isNumber || !b.isNumber then
      throw (evalError form (text "expt requires number arguments"))
    match a, b with
    | .int base, .int exponent =>
      if exponent.toInt < 0 then
        return .float (F.pow (F.ofInteger base) (F.ofInteger exponent))
      else return .int ((fun result => result * base)^[exponent.toInt.toNat] 1)
    | _, _ => return .float (F.pow (← numberToFloat F a) (← numberToFloat F b))
  | _ => throw .outOfRange

/-- `eval_ash`. SRCLINE: Interpreter.cpp:2946-2960 -/
def evalAsh (args : Arguments) : Except Failure Object := do
  varargCheck P form args [[], []]
  match args.unnamed with
  | a :: b :: _ =>
    let val ← numberToInteger F a
    let sa ← numberToInteger F b
    if sa.toInt ≥ 0 ∧ sa.toInt < 64 then return .int (← shiftLeft val sa)
    else if sa.toInt > -64 then return .int (← shiftRight val (-sa))
    else throw (evalError form (text "Shift amount " ++ intDigits sa.toInt ++
        text " is out of range"))
  | _ => throw .outOfRange

/-- `eval_mod`. SRCLINE: Interpreter.cpp:2995-3006 -/
def evalMod (args : Arguments) : Except Failure Object := do
  varargCheck P form args [[text "int"], [text "int"]]
  match args.unnamed with
  | .int a :: .int b :: _ =>
    if b = 0 then throw (evalError form (text "mod: division by zero"))
    return .int (← remainder a b)
  | _ => throw .outOfRange

/-- `eval_logand`. SRCLINE: Interpreter.cpp:3070-3083 -/
def evalLogand (args : Arguments) : Except Failure Object :=
  match args.unnamed with
  | [] => .ok (.int (-1))
  | first :: rest => do
    return .int (← combine (integers F) (· &&& ·) (← numberToInteger F first) rest)

/-- `eval_logior`. SRCLINE: Interpreter.cpp:3088-3097 -/
def evalLogior (args : Arguments) : Except Failure Object := do
  return .int (← combine (integers F) (· ||| ·) 0 args.unnamed)

/-- `eval_logxor`. SRCLINE: Interpreter.cpp:3102-3114 -/
def evalLogxor (args : Arguments) : Except Failure Object :=
  match args.unnamed with
  | [] => .ok (.int 0)
  | first :: rest => do
    return .int (← combine (integers F) (· ^^^ ·) (← numberToInteger F first) rest)

/-- `eval_lognot`. SRCLINE: Interpreter.cpp:3119-3125 -/
def evalLognot (args : Arguments) : Except Failure Object := do
  varargCheck P form args [[]]
  match args.unnamed with
  | arg :: _ => return .int (~~~(← numberToInteger F arg))
  | _ => throw .outOfRange

/-- `eval_lshift` and `eval_rshift`, which answer zero for an amount that is out of range.
SRCLINE: Interpreter.cpp:3130-3147, 3152-3168 -/
def evalShift (shift : I64 → I64 → Except Failure I64) (args : Arguments) :
    Except Failure Object := do
  varargCheck P form args [[text "int"], [text "int"]]
  match args.unnamed with
  | .int val :: .int sa :: _ =>
    if sa.toInt < 0 then return .int 0
    else if sa.toInt ≥ 64 then return .int 0
    else return .int (← shift val sa)
  | _ => throw .outOfRange

/-- `eval_lshift`. SRCLINE: Interpreter.cpp:3130-3147 -/
def evalLshift : Arguments → Except Failure Object := evalShift P form shiftLeft

/-- `eval_rshift`. SRCLINE: Interpreter.cpp:3152-3168 -/
def evalRshift : Arguments → Except Failure Object := evalShift P form shiftRight

end Primitives

end Soot.Program.Script
