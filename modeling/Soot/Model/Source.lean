import Soot.Program.Instruction
import Soot.Model.Layout

/-!
# The meaning of a function body

Left-to-right evaluation of the expression trees that compute on variables: integer literals,
variables, arithmetic, comparisons, `if`, `while`, `let`, `set!`, sequences and `return`.
Variable names are distinct, so one store serves the whole function. The value of a loop, of an
`if` whose test fails and that has no `else`, of an empty sequence and of a bare `return` is
not specified; a program that computes with such a value has no meaning.

An evaluation may be *guarded*. A guarded evaluation stops where the emitted code is known to
leave this meaning: where the move that joins the branches of an `if` would overwrite a
variable, where a left operand would be read after the right operand has changed it, and where
an instruction does not compute the operation. Without the guard these places are evaluated
like any other. Loops are bounded by fuel, and an evaluation that does not finish is one that
runs out of every amount of it.
-/

set_option autoImplicit false

namespace Soot.Model

open Soot.Program

abbrev Val := Option Variant

abbrev Env := String → Val

inductive Outcome where
  | value (v : Val) (env : Env)
  | returned (v : Val) (env : Env)
  | error (kind : VmErrorKind)
  | unspecified
  | hazard
  | outOfFuel

abbrev Evaluation := Env → Outcome

namespace Outcome

def bind (o : Outcome) (k : Val → Env → Outcome) : Outcome :=
  match o with
  | value v env => k v env
  | returned v env => returned v env
  | error kind => error kind
  | unspecified => unspecified
  | hazard => hazard
  | outOfFuel => outOfFuel

def bindSpecified (o : Outcome) (k : Variant → Env → Outcome) : Outcome :=
  o.bind fun v env =>
    match v with
    | some x => k x env
    | none => unspecified

def ofExcept (env : Env) : Except VmErrorKind Variant → Outcome
  | .ok x => value (some x) env
  | .error kind => error kind

def guarded (guard : Bool) (isHazard : Prop) [Decidable isHazard] (o : Outcome) : Outcome :=
  if guard = true ∧ isHazard then hazard else o

end Outcome

/-! ## Operations on values -/

section Operations

variable (fpu : FloatUnit)

/-- Integer addition; a pointer and an integer add up to a pointer. -/
def addValues : Variant → Variant → Except VmErrorKind Variant
  | .pointer p, .int n => .ok (.pointer (p + n))
  | .int n, .pointer p => .ok (.pointer (p + n))
  | x, y => do return .int ((← x.toInt fpu) + (← y.toInt fpu))

def divideInt (op : I64 → I64 → I64) (x y : Variant) : Except VmErrorKind Variant := do
  let d ← y.toInt fpu
  if d = 0 then throw .DivisionByZero else return .int (op (← x.toInt fpu) d)

def intOp (op : I64 → I64 → Variant) (x y : Variant) : Except VmErrorKind Variant := do
  return op (← x.toInt fpu) (← y.toInt fpu)

def floatOp (op : BitVec 32 → BitVec 32 → Variant) (x y : Variant) :
    Except VmErrorKind Variant := do
  return op (← x.toFloat fpu) (← y.toFloat fpu)

/-- Division of floating-point values; a division by zero is an error. -/
def divideFloat (x y : Variant) : Except VmErrorKind Variant := do
  let d ← y.toFloat fpu
  if fpu.isZero d then throw .DivisionByZero
  else return .ofF32 fpu (fpu.div (← x.toFloat fpu) d)

/-- Arithmetic. The type of the left operand selects the operation. -/
def binaryValue (isFloat : Bool) : BinaryOp → Variant → Variant → Except VmErrorKind Variant
  | .ADD => if isFloat then floatOp fpu fun x y => .ofF32 fpu (fpu.add x y) else addValues fpu
  | .SUB =>
    if isFloat then floatOp fpu fun x y => .ofF32 fpu (fpu.sub x y)
    else intOp fpu fun x y => .int (x - y)
  | .MUL =>
    if isFloat then floatOp fpu fun x y => .ofF32 fpu (fpu.mul x y)
    else intOp fpu fun x y => .int (x * y)
  | .DIV => if isFloat then divideFloat fpu else divideInt fpu BitVec.sdiv
  | .MOD =>
    if isFloat then floatOp fpu fun x y => .ofF32 fpu (fpu.fmod x y)
    else divideInt fpu BitVec.srem

def unaryValue (isFloat : Bool) : UnaryOp → Variant → Except VmErrorKind Variant
  | .ABS => fun v =>
    if isFloat then do return .ofF32 fpu (fpu.fabs (← v.toFloat fpu))
    else do
      let x ← v.toInt fpu
      return .int (if x.slt 0 then -x else x)
  | .NEG => fun v =>
    if isFloat then do return .ofF32 fpu (fpu.neg (← v.toFloat fpu))
    else do return .int (-(← v.toInt fpu))
  | .NOT => fun v => .ok (.ofBool (!v.toBool fpu))
  | .BITNOT => fun v => do return .int (~~~(← v.toInt fpu))

def compareValue (isFloat : Bool) : CompareOp → Variant → Variant → Except VmErrorKind Variant
  | .EQ =>
    if isFloat then floatOp fpu fun x y => .ofBool (fpu.near x y)
    else intOp fpu fun x y => .ofBool (x == y)
  | .NE =>
    if isFloat then floatOp fpu fun x y => .ofBool (!fpu.near x y)
    else intOp fpu fun x y => .ofBool (x != y)
  | .LT =>
    if isFloat then floatOp fpu fun x y => .ofBool (fpu.lt x y)
    else intOp fpu fun x y => .ofBool (x.slt y)
  | .LE =>
    if isFloat then floatOp fpu fun x y => .ofBool (fpu.le x y)
    else intOp fpu fun x y => .ofBool (x.sle y)
  | .GT =>
    if isFloat then floatOp fpu fun x y => .ofBool (fpu.lt y x)
    else intOp fpu fun x y => .ofBool (y.slt x)
  | .GE =>
    if isFloat then floatOp fpu fun x y => .ofBool (fpu.le y x)
    else intOp fpu fun x y => .ofBool (y.sle x)

/-! ### Where an instruction does not compute the operation -/

/-- Integer division: the divisor is zero, or it does not fit the 32 bits the instruction
takes of it, or the quotient overflows. -/
def divisionHazard (x y : Variant) : Bool :=
  match y.toInt fpu with
  | .error _ => false
  | .ok d =>
    d == 0 || (d.truncate 32).signExtend 64 != d ||
      (d == -1 && (x.toInt fpu).toOption == some (BitVec.intMin 64))

def floatDivisionHazard (y : Variant) : Bool :=
  match y.toFloat fpu with
  | .error _ => false
  | .ok d => fpu.isZero d

def binaryHazard (isFloat : Bool) (op : BinaryOp) (x y : Variant) : Bool :=
  match op with
  | .DIV => if isFloat then floatDivisionHazard fpu y else divisionHazard fpu x y
  | .MOD => !isFloat && divisionHazard fpu x y
  | _ => false

/-- The virtual machine has no case for `FNotEqual`. -/
def compareHazard (isFloat : Bool) (op : CompareOp) : Bool := isFloat && op == .NE

end Operations

/-! ## Evaluation -/

/-- The value `v` of a left operand that lives in the register of a variable is read after the
right operand, by which time the variable may have another value. -/
def operandOverwritten (left : Node) (v : Variant) (env : Env) : Prop :=
  match home left with
  | some x => env x ≠ some v
  | none => False

/-- After the `else` branch its value is moved to where the value of the first branch lives; a
variable that lives there loses its own. -/
def branchOverwrites (thenBranch elseBranch : Node) (v : Val) (env : Env) : Prop :=
  match home thenBranch with
  | some x => home elseBranch ≠ some x ∧ env x ≠ none ∧ env x ≠ v
  | none => False

instance (left : Node) (v : Variant) (env : Env) : Decidable (operandOverwritten left v env) := by
  unfold operandOverwritten
  split <;> infer_instance

instance (thenBranch elseBranch : Node) (v : Val) (env : Env) :
    Decidable (branchOverwrites thenBranch elseBranch v env) := by
  unfold branchOverwrites
  split <;> infer_instance

section Evaluation

variable (fpu : FloatUnit) (guard : Bool)

def evalOperands (left : Node) (op : Variant → Variant → Except VmErrorKind Variant)
    (isHazard : Variant → Variant → Bool) (evalLeft evalRight : Evaluation) : Evaluation :=
  fun env =>
    (evalLeft env).bind fun v env₁ =>
      (evalRight env₁).bindSpecified fun y env₂ =>
        match v with
        | none => .unspecified
        | some x =>
          .guarded guard (operandOverwritten left x env₂ ∨ isHazard x y = true)
            (.ofExcept env₂ (op x y))

def evalUnary (op : Variant → Except VmErrorKind Variant) (evalOperand : Evaluation) :
    Evaluation :=
  fun env => (evalOperand env).bindSpecified fun x env₁ => .ofExcept env₁ (op x)

def evalIf (thenBranch : Node) (elseBranch : Option Node)
    (evalCondition evalThen : Evaluation) (evalElse : Option Evaluation) : Evaluation :=
  fun env =>
    (evalCondition env).bindSpecified fun c env₁ =>
      if c.toBool fpu then evalThen env₁
      else
        match elseBranch, evalElse with
        | some e, some evalElse =>
          (evalElse env₁).bind fun v env₂ =>
            .guarded guard (branchOverwrites thenBranch e v env₂) (.value v env₂)
        | _, _ => .value none env₁

/-- Iterations of a loop, at most `n`. -/
def evalLoop (evalCondition evalBody : Evaluation) : ℕ → Evaluation
  | 0, _ => .outOfFuel
  | n + 1, env =>
    (evalCondition env).bindSpecified fun c env₁ =>
      if c.toBool fpu then (evalBody env₁).bind fun _ env₂ => evalLoop evalCondition evalBody n env₂
      else .value none env₁

/-- Bind the values of a `let` in order. -/
def evalBindings : List (String × Evaluation) → (Env → Outcome) → Evaluation
  | [], k, env => k env
  | (x, e) :: bs, k, env =>
    (e env).bind fun v env₁ => evalBindings bs k (Function.update env₁ x v)

def evalSequence : List Evaluation → Val → Evaluation
  | [], v, env => .value v env
  | e :: es, _, env => (e env).bind fun v env₁ => evalSequence es v env₁

mutual

/-- The evaluation of a tree with `fuel` iterations for every loop. -/
def eval (fuel : ℕ) : Node → Evaluation
  | .constInt n => fun env => .value (some (.int n)) env
  | .variableNode x _ _ _ => fun env => .value (env x) env
  | .binaryNode op left right =>
    evalOperands guard left (binaryValue fpu left.isFloat op) (binaryHazard fpu left.isFloat op)
      (eval fuel left) (eval fuel right)
  | .compareNode op left right =>
    evalOperands guard left (compareValue fpu left.isFloat op)
      (fun _ _ => compareHazard left.isFloat op) (eval fuel left) (eval fuel right)
  | .unaryNode op operand => evalUnary (unaryValue fpu operand.isFloat op) (eval fuel operand)
  | .ifNode condition thenBranch none =>
    evalIf fpu guard thenBranch none (eval fuel condition) (eval fuel thenBranch) none
  | .ifNode condition thenBranch (some e) =>
    evalIf fpu guard thenBranch (some e) (eval fuel condition) (eval fuel thenBranch)
      (some (eval fuel e))
  | .whileNode condition body _ => evalLoop fpu (eval fuel condition) (eval fuel body) fuel
  | .letNode bindings body => evalBindings (evals₂ fuel bindings) (eval fuel body)
  | .setVariable x value => fun env =>
    (eval fuel value env).bind fun v env₁ => .value v (Function.update env₁ x v)
  | .sequenceNode exprs => evalSequence (evals fuel exprs) none
  | .returnNode none => fun env => .returned none env
  | .returnNode (some value) => fun env => (eval fuel value env).bind .returned
  | _ => fun _ => .unspecified

def evals (fuel : ℕ) : List Node → List Evaluation
  | [] => []
  | n :: ns => eval fuel n :: evals fuel ns

def evals₂ (fuel : ℕ) : List (String × Node) → List (String × Evaluation)
  | [] => []
  | (x, n) :: ns => (x, eval fuel n) :: evals₂ fuel ns

end

/-- The evaluation of a body: a body that is evaluated to its end returns its value. The return
that ends it is missing where the last instruction of the body is a return that the evaluation
went past. -/
def evalBody (fuel : ℕ) (body : Node) : Evaluation := fun env =>
  (eval fpu guard fuel body env).bind fun v env' =>
    .guarded guard ((layout body).endsInReturn false = true) (.returned v env')

end Evaluation

/-- The values of the variables when a body is entered: a parameter has the value of its
argument register, and no other variable has a value. -/
def entryEnv (params : List String) (regs : ℕ → Variant) : Env := fun x =>
  if x ∈ params then some (regs (ARG_REGISTERS_OFFSET + params.idxOf x)) else none

/-! ## The variables a tree assigns -/

mutual

/-- The variables that are the target of a `set!` or a binding of a `let`. -/
def assigned : Node → List String
  | .binaryNode _ left right => assigned left ++ assigned right
  | .compareNode _ left right => assigned left ++ assigned right
  | .unaryNode _ operand => assigned operand
  | .ifNode condition thenBranch none => assigned condition ++ assigned thenBranch
  | .ifNode condition thenBranch (some e) =>
    assigned condition ++ assigned thenBranch ++ assigned e
  | .whileNode condition body _ => assigned condition ++ assigned body
  | .letNode bindings body => assignedBindings bindings ++ assigned body
  | .setVariable x value => x :: assigned value
  | .sequenceNode exprs => assignedEach exprs
  | .returnNode (some value) => assigned value
  | _ => []

def assignedEach : List Node → List String
  | [] => []
  | n :: ns => assigned n ++ assignedEach ns

def assignedBindings : List (String × Node) → List String
  | [] => []
  | (x, n) :: bs => x :: assigned n ++ assignedBindings bs

end

/-! ## The trees the meaning covers -/

/-- The trees that compute on variables, all of whose variables are declared. -/
inductive Computes (declared : String → Prop) : Node → Prop
  | constInt (v : I64) : Computes declared (.constInt v)
  | variableNode {x : String} (type : Option TypeDesc) (isHeap : Bool)
      (elemType : Option TypeDesc) (hx : declared x) :
      Computes declared (.variableNode x type isHeap elemType)
  | binaryNode (op : BinaryOp) {l r : Node} (hl : Computes declared l)
      (hr : Computes declared r) : Computes declared (.binaryNode op l r)
  | compareNode (op : CompareOp) {l r : Node} (hl : Computes declared l)
      (hr : Computes declared r) : Computes declared (.compareNode op l r)
  | unaryNode (op : UnaryOp) {e : Node} (he : Computes declared e) :
      Computes declared (.unaryNode op e)
  | ifThen {c t : Node} (hc : Computes declared c) (ht : Computes declared t) :
      Computes declared (.ifNode c t none)
  | ifElse {c t e : Node} (hc : Computes declared c) (ht : Computes declared t)
      (he : Computes declared e) : Computes declared (.ifNode c t (some e))
  | whileNode {c b : Node} (label : Option String) (hc : Computes declared c)
      (hb : Computes declared b) : Computes declared (.whileNode c b label)
  | letNode {bindings : List (String × Node)} {b : Node}
      (hnames : ∀ p ∈ bindings, declared p.1) (hbs : ∀ p ∈ bindings, Computes declared p.2)
      (hb : Computes declared b) : Computes declared (.letNode bindings b)
  | setVariable {x : String} {v : Node} (hx : declared x) (hv : Computes declared v) :
      Computes declared (.setVariable x v)
  | sequenceNode {exprs : List Node} (hexprs : ∀ n ∈ exprs, Computes declared n) :
      Computes declared (.sequenceNode exprs)
  | returnVoid : Computes declared (.returnNode none)
  | returnValue {v : Node} (hv : Computes declared v) :
      Computes declared (.returnNode (some v))

end Soot.Model
