import Soot.Program.Emit

/-!
# Where branches go

Loops and conditionals name the places they branch to by labels, and a loop may have its label from
the user, so that two loops can have the same one. Where a branch should go is where it goes if
every loop has labels of its own. A function is resolved as intended if every branch goes there,
and no path through the code leaves it at the end.
-/

set_option autoImplicit false

namespace Soot.Program

mutual

/-- The tree in which no loop has a label of the user, so that each gets its own. -/
def Node.unlabelled : Node → Node
  | .constInt value => .constInt value
  | .constFloat bits => .constFloat bits
  | .constString text => .constString text
  | .variableNode name type isHeap elemType => .variableNode name type isHeap elemType
  | .binaryNode op left right => .binaryNode op left.unlabelled right.unlabelled
  | .unaryNode op operand => .unaryNode op operand.unlabelled
  | .compareNode op left right => .compareNode op left.unlabelled right.unlabelled
  | .ifNode condition thenBranch none =>
    .ifNode condition.unlabelled thenBranch.unlabelled none
  | .ifNode condition thenBranch (some e) =>
    .ifNode condition.unlabelled thenBranch.unlabelled (some e.unlabelled)
  | .whileNode condition body _ => .whileNode condition.unlabelled body.unlabelled none
  | .letNode bindings body => .letNode (unlabelledBindings bindings) body.unlabelled
  | .setVariable name value => .setVariable name value.unlabelled
  | .setField base offset fieldType value =>
    .setField base.unlabelled offset fieldType value.unlabelled
  | .setAt base index elemType value =>
    .setAt base.unlabelled index.unlabelled elemType value.unlabelled
  | .sequenceNode exprs => .sequenceNode (unlabelledNodes exprs)
  | .returnNode none => .returnNode none
  | .returnNode (some value) => .returnNode (some value.unlabelled)
  | .callNode name args isNative type => .callNode name (unlabelledNodes args) isNative type
  | .methodCallNode fullName obj args methodId isNative type =>
    .methodCallNode fullName obj.unlabelled (unlabelledNodes args) methodId isNative type
  | .castNode value type => .castNode value.unlabelled type
  | .derefNode expr offset fieldType isInline =>
    .derefNode expr.unlabelled offset fieldType isInline
  | .atNode base index elemType => .atNode base.unlabelled index.unlabelled elemType
  | .newObject allocation typeName newType fields args =>
    .newObject allocation typeName newType (unlabelledBindings fields) (unlabelledNodes args)
  | .newArray allocation elemTypeName newType arraySize elements =>
    .newArray allocation elemTypeName newType arraySize (unlabelledNodes elements)
  | .storeGlobalNode name value => .storeGlobalNode name value.unlabelled
  | .storeFieldNode owner offset value => .storeFieldNode owner offset value.unlabelled

def unlabelledNodes : List Node → List Node
  | [] => []
  | n :: ns => n.unlabelled :: unlabelledNodes ns

def unlabelledBindings : List (String × Node) → List (String × Node)
  | [] => []
  | (name, n) :: ns => (name, n.unlabelled) :: unlabelledBindings ns

end

end Soot.Program

namespace Soot.Model

open Soot.Program

def branchOpcodes : List Opcode := [.Branch, .BranchIf, .BranchIfNot]

/-- Where the branch at a position should go: where its own label is placed. -/
def ownTarget (fn : FunctionNode) (body : Node) (pos : ℕ) : Option ℕ :=
  match emit body.unlabelled { fn.beginBody with labels := [] } with
  | .error _ => none
  | .ok (_, own) =>
    (own.unresolvedBranches.find? (·.2 == pos)).bind fun branch => own.labels.lookup branch.1

/-- Where execution can go on from an instruction at an index, within the function.
SRCLINE: VirtualMachine.cpp:288-303 -/
def successors (pc : ℕ) (i : Instruction) : List ℕ :=
  match i.opcode with
  | .Return => []
  | .Branch => [i.imm16]
  | .BranchIf | .BranchIfNot => [i.imm16, pc + 1]
  | _ => [pc + 1]

inductive ReachesIndex (code : List Instruction) : ℕ → Prop where
  | start : ReachesIndex code 0
  | next {pc target : ℕ} {i : Instruction} : ReachesIndex code pc → code[pc]? = some i →
      target ∈ successors pc i → ReachesIndex code target

/-- Every branch goes where it should, which is inside the code, and no path leaves the code. -/
structure BranchesMeant (fn : FunctionNode) (body : Node) (resolved : FunctionNode) : Prop where
  target : ∀ pos i, resolved.instructions[pos]? = some i → i.opcode ∈ branchOpcodes →
    ownTarget fn body pos = some i.imm16 ∧ i.imm16 < resolved.instructions.length
  inside : ∀ pc, ReachesIndex resolved.instructions pc → pc < resolved.instructions.length

/-- The labels that an emission has added to those of earlier ones, newest first. -/
def addedLabels (fn emitted : FunctionNode) : List (String × ℕ) :=
  emitted.labels.take (emitted.labels.length - fn.labels.length)

/-- The condition on an emitted function: it has added no label at two indices, and all inside the
code, where sixteen bits reach. -/
structure LabelsAgree (fn emitted : FunctionNode) : Prop where
  once : ∀ label i j, (label, i) ∈ addedLabels fn emitted → (label, j) ∈ addedLabels fn emitted →
    i = j
  within : ∀ label i, (label, i) ∈ addedLabels fn emitted →
    i < 65536 ∧ i < emitted.instructions.length

end Soot.Model
