import Soot.Program.Instruction
import Soot.Program.Node
import Soot.Program.StringId

/-!
# The state of a function under emission

`FunctionNode` without its tree: variables, the counter of temporaries, the instruction
stream, the constant pool with its kinds, and the labels with the branches that refer to them.
The two maps from names (`m_variable_index`, `m_labels`) are association lists whose newest
entry is first, so that a later `map[name] = value` hides an earlier one. The map from nodes to
temporaries (`m_temp_regs`) is not part of the state: emitting a node returns its register.
-/

set_option autoImplicit false

namespace Soot.Program

/-- SRCLINE: VariableInfo.hpp -/
structure VariableInfo where
  name : String
  reg : ℕ
  isParameter : Bool
  deriving DecidableEq

/-- SRCLINE: FunctionNode.hpp -/
inductive ConstKind where
  | INT | FLOAT | STRING | SID
  deriving DecidableEq

inductive EmitError where
  | noTempReg
  | noGlobalState
  | noInstructionToPatch
  | undefinedVariable (name : String)
  | noElementType
  | noFieldType
  | invalidElementSize
  | negativeIndex
  | unsupportedSize (size : ℕ)
  | neitherValueNorReference
  | staticNew
  | unknownType (name : String)
  | zeroSizeArray
  | elementNotStructure
  | elementNotNew
  | referenceField (name : String)
  deriving DecidableEq

/-- SRCLINE: FunctionNode.hpp:34-85 -/
structure FunctionNode where
  variableInfos : List VariableInfo
  variableIndex : List (String × ℕ)
  paramCount : ℕ
  nextTempReg : ℕ
  instructions : List Instruction
  constants : List Word
  constantsKind : List ConstKind
  labels : List (String × ℕ)
  unresolvedBranches : List (String × ℕ)
  labelCounter : ℕ
  /-- the strings of the data segment, once `set_global_state` has been called -/
  strings : Option StringPool
  deriving DecidableEq

namespace FunctionNode

def new (strings : Option StringPool) : FunctionNode :=
  ⟨[], [], 0, 0, [], [], [], [], [], 0, strings⟩

/-! ## Variables -/

/-- `add_parameter` and `add_local_variable`: the register is the position, truncated to a
byte; the name now refers to the new entry. SRCLINE: FunctionNode.cpp:38-44, 68-72 -/
def addVariable (fn : FunctionNode) (name : String) (isParameter : Bool) : FunctionNode :=
  { fn with
    variableInfos := fn.variableInfos ++ [⟨name, u8 fn.variableInfos.length, isParameter⟩]
    variableIndex := (name, fn.variableInfos.length) :: fn.variableIndex
    paramCount := if isParameter then fn.paramCount + 1 else fn.paramCount }

def addParameter (fn : FunctionNode) (name : String) : FunctionNode := fn.addVariable name true

def addLocalVariable (fn : FunctionNode) (name : String) : FunctionNode :=
  fn.addVariable name false

/-- A function with its parameters, and then the variables its body binds. -/
def declare (fn : FunctionNode) (params locals : List String) : FunctionNode :=
  locals.foldl addLocalVariable (params.foldl addParameter fn)

def lookupVariable (fn : FunctionNode) (name : String) : Option VariableInfo :=
  (fn.variableIndex.lookup name).bind fun i => fn.variableInfos[i]?

/-- `get_variable_reg`: register zero for a name that is not a variable. -/
def getVariableReg (fn : FunctionNode) (name : String) : ℕ :=
  match fn.lookupVariable name with
  | some info => info.reg
  | none => 0

/-! ## Temporaries, constants, instructions and labels -/

/-- `alloc_temp_reg`: temporaries follow the variables; they are never freed, and their
number is not checked. SRCLINE: FunctionNode.cpp:93-97 -/
def allocTempReg (fn : FunctionNode) : ℕ × FunctionNode :=
  (u8 (u8 fn.variableInfos.length + fn.nextTempReg), { fn with nextTempReg := fn.nextTempReg + 1 })

/-- `add_constant`: a value that is in the pool, with whatever kind, keeps its index.
SRCLINE: FunctionNode.cpp:126-133 -/
def addConstant (fn : FunctionNode) (value : Word) (kind : ConstKind) : ℕ × FunctionNode :=
  if fn.constants.contains value then (u16 (fn.constants.idxOf value), fn)
  else
    (u16 fn.constants.length,
      { fn with
        constants := fn.constants ++ [value]
        constantsKind := fn.constantsKind ++ [kind] })

def pushInstruction (fn : FunctionNode) (i : Instruction) : FunctionNode :=
  { fn with instructions := fn.instructions ++ [i] }

def addLabel (fn : FunctionNode) (name : String) : FunctionNode :=
  { fn with labels := (name, fn.instructions.length) :: fn.labels }

def createUniqueLabel (fn : FunctionNode) (pre : String) : String × FunctionNode :=
  (pre ++ "_" ++ toString fn.labelCounter, { fn with labelCounter := fn.labelCounter + 1 })

/-- `add_branch_reference`: the last instruction branches to the label. -/
def addBranchReference (fn : FunctionNode) (label : String) : Except EmitError FunctionNode :=
  if fn.instructions.isEmpty then .error .noInstructionToPatch
  else .ok { fn with
    unresolvedBranches := fn.unresolvedBranches ++ [(label, fn.instructions.length - 1)] }

/-- One round of `resolve_branches`: a label that was never added is skipped. -/
def resolveBranch (labels : List (String × ℕ)) (code : List Instruction)
    (branch : String × ℕ) : List Instruction :=
  match labels.lookup branch.1 with
  | none => code
  | some target => code.modify branch.2 fun i => i.setImm16 (u16 target)

/-- `resolve_branches`. SRCLINE: FunctionNode.cpp:178-186 -/
def resolveBranches (fn : FunctionNode) : FunctionNode :=
  { fn with
    instructions := fn.unresolvedBranches.foldl (resolveBranch fn.labels) fn.instructions
    unresolvedBranches := [] }

end FunctionNode

end Soot.Program
