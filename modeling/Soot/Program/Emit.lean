import Soot.Program.FunctionNode

/-!
# Emission

The `emit` methods of the expression nodes and `FunctionNode::emit_body`. Emitting a node
appends its instructions to the function and returns the register its value is in, or nothing
when the node registers none (`m_temp_regs`). The emitter of a node is a combinator over the
emitters of its children, under the name of the node class; `emit` ties them together along
the tree.
-/

set_option autoImplicit false

namespace Soot.Program

abbrev EmitM := StateT FunctionNode (Except EmitError)

abbrev Emitter := EmitM (Option ℕ)

/-! ## Primitives -/

/-- `get_temp_reg`: throws for a node that registered no register. -/
def getTempReg : Option ℕ → EmitM ℕ
  | some reg => pure reg
  | none => throw .noTempReg

def require (p : Prop) [Decidable p] (e : EmitError) : EmitM Unit :=
  if p then pure () else throw e

def allocTempReg : EmitM ℕ := fun fn => .ok fn.allocTempReg

def addConstant (value : Word) (kind : ConstKind) : EmitM ℕ :=
  fun fn => .ok (fn.addConstant value kind)

def addInstruction (op : Opcode) (dest src1 src2 : ℕ) : EmitM Unit :=
  modify (·.pushInstruction ⟨op, dest, src1, src2⟩)

def addInstructionImmU16 (op : Opcode) (dest imm : ℕ) : EmitM Unit :=
  modify (·.pushInstruction (Instruction.setImm16 ⟨op, dest, 0, 0⟩ imm))

def addLabel (name : String) : EmitM Unit := modify (·.addLabel name)

def createUniqueLabel (pre : String) : EmitM String := fun fn => .ok (fn.createUniqueLabel pre)

def addBranchReference (label : String) : EmitM Unit := fun fn => do
  return ((), ← fn.addBranchReference label)

def loadConstant (op : Opcode) (value : Word) (kind : ConstKind) : EmitM ℕ := do
  let idx ← addConstant value kind
  let reg ← allocTempReg
  addInstructionImmU16 op reg idx
  return reg

/-- `LookupPointer` of a name in a fresh temporary. -/
def lookupName (name : String) : EmitM ℕ := loadConstant .LookupPointer (stringId name) .SID

def addBranch (op : Opcode) (condition : ℕ) (label : String) : EmitM Unit := do
  addInstruction op condition 0 0
  addBranchReference label

def emitEach : List Emitter → EmitM (List (Option ℕ))
  | [] => return []
  | e :: es => do
    let reg ← e
    return reg :: (← emitEach es)

/-- The emissions of a list of nodes, each with the register of its value. -/
def emitRegs : List Emitter → EmitM (List ℕ)
  | [] => return []
  | e :: es => do
    let reg ← getTempReg (← e)
    return reg :: (← emitRegs es)

/-- Move values into the argument registers, from the `i`-th on. -/
def moveArguments (i : ℕ) : List ℕ → EmitM Unit
  | [] => return
  | reg :: regs => do
    addInstruction .Move (u8 (ARG_REGISTERS_OFFSET + i)) reg 0
    moveArguments (i + 1) regs

/-- The address `base + offset`, into a register: an immediate where it fits a byte, else a
constant. -/
def offsetInto (addrReg base offset : ℕ) : EmitM Unit := do
  if offset ≤ 0xFF then
    addInstruction .IAddImm addrReg base offset
  else
    let offReg ← loadConstant .LoadStaticI64Imm (BitVec.ofNat 64 offset) .INT
    addInstruction .IAdd addrReg base offReg

/-- The address `base + offset`, in a fresh temporary. -/
def addOffset (base offset : ℕ) : EmitM ℕ := do
  let addrReg ← allocTempReg
  offsetInto addrReg base offset
  return addrReg

/-! ## Opcodes -/

/-- SRCLINE: BinaryNode.hpp:59-66 -/
def BinaryOp.opcode (isFloat : Bool) : BinaryOp → Opcode
  | .ADD => if isFloat then .FAdd else .IAdd
  | .SUB => if isFloat then .FSub else .ISub
  | .MUL => if isFloat then .FMul else .IMul
  | .DIV => if isFloat then .FDiv else .IDiv
  | .MOD => if isFloat then .FMod else .IMod

/-- SRCLINE: UnaryNode.cpp:26-33 -/
def UnaryOp.opcode (isFloat : Bool) : UnaryOp → Opcode
  | .ABS => if isFloat then .FAbs else .IAbs
  | .NEG => if isFloat then .FNeg else .INeg
  | .NOT => .OpLogNot
  | .BITNOT => .OpBitNot

/-- SRCLINE: CompareNode.hpp:53-64 -/
def CompareOp.opcode (isFloat : Bool) : CompareOp → Opcode
  | .EQ => if isFloat then .FEqual else .IEqual
  | .NE => if isFloat then .FNotEqual else .INotEqual
  | .LT => if isFloat then .FLessThan else .ILessThan
  | .LE => if isFloat then .FLessThanEqual else .ILessThanEqual
  | .GT => if isFloat then .FGreaterThan else .IGreaterThan
  | .GE => if isFloat then .FGreaterThanEqual else .IGreaterThanEqual

/-- The load instruction for a scalar type. SRCLINE: DerefNode.cpp:52-68 -/
def loadOpcode (t : TypeDesc) : EmitM Opcode :=
  if t.floatRegister then pure .LoadFloat
  else
    match t.loadSize with
    | 1 => pure (if t.loadSigned then .LoadI8 else .LoadU8)
    | 2 => pure (if t.loadSigned then .LoadI16 else .LoadU16)
    | 4 => pure (if t.loadSigned then .LoadI32 else .LoadU32)
    | 8 => pure (if t.loadSigned then .LoadI64 else .LoadU64)
    | size => throw (.unsupportedSize size)

/-- `store_op_for`. SRCLINE: NewNode.cpp:21-34 -/
def storeOpFor (t : TypeDesc) : EmitM Opcode :=
  if t.floatRegister then pure .StoreFloat
  else
    match t.loadSize with
    | 1 => pure .StoreI8
    | 2 => pure .StoreI16
    | 4 => pure .StoreI32
    | 8 => pure .StoreI64
    | size => throw (.unsupportedSize size)

/-- The store instruction of `SetNode` for the type of its target.
SRCLINE: SetNode.cpp:58-72 -/
def setStoreOpcode (t : TypeDesc) : EmitM Opcode :=
  if t.isReference then pure .StorePointer else storeOpFor t

/-! ## The emitters of the node classes -/

/-- SRCLINE: ConstNode.hpp:112-124 -/
def emitConstString (text : String) : Emitter := do
  match (← get).strings with
  | none => throw .noGlobalState
  | some pool =>
    let (offset, pool') := pool.lookupOrAdd text
    modify fun fn => { fn with strings := some pool' }
    return some (← loadConstant .LoadStaticPointer (BitVec.ofNat 64 offset) .STRING)

/-- SRCLINE: VariableNode.hpp:57-84 -/
def emitVariable (name : String) (isHeap : Bool) : Emitter := do
  match (← get).lookupVariable name with
  | some info => return some info.reg
  | none =>
    let reg ← lookupName name
    if isHeap then
      let derefReg ← allocTempReg
      addInstruction .LoadPointer derefReg reg 0
      return some derefReg
    else return some reg

/-- SRCLINE: BinaryNode.hpp:45-81 -/
def emitBinary (opcode : Opcode) (left right : Emitter) : Emitter := do
  let leftTemp ← left
  let rightTemp ← right
  let leftReg ← getTempReg leftTemp
  let rightReg ← getTempReg rightTemp
  let destReg ← allocTempReg
  addInstruction opcode destReg leftReg rightReg
  return some destReg

/-- SRCLINE: UnaryNode.cpp:9-39 -/
def emitUnary (opcode : Opcode) (operand : Emitter) : Emitter := do
  let srcReg ← getTempReg (← operand)
  let dstReg ← allocTempReg
  addInstruction opcode dstReg srcReg 0
  return some dstReg

def moveUnlessSame (dst src : ℕ) : EmitM Unit :=
  if src = dst then pure () else addInstruction .Move dst src 0

/-- SRCLINE: IfNode.hpp:33-73 -/
def emitIf (condition thenBranch : Emitter) (elseBranch : Option Emitter) : Emitter := do
  let condReg ← getTempReg (← condition)
  let elseLabel ← createUniqueLabel "else"
  let endLabel ← createUniqueLabel "endif"
  addBranch .BranchIfNot condReg elseLabel
  let thenReg ← getTempReg (← thenBranch)
  addBranch .Branch 0 endLabel
  addLabel elseLabel
  match elseBranch with
  | none => pure ()
  | some e =>
    let elseReg ← getTempReg (← e)
    moveUnlessSame thenReg elseReg
  addLabel endLabel
  return some thenReg

/-- The entry and exit labels of a loop: the user's label where there is one, else two
generated ones. -/
def whileLabels (label : Option String) : EmitM (String × String) :=
  match label with
  | some l =>
    if l = "" then do return (← createUniqueLabel "while_start", ← createUniqueLabel "while_end")
    else return (l, l ++ "_end")
  | none => do return (← createUniqueLabel "while_start", ← createUniqueLabel "while_end")

/-- SRCLINE: WhileNode.hpp:49-106 -/
def emitWhile (condition body : Emitter) (label : Option String) : Emitter := do
  let (startLabel, endLabel) ← whileLabels label
  addLabel startLabel
  let condReg ← getTempReg (← condition)
  addBranch .BranchIfNot condReg endLabel
  let _ ← body
  addBranch .Branch 0 startLabel
  addLabel endLabel
  return some condReg

/-- One binding of a `let`. SRCLINE: LetNode.cpp:10-17 -/
def emitBinding (name : String) (value : Emitter) : EmitM Unit := do
  let valueReg ← getTempReg (← value)
  let localReg := (← get).getVariableReg name
  moveUnlessSame localReg valueReg

def emitBindings : List (String × Emitter) → EmitM Unit
  | [] => return
  | b :: bs => do
    emitBinding b.1 b.2
    emitBindings bs

/-- SRCLINE: LetNode.cpp:8-22 -/
def emitLet (bindings : List (String × Emitter)) (body : Emitter) : Emitter := do
  emitBindings bindings
  return some (← getTempReg (← body))

/-- SRCLINE: SetNode.cpp:26-48 -/
def emitSetVariable (name : String) (value : Emitter) : Emitter := do
  let valueReg ← getTempReg (← value)
  match (← get).lookupVariable name with
  | none => throw (.undefinedVariable name)
  | some info =>
    moveUnlessSame info.reg valueReg
    return some valueReg

/-- SRCLINE: SequenceNode.hpp:38-54 -/
def emitSequence (exprs : List Emitter) : Emitter := do
  let temps ← emitEach exprs
  return temps.getLast?.join

/-- SRCLINE: ReturnNode.hpp:21-29 -/
def emitReturn (value : Option Emitter) : Emitter := do
  match value with
  | some v =>
    let reg ← getTempReg (← v)
    addInstruction .Return reg 0 0
  | none => addInstruction .Return 0 0 0
  return none

def callOpcode (isNative : Bool) : Opcode := if isNative then .CallFf else .Call

/-- SRCLINE: CallNode.hpp:31-56 -/
def emitCall (name : String) (args : List Emitter) (isNative : Bool) : Emitter := do
  let temps ← emitEach args
  let funcReg ← lookupName name
  moveArguments 0 (← temps.mapM getTempReg)
  let resultReg ← allocTempReg
  addInstruction (callOpcode isNative) resultReg funcReg (u8 args.length)
  return some resultReg

/-- SRCLINE: MethodCallNode.cpp:30-98 -/
def emitMethodCall (fullName : String) (obj : Emitter) (args : List Emitter)
    (methodId : Option ℕ) (isNative : Bool) : Emitter := do
  match methodId with
  | some id =>
    let argRegs ← emitRegs (obj :: args)
    moveArguments 0 argRegs
    let idxReg ← loadConstant .LoadStaticI64Imm (BitVec.ofNat 64 id) .INT
    let retReg ← allocTempReg
    addInstruction .CallMethod retReg idxReg (u8 argRegs.length)
    return some retReg
  | none =>
    let fnReg ← lookupName fullName
    let argRegs ← emitRegs (obj :: args)
    moveArguments 0 argRegs
    let retReg ← allocTempReg
    addInstruction (callOpcode isNative) retReg fnReg (u8 argRegs.length)
    return some retReg

/-- SRCLINE: CastNode.cpp:8-34 -/
def castOpcode (src dst : String) : Opcode :=
  if src = dst then .Move
  else if dst = "float" then .CastFloat
  else if dst = "int" then .CastInteger
  else .Move

/-- `DerefNode::emit_lvalue`: the byte operand holds the offset modulo 256.
SRCLINE: DerefNode.cpp:103-121 -/
def emitDerefLvalue (expr : Emitter) (offset : ℕ) : EmitM ℕ := do
  let baseReg ← getTempReg (← expr)
  let addrReg ← allocTempReg
  addInstruction .IAddImm addrReg baseReg (u8 offset)
  return addrReg

/-- SRCLINE: DerefNode.cpp:37-97 -/
def emitDeref (expr : Emitter) (offset : ℕ) (fieldType : Option TypeDesc) (isInline : Bool) :
    Emitter := do
  let addrReg ← emitDerefLvalue expr offset
  match fieldType with
  | none => throw .neitherValueNorReference
  | some t =>
    match t.typeClass with
    | .null => throw .neitherValueNorReference
    | .value =>
      let destReg ← allocTempReg
      addInstruction (← loadOpcode t) destReg addrReg 0
      return some destReg
    | .reference =>
      if isInline then return some addrReg
      else
        let destReg ← allocTempReg
        addInstruction .LoadPointer destReg addrReg 0
        return some destReg

/-- An index times the element size. SRCLINE: AtNode.cpp:101-111 -/
def scaleIndex (offsetReg indexReg elemSize : ℕ) : EmitM Unit := do
  if elemSize ≤ 0xFF then
    addInstruction .IMulImm offsetReg indexReg elemSize
  else
    let sizeReg ← loadConstant .LoadStaticI64Imm (BitVec.ofNat 64 elemSize) .INT
    addInstruction .IMul offsetReg indexReg sizeReg

/-- `AtNode::emit_lvalue`; `constIndex` is the index where it is an integer literal.
SRCLINE: AtNode.cpp:51-118 -/
def emitAtLvalue (base index : Emitter) (constIndex : Option I64) (elemType : TypeDesc) :
    EmitM ℕ := do
  let baseReg ← getTempReg (← base)
  require (0 < elemType.sizeInMemory) .invalidElementSize
  match constIndex with
  | some idx =>
    require (idx.slt 0 = false) .negativeIndex
    addOffset baseReg (idx * BitVec.ofNat 64 elemType.sizeInMemory).toNat
  | none =>
    let indexReg ← getTempReg (← index)
    let offsetReg ← allocTempReg
    scaleIndex offsetReg indexReg elemType.sizeInMemory
    let addrReg ← allocTempReg
    addInstruction .IAdd addrReg baseReg offsetReg
    return addrReg

/-- SRCLINE: AtNode.cpp:9-49 -/
def emitAt (base index : Emitter) (constIndex : Option I64) (elemType : Option TypeDesc) :
    Emitter := do
  match elemType with
  | none => throw .noElementType
  | some t =>
    let addrReg ← emitAtLvalue base index constIndex t
    if t.isReference then return some addrReg
    else
      let op ← loadOpcode t
      let resultReg ← allocTempReg
      addInstruction op resultReg addrReg 0
      return some resultReg

/-- `SetNode` with a field target. SRCLINE: SetNode.cpp:88-112 -/
def emitSetField (base : Emitter) (offset : ℕ) (fieldType : Option TypeDesc) (value : Emitter) :
    Emitter := do
  let valueReg ← getTempReg (← value)
  match fieldType with
  | none => throw .noFieldType
  | some t =>
    let addrReg ← emitDerefLvalue base offset
    addInstruction (← setStoreOpcode t) addrReg valueReg 0
    return some valueReg

/-- `SetNode` with an element target. SRCLINE: SetNode.cpp:50-86 -/
def emitSetAt (base index : Emitter) (constIndex : Option I64) (elemType : Option TypeDesc)
    (value : Emitter) : Emitter := do
  let valueReg ← getTempReg (← value)
  match elemType with
  | none => throw .noElementType
  | some t =>
    let addrReg ← emitAtLvalue base index constIndex t
    addInstruction (← setStoreOpcode t) addrReg valueReg 0
    return some valueReg

/-- A native allocation call with two constant arguments, each moved to its argument register
as soon as it is loaded. SRCLINE: NewNode.cpp:82-107, 218-238 -/
def emitAllocate (name : String) (arg0 arg1 : Word) (kind : ConstKind) : EmitM ℕ := do
  let fnReg ← lookupName name
  let reg0 ← loadConstant .LoadStaticI64Imm arg0 kind
  addInstruction .Move ARG_REGISTERS_OFFSET reg0 0
  let reg1 ← loadConstant .LoadStaticI64Imm arg1 kind
  addInstruction .Move (ARG_REGISTERS_OFFSET + 1) reg1 0
  let ptrReg ← allocTempReg
  addInstruction .CallFf ptrReg fnReg 2
  return ptrReg

/-- One initialised field: address first, then value, then the store. The type header of a
basic, fields of unknown type and reference fields are skipped.
SRCLINE: NewNode.cpp:331-365 -/
def emitFieldInit (newType : NewType) (basePtrReg : ℕ) (field : FieldDesc) (init : Emitter) :
    EmitM Unit := do
  if field.name = "type" ∧ newType.isBasic then return
  else
    match field.type with
    | none => return
    | some t =>
      if t.isReference then return
      else
        let addrReg ← allocTempReg
        addInstruction .IAddImm addrReg basePtrReg (u8 field.offset)
        let valueReg ← getTempReg (← init)
        addInstruction (← storeOpFor t) addrReg valueReg 0

/-- The keyword initialisers of an object; those that name no field are skipped. -/
def emitKeywordInits (newType : NewType) (basePtrReg : ℕ) (fields : List FieldDesc) :
    List (String × Emitter) → EmitM Unit
  | [] => return
  | (name, init) :: rest => do
    match fields.find? (·.name == name) with
    | none => pure ()
    | some field => emitFieldInit newType basePtrReg field init
    emitKeywordInits newType basePtrReg fields rest

/-- The positional initialisers of an object; those beyond its fields are ignored. -/
def emitPositionalInits (newType : NewType) (basePtrReg : ℕ) :
    List FieldDesc → List Emitter → EmitM Unit
  | field :: fields, init :: inits => do
    emitFieldInit newType basePtrReg field init
    emitPositionalInits newType basePtrReg fields inits
  | _, _ => return

/-- The run-time type tag of a basic. SRCLINE: NewNode.cpp:246-251 -/
def emitTypeTag (newType : NewType) (ptrReg : ℕ) (typeName : String) : EmitM Unit := do
  if newType.isBasic then
    let sidReg ← loadConstant .LoadStaticI64Imm (stringId typeName) .SID
    addInstruction .StoreI64 ptrReg sidReg 0
  else return

/-- The call of the type's own `new` method. SRCLINE: NewNode.cpp:259-300 -/
def emitConstructorCall (allocation typeName : String) (ptrReg : ℕ) (inits : List Emitter) :
    Emitter := do
  let ctorReg ← lookupName (typeName ++ "-new")
  let allocReg ← loadConstant .LoadStaticI64Imm (stringId allocation) .SID
  let initRegs ← emitRegs inits
  moveArguments 0 (allocReg :: ptrReg :: initRegs)
  let retReg ← allocTempReg
  addInstruction .Call retReg ctorReg (u8 (initRegs.length + 2))
  return some retReg

/-- `emit_field_init_stores`. SRCLINE: NewNode.cpp:316-398 -/
def emitFieldInitStores (newType : NewType) (ptrReg : ℕ) (fields : List (String × Emitter))
    (args : List Emitter) : EmitM Unit :=
  match newType.fields with
  | none => pure ()
  | some fieldDescs =>
    if fields.isEmpty then emitPositionalInits newType ptrReg fieldDescs args
    else emitKeywordInits newType ptrReg fieldDescs fields

/-- `NewNode::emit` for a single object. SRCLINE: NewNode.cpp:38-43, 211-314 -/
def emitNewObject (allocation typeName : String) (newType : Option NewType)
    (fields : List (String × Emitter)) (args : List Emitter) : Emitter := do
  require (allocation ≠ "static") .staticNew
  match newType with
  | none => throw (.unknownType typeName)
  | some t =>
    let ptrReg ← emitAllocate "allocate" (stringId allocation) (stringId typeName) .SID
    emitTypeTag t ptrReg typeName
    if t.hasNewMethod then
      emitConstructorCall allocation typeName ptrReg
        (if fields.isEmpty then args else fields.map Prod.snd)
    else
      emitFieldInitStores t ptrReg fields args
      return some ptrReg

/-- One field of a structured element of an inline array: value first, then address, then the
store. SRCLINE: NewNode.cpp:137-175 -/
def emitElementField (ptrReg elemBase : ℕ) (field : FieldDesc) (init : Option Emitter) :
    EmitM Unit := do
  match init, field.type with
  | some e, some t =>
    require (t.isReference = false) (.referenceField field.name)
    let valueReg ← getTempReg (← e)
    let addrReg ← addOffset ptrReg (elemBase + field.offset)
    addInstruction (← storeOpFor t) addrReg valueReg 0
  | _, _ => return

/-- The fields of one structured element, in the order the structure declares them. -/
def emitElementFields (ptrReg elemBase : ℕ) (inits : List (String × Emitter)) :
    List FieldDesc → EmitM Unit
  | [] => return
  | field :: fields => do
    emitElementField ptrReg elemBase field (inits.lookup field.name)
    emitElementFields ptrReg elemBase inits fields

/-- The elements of an inline array of structures, from the `i`-th on. An element is given by
its initialisers, where it is a `new` form. -/
def emitStructElements (ptrReg elemSize : ℕ) (fields : List FieldDesc) (i : ℕ) :
    List (Option (List (String × Emitter))) → EmitM Unit
  | [] => return
  | none :: _ => throw .elementNotNew
  | some inits :: rest => do
    emitElementFields ptrReg (i * elemSize) inits fields
    emitStructElements ptrReg elemSize fields (i + 1) rest

/-- The elements of an inline array of scalars, from the `i`-th on.
SRCLINE: NewNode.cpp:183-206 -/
def emitScalarElements (ptrReg elemSize : ℕ) (storeOp : Opcode) (i : ℕ) :
    List Emitter → EmitM Unit
  | [] => return
  | e :: es => do
    let valueReg ← getTempReg (← e)
    let addrReg ← addOffset ptrReg (i * elemSize)
    addInstruction storeOp addrReg valueReg 0
    emitScalarElements ptrReg elemSize storeOp (i + 1) es

def emitElements (t : NewType) (ptrReg : ℕ) (elements : List Emitter)
    (inits : List (Option (List (String × Emitter)))) : EmitM Unit := do
  if t.desc.isReference then
    match t.fields with
    | none => throw .elementNotStructure
    | some fields => emitStructElements ptrReg t.desc.sizeInMemory fields 0 inits
  else
    let storeOp ← storeOpFor t.desc
    emitScalarElements ptrReg t.desc.sizeInMemory storeOp 0 elements

/-- `NewNode::emit` in inline-array mode. SRCLINE: NewNode.cpp:61-210 -/
def emitNewArray (allocation elemTypeName : String) (newType : Option NewType) (arraySize : ℕ)
    (elements : List Emitter) (inits : List (Option (List (String × Emitter)))) : Emitter := do
  require (allocation ≠ "static") .staticNew
  match newType with
  | none => throw (.unknownType elemTypeName)
  | some t =>
    require (t.desc.sizeInMemory ≠ 0 ∧ arraySize ≠ 0) .zeroSizeArray
    let ptrReg ← emitAllocate "allocate-bytes"
      (BitVec.ofNat 64 (t.desc.sizeInMemory * arraySize)) (BitVec.ofNat 64 t.desc.alignment) .INT
    emitElements t ptrReg elements inits
    return some ptrReg

/-- SRCLINE: StoreGlobalNode.cpp:7-34 -/
def emitStoreGlobal (name : String) (value : Emitter) : Emitter := do
  let valueReg ← getTempReg (← value)
  let slotReg ← lookupName name
  addInstruction .StorePointer slotReg valueReg 0
  return some valueReg

/-- SRCLINE: StoreFieldNode.cpp:8-60 -/
def emitStoreField (owner : String) (offset : ℕ) (value : Emitter) : Emitter := do
  let ownerReg ← lookupName owner
  let addrReg ← addOffset ownerReg offset
  let valueReg ← getTempReg (← value)
  addInstruction .StorePointer addrReg valueReg 0
  return some valueReg

/-! ## Emission of a tree -/

def Node.constIndex : Node → Option I64
  | .constInt v => some v
  | _ => none

mutual

def emit : Node → Emitter
  | .constInt value => some <$> loadConstant .LoadStaticI64Imm value .INT
  | .constFloat bits => some <$> loadConstant .LoadStaticFloatImm bits .FLOAT
  | .constString text => emitConstString text
  | .variableNode name _ isHeap _ => emitVariable name isHeap
  | .binaryNode op left right => emitBinary (op.opcode left.isFloat) (emit left) (emit right)
  | .unaryNode op operand => emitUnary (op.opcode operand.isFloat) (emit operand)
  | .compareNode op left right => emitBinary (op.opcode left.isFloat) (emit left) (emit right)
  | .ifNode condition thenBranch none => emitIf (emit condition) (emit thenBranch) none
  | .ifNode condition thenBranch (some e) =>
    emitIf (emit condition) (emit thenBranch) (some (emit e))
  | .whileNode condition body label => emitWhile (emit condition) (emit body) label
  | .letNode bindings body => emitLet (emitters₂ bindings) (emit body)
  | .setVariable name value => emitSetVariable name (emit value)
  | .setField base offset fieldType value =>
    emitSetField (emit base) offset fieldType (emit value)
  | .setAt base index elemType value =>
    emitSetAt (emit base) (emit index) index.constIndex elemType (emit value)
  | .sequenceNode exprs => emitSequence (emitters exprs)
  | .returnNode none => emitReturn none
  | .returnNode (some value) => emitReturn (some (emit value))
  | .callNode name args isNative _ => emitCall name (emitters args) isNative
  | .methodCallNode fullName obj args methodId isNative _ =>
    emitMethodCall fullName (emit obj) (emitters args) methodId isNative
  | .castNode value type =>
    emitUnary (castOpcode (value.typeName.getD "object") ((type.map TypeDesc.name).getD "object"))
      (emit value)
  | .derefNode expr offset fieldType isInline => emitDeref (emit expr) offset fieldType isInline
  | .atNode base index elemType => emitAt (emit base) (emit index) index.constIndex elemType
  | .newObject allocation typeName newType fields args =>
    emitNewObject allocation typeName newType (emitters₂ fields) (emitters args)
  | .newArray allocation elemTypeName newType arraySize elements =>
    emitNewArray allocation elemTypeName newType arraySize (emitters elements)
      (elementInits elements)
  | .storeGlobalNode name value => emitStoreGlobal name (emit value)
  | .storeFieldNode owner offset value => emitStoreField owner offset (emit value)

def emitters : List Node → List Emitter
  | [] => []
  | n :: ns => emit n :: emitters ns

def emitters₂ : List (String × Node) → List (String × Emitter)
  | [] => []
  | (name, n) :: ns => (name, emit n) :: emitters₂ ns

/-- The keyword initialisers of the elements of an inline array. -/
def elementInits : List Node → List (Option (List (String × Emitter)))
  | [] => []
  | .newObject _ _ _ fields _ :: ns => some (emitters₂ fields) :: elementInits ns
  | .newArray _ _ _ _ _ :: ns => some [] :: elementInits ns
  | _ :: ns => none :: elementInits ns

end

/-! ## Emission of a body -/

namespace FunctionNode

/-- The parameters' registers receive the arguments, parameter `i` from argument register
`i`. -/
def prologue (fn : FunctionNode) : List Instruction :=
  (fn.variableInfos.take fn.paramCount).mapIdx fun i info =>
    ⟨.Move, info.reg, u8 (ARG_REGISTERS_OFFSET + i), 0⟩

/-- What `emit_body` clears, and the prologue. The kinds of the constants, the labels and the
branches that are still unresolved are kept. -/
def beginBody (fn : FunctionNode) : FunctionNode :=
  { fn with instructions := fn.prologue, constants := [], nextTempReg := 0 }

/-- The return that is appended unless the last instruction is one. -/
def appendReturn (fn : FunctionNode) (result : Option ℕ) : FunctionNode :=
  if fn.instructions.getLast?.map Instruction.opcode = some .Return then fn
  else fn.pushInstruction ⟨.Return, result.getD 0, 0, 0⟩

/-- `emit_body`. SRCLINE: FunctionNode.cpp:207-239 -/
def emitBody (fn : FunctionNode) (body : Node) : Except EmitError FunctionNode := do
  let (result, fn') ← emit body fn.beginBody
  return (fn'.appendReturn result).resolveBranches

end FunctionNode

end Soot.Program
