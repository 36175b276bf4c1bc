import Soot.Program.Emit

/-!
# The constants a tree asks for

Every constant load a tree emits, in order, before anything is emitted: the instruction, the
raw value and the kind the node asks for. What a tree asks for depends on which names are
variables of the function and on the string pool, which numbers the string literals.
-/

set_option autoImplicit false

namespace Soot.Model

open Soot.Program

/-- A constant a node asks for, and the instruction that is to load it. -/
structure Request where
  op : Opcode
  value : Word
  kind : ConstKind
  deriving DecidableEq

def readsPool : Opcode → Bool
  | .LookupInt | .LookupFloat | .LookupPointer | .LoadStaticInt | .LoadStaticFloat
  | .LoadStaticPointer | .LoadStaticI8Imm | .LoadStaticU8Imm | .LoadStaticI16Imm
  | .LoadStaticU16Imm | .LoadStaticI32Imm | .LoadStaticU32Imm | .LoadStaticI64Imm
  | .LoadStaticU64Imm | .LoadStaticFloatImm | .LoadStaticPointerImm => true
  | _ => false

/-- The constants and their kinds after one more request: a value that is in the pool is not
added again. -/
def askPool (pool : List Word × List ConstKind) (q : Request) : List Word × List ConstKind :=
  if pool.1.contains q.value then pool else (pool.1 ++ [q.value], pool.2 ++ [q.kind])

abbrev Asking := Option StringPool → List Request × Option StringPool

namespace Asking

def nothing : Asking := fun p => ([], p)

def ask (op : Opcode) (value : Word) (kind : ConstKind) : Asking := fun p => ([⟨op, value, kind⟩], p)

def and (a b : Asking) : Asking := fun p =>
  ((a p).1 ++ (b (a p).2).1, (b (a p).2).2)

def each : List Asking → Asking
  | [] => nothing
  | a :: as => a.and (each as)

def string (text : String) : Asking := fun p =>
  match p with
  | none => ([], none)
  | some pool =>
    ([⟨.LoadStaticPointer, BitVec.ofNat 64 (pool.lookupOrAdd text).1, .STRING⟩],
      some (pool.lookupOrAdd text).2)

def name (x : String) : Asking := ask .LookupPointer (stringId x) .SID

def large (n : ℕ) : Asking :=
  if n ≤ 0xFF then nothing else ask .LoadStaticI64Imm (BitVec.ofNat 64 n) .INT

def variableName (isVariable : String → Bool) (x : String) : Asking :=
  if isVariable x then nothing else name x

def methodCall (fullName : String) (obj : Asking) (args : List Asking) : Option ℕ → Asking
  | some id => (each (obj :: args)).and (ask .LoadStaticI64Imm (BitVec.ofNat 64 id) .INT)
  | none => (name fullName).and (each (obj :: args))

def atLvalue (base index : Asking) (constIndex : Option I64) (elemType : TypeDesc) : Asking :=
  match constIndex with
  | some idx => base.and (large (idx * BitVec.ofNat 64 elemType.sizeInMemory).toNat)
  | none => base.and (index.and (large elemType.sizeInMemory))

def element (base index : Asking) (constIndex : Option I64) : Option TypeDesc → Asking
  | none => nothing
  | some t => atLvalue base index constIndex t

def allocate (x : String) (arg0 arg1 : Word) (kind : ConstKind) : Asking :=
  (name x).and ((ask .LoadStaticI64Imm arg0 kind).and (ask .LoadStaticI64Imm arg1 kind))

def fieldInit (newType : NewType) (field : FieldDesc) (init : Asking) : Asking :=
  if field.name = "type" ∧ newType.isBasic then nothing
  else
    match field.type with
    | none => nothing
    | some t => if t.isReference then nothing else init

/-- One keyword initialiser; one that names no field is skipped. -/
def keywordInit (newType : NewType) (fields : List FieldDesc) (x : String) (init : Asking) :
    Asking :=
  match fields.find? (·.name == x) with
  | none => nothing
  | some field => fieldInit newType field init

def keywordInits (newType : NewType) (fields : List FieldDesc) : List (String × Asking) → Asking
  | [] => nothing
  | (x, init) :: rest => (keywordInit newType fields x init).and (keywordInits newType fields rest)

def positionalInits (newType : NewType) : List FieldDesc → List Asking → Asking
  | field :: fields, init :: inits =>
    (fieldInit newType field init).and (positionalInits newType fields inits)
  | _, _ => nothing

def fieldInitStores (newType : NewType) (fields : List (String × Asking)) (args : List Asking) :
    Asking :=
  match newType.fields with
  | none => nothing
  | some descs =>
    if fields.isEmpty then positionalInits newType descs args
    else keywordInits newType descs fields

def typeTag (newType : NewType) (typeName : String) : Asking :=
  if newType.isBasic then ask .LoadStaticI64Imm (stringId typeName) .SID else nothing

def constructorCall (allocation typeName : String) (inits : List Asking) : Asking :=
  (name (typeName ++ "-new")).and
    ((ask .LoadStaticI64Imm (stringId allocation) .SID).and (each inits))

def newObject (allocation typeName : String) (newType : Option NewType)
    (fields : List (String × Asking)) (args : List Asking) : Asking :=
  match newType with
  | none => nothing
  | some t =>
    (allocate "allocate" (stringId allocation) (stringId typeName) .SID).and
      ((typeTag t typeName).and
        (if t.hasNewMethod then
          constructorCall allocation typeName
            (if fields.isEmpty then args else fields.map Prod.snd)
        else fieldInitStores t fields args))

def elementField (elemBase : ℕ) (field : FieldDesc) (init : Option Asking) : Asking :=
  match init, field.type with
  | some e, some _ => e.and (large (elemBase + field.offset))
  | _, _ => nothing

def elementFields (elemBase : ℕ) (inits : List (String × Asking)) : List FieldDesc → Asking
  | [] => nothing
  | field :: fields =>
    (elementField elemBase field (inits.lookup field.name)).and
      (elementFields elemBase inits fields)

def structElements (elemSize : ℕ) (fields : List FieldDesc) (i : ℕ) :
    List (Option (List (String × Asking))) → Asking
  | [] => nothing
  | none :: _ => nothing
  | some inits :: rest =>
    (elementFields (i * elemSize) inits fields).and (structElements elemSize fields (i + 1) rest)

def scalarElements (elemSize : ℕ) (i : ℕ) : List Asking → Asking
  | [] => nothing
  | e :: es => e.and ((large (i * elemSize)).and (scalarElements elemSize (i + 1) es))

def newArray (newType : Option NewType) (arraySize : ℕ) (elements : List Asking)
    (inits : List (Option (List (String × Asking)))) : Asking :=
  match newType with
  | none => nothing
  | some t =>
    (allocate "allocate-bytes" (BitVec.ofNat 64 (t.desc.sizeInMemory * arraySize))
      (BitVec.ofNat 64 t.desc.alignment) .INT).and
      (if t.desc.isReference then
        match t.fields with
        | none => nothing
        | some fields => structElements t.desc.sizeInMemory fields 0 inits
      else scalarElements t.desc.sizeInMemory 0 elements)

end Asking

mutual

def requests (isVariable : String → Bool) : Node → Asking
  | .constInt v => .ask .LoadStaticI64Imm v .INT
  | .constFloat bits => .ask .LoadStaticFloatImm bits .FLOAT
  | .constString text => .string text
  | .variableNode x _ _ _ => .variableName isVariable x
  | .binaryNode _ left right => (requests isVariable left).and (requests isVariable right)
  | .unaryNode _ operand => requests isVariable operand
  | .compareNode _ left right => (requests isVariable left).and (requests isVariable right)
  | .ifNode c t none => (requests isVariable c).and (requests isVariable t)
  | .ifNode c t (some e) =>
    (requests isVariable c).and ((requests isVariable t).and (requests isVariable e))
  | .whileNode c b _ => (requests isVariable c).and (requests isVariable b)
  | .letNode bindings b =>
    (Asking.each ((requestsNamed isVariable bindings).map Prod.snd)).and (requests isVariable b)
  | .setVariable _ v => requests isVariable v
  | .setField base _ _ v => (requests isVariable v).and (requests isVariable base)
  | .setAt base index elemType v =>
    (requests isVariable v).and
      (.element (requests isVariable base) (requests isVariable index) index.constIndex elemType)
  | .sequenceNode exprs => .each (requestsEach isVariable exprs)
  | .returnNode none => .nothing
  | .returnNode (some v) => requests isVariable v
  | .callNode x args _ _ => (Asking.each (requestsEach isVariable args)).and (.name x)
  | .methodCallNode fullName obj args methodId _ _ =>
    .methodCall fullName (requests isVariable obj) (requestsEach isVariable args) methodId
  | .castNode v _ => requests isVariable v
  | .derefNode e _ _ _ => requests isVariable e
  | .atNode base index elemType =>
    .element (requests isVariable base) (requests isVariable index) index.constIndex elemType
  | .newObject allocation typeName newType fields args =>
    .newObject allocation typeName newType (requestsNamed isVariable fields)
      (requestsEach isVariable args)
  | .newArray _ _ newType arraySize elements =>
    .newArray newType arraySize (requestsEach isVariable elements)
      (requestsInits isVariable elements)
  | .storeGlobalNode x v => (requests isVariable v).and (.name x)
  | .storeFieldNode owner offset v =>
    (Asking.name owner).and ((Asking.large offset).and (requests isVariable v))

def requestsEach (isVariable : String → Bool) : List Node → List Asking
  | [] => []
  | n :: ns => requests isVariable n :: requestsEach isVariable ns

def requestsNamed (isVariable : String → Bool) : List (String × Node) → List (String × Asking)
  | [] => []
  | (x, n) :: ns => (x, requests isVariable n) :: requestsNamed isVariable ns

/-- The keyword initialisers of the elements of an inline array. -/
def requestsInits (isVariable : String → Bool) :
    List Node → List (Option (List (String × Asking)))
  | [] => []
  | .newObject _ _ _ fields _ :: ns =>
    some (requestsNamed isVariable fields) :: requestsInits isVariable ns
  | .newArray _ _ _ _ _ :: ns => some [] :: requestsInits isVariable ns
  | _ :: ns => none :: requestsInits isVariable ns

end

end Soot.Model
