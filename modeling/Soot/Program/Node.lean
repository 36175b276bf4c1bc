import Soot.Program.Variant

/-!
# Expression trees

The expression nodes a function body is built from. Every question an emitter asks about a
type or a name before the tree is emitted is answered in the node: a node carries its static
type as the node builder left it, and a `new` node carries what the type system says about
the type it instantiates.
-/

set_option autoImplicit false

namespace Soot.Program

inductive TypeClass where
  | null | value | reference
  deriving DecidableEq

/-- What the emitters read of a `Type`. SRCLINE: Type.hpp -/
structure TypeDesc where
  name : String
  typeClass : TypeClass
  /-- the preferred register class is `RegClass::FPR` -/
  floatRegister : Bool
  loadSize : ℕ
  loadSigned : Bool
  sizeInMemory : ℕ
  alignment : ℕ
  deriving DecidableEq

def TypeDesc.isReference (t : TypeDesc) : Bool := t.typeClass == .reference

/-- A field of a structure; its type is absent when the type system does not know it. -/
structure FieldDesc where
  name : String
  offset : ℕ
  type : Option TypeDesc
  deriving DecidableEq

/-- What `NewNode` asks the type system about the type it instantiates: its fields when it is
a structure, whether it is a basic and whether it has a `new` method of its own. -/
structure NewType where
  desc : TypeDesc
  isBasic : Bool
  hasNewMethod : Bool
  fields : Option (List FieldDesc)
  deriving DecidableEq

/-- SRCLINE: BinaryNode.hpp -/
inductive BinaryOp where
  | ADD | SUB | MUL | DIV | MOD
  deriving DecidableEq

/-- SRCLINE: UnaryNode.hpp -/
inductive UnaryOp where
  | ABS | NEG | NOT | BITNOT
  deriving DecidableEq

/-- SRCLINE: CompareOp.hpp -/
inductive CompareOp where
  | EQ | NE | LT | LE | GT | GE
  deriving DecidableEq

/-- The expression nodes.

`newObject` is `NewNode` for a single object: its allocation, the name of the type, the type
system's answer for it, the keyword initialisers and the positional arguments. `newArray` is
`NewNode` in inline-array mode. `setField` and `setAt` are `SetNode` with a field and an
element target. -/
inductive Node where
  | constInt (value : I64)
  | constFloat (bits : BitVec 64)
  | constString (text : String)
  | variableNode (name : String) (type : Option TypeDesc) (isHeap : Bool)
      (elemType : Option TypeDesc)
  | binaryNode (op : BinaryOp) (left right : Node)
  | unaryNode (op : UnaryOp) (operand : Node)
  | compareNode (op : CompareOp) (left right : Node)
  | ifNode (condition thenBranch : Node) (elseBranch : Option Node)
  | whileNode (condition body : Node) (label : Option String)
  | letNode (bindings : List (String × Node)) (body : Node)
  | setVariable (name : String) (value : Node)
  | setField (base : Node) (offset : ℕ) (fieldType : Option TypeDesc) (value : Node)
  | setAt (base index : Node) (elemType : Option TypeDesc) (value : Node)
  | sequenceNode (exprs : List Node)
  | returnNode (value : Option Node)
  | callNode (name : String) (args : List Node) (isNative : Bool) (type : Option TypeDesc)
  | methodCallNode (fullName : String) (obj : Node) (args : List Node) (methodId : Option ℕ)
      (isNative : Bool) (type : Option TypeDesc)
  | castNode (value : Node) (type : Option TypeDesc)
  | derefNode (expr : Node) (offset : ℕ) (fieldType : Option TypeDesc) (isInline : Bool)
  | atNode (base index : Node) (elemType : Option TypeDesc)
  | newObject (allocation typeName : String) (newType : Option NewType)
      (fields : List (String × Node)) (args : List Node)
  | newArray (allocation elemTypeName : String) (newType : Option NewType) (arraySize : ℕ)
      (elements : List Node)
  | storeGlobalNode (name : String) (value : Node)
  | storeFieldNode (owner : String) (offset : ℕ) (value : Node)

namespace Node

/-- `get_type` of a node that has been built and not yet emitted, by name. `if`, `while`,
`sequence` and `set!` have none, and neither has an arithmetic node whose first operand has
none. SRCLINE: the constructors under sootc/node/ -/
def getType : Node → Option String
  | constInt _ => some "int"
  | constFloat _ => some "float"
  | constString _ => some "string"
  | variableNode _ type _ _ => type.map TypeDesc.name
  | binaryNode _ left _ => left.getType
  | unaryNode op operand =>
    match op with
    | .NOT | .BITNOT => some "int"
    | .ABS | .NEG => some (operand.getType.getD "int")
  | compareNode _ _ _ => some "int"
  | ifNode _ _ _ => none
  | whileNode _ _ _ => none
  | letNode _ body => body.getType
  | setVariable _ _ => none
  | setField _ _ _ _ => none
  | setAt _ _ _ _ => none
  | sequenceNode _ => none
  | returnNode none => none
  | returnNode (some value) => value.getType
  | callNode _ _ _ type => type.map TypeDesc.name
  | methodCallNode _ _ _ _ _ type => type.map TypeDesc.name
  | castNode _ type => type.map TypeDesc.name
  | derefNode _ _ fieldType _ => fieldType.map TypeDesc.name
  | atNode _ _ elemType => elemType.map TypeDesc.name
  | newObject _ _ newType _ _ => newType.map fun t => t.desc.name
  | newArray _ _ newType _ _ => newType.map fun t => t.desc.name
  | storeGlobalNode _ _ => none
  | storeFieldNode _ _ _ => none

/-- The name of a node's static type once it has been emitted, where it has one. The
arithmetic nodes and `set!` set theirs while they are emitted; a `return` keeps the type its
value had when it was built. -/
def typeName : Node → Option String
  | constInt _ => some "int"
  | constFloat _ => some "float"
  | constString _ => some "string"
  | variableNode _ type _ _ => type.map TypeDesc.name
  | binaryNode _ left _ => if left.typeName = some "float" then some "float" else some "int"
  | unaryNode op operand =>
    match op with
    | .NOT | .BITNOT => some "int"
    | .ABS | .NEG => operand.typeName
  | compareNode _ _ _ => some "int"
  | ifNode _ _ _ => none
  | whileNode _ _ _ => none
  | letNode _ body => body.typeName
  | setVariable _ value => value.typeName
  | setField _ _ fieldType _ => fieldType.map TypeDesc.name
  | setAt _ _ elemType _ => elemType.map TypeDesc.name
  | sequenceNode _ => none
  | returnNode none => none
  | returnNode (some value) => value.getType
  | callNode _ _ _ type => type.map TypeDesc.name
  | methodCallNode _ _ _ _ _ type => type.map TypeDesc.name
  | castNode _ type => type.map TypeDesc.name
  | derefNode _ _ fieldType _ => fieldType.map TypeDesc.name
  | atNode _ _ elemType => elemType.map TypeDesc.name
  | newObject _ _ newType _ _ => newType.map fun t => t.desc.name
  | newArray _ _ newType _ _ => newType.map fun t => t.desc.name
  | storeGlobalNode _ value => value.typeName
  | storeFieldNode _ _ value => value.typeName

/-- Induction over expression trees: a statement holds of every node once it holds of each
constructor whenever it holds of the node's children.
SRCLINE: Node.hpp -/
@[elab_as_elim]
theorem induct {motive : Node → Prop}
    (constInt : ∀ v, motive (constInt v))
    (constFloat : ∀ b, motive (constFloat b))
    (constString : ∀ t, motive (constString t))
    (variableNode : ∀ x t h e, motive (variableNode x t h e))
    (binaryNode : ∀ op l r, motive l → motive r → motive (binaryNode op l r))
    (unaryNode : ∀ op e, motive e → motive (unaryNode op e))
    (compareNode : ∀ op l r, motive l → motive r → motive (compareNode op l r))
    (ifNode : ∀ c t e, motive c → motive t → (∀ n ∈ e, motive n) → motive (ifNode c t e))
    (whileNode : ∀ c b l, motive c → motive b → motive (whileNode c b l))
    (letNode : ∀ bs b, (∀ p ∈ bs, motive p.2) → motive b → motive (letNode bs b))
    (setVariable : ∀ x v, motive v → motive (setVariable x v))
    (setField : ∀ b o t v, motive b → motive v → motive (setField b o t v))
    (setAt : ∀ b i t v, motive b → motive i → motive v → motive (setAt b i t v))
    (sequenceNode : ∀ es, (∀ n ∈ es, motive n) → motive (sequenceNode es))
    (returnNode : ∀ v, (∀ n ∈ v, motive n) → motive (returnNode v))
    (callNode : ∀ x as k t, (∀ n ∈ as, motive n) → motive (callNode x as k t))
    (methodCallNode : ∀ x o as m k t, motive o → (∀ n ∈ as, motive n) →
      motive (methodCallNode x o as m k t))
    (castNode : ∀ e t, motive e → motive (castNode e t))
    (derefNode : ∀ e o t i, motive e → motive (derefNode e o t i))
    (atNode : ∀ b i t, motive b → motive i → motive (atNode b i t))
    (newObject : ∀ a x t fs as, (∀ p ∈ fs, motive p.2) → (∀ n ∈ as, motive n) →
      motive (newObject a x t fs as))
    (newArray : ∀ a x t k es, (∀ n ∈ es, motive n) → motive (newArray a x t k es))
    (storeGlobalNode : ∀ x v, motive v → motive (storeGlobalNode x v))
    (storeFieldNode : ∀ x o v, motive v → motive (storeFieldNode x o v)) (n : Node) :
    motive n :=
  @Node.rec motive (fun o => ∀ n ∈ o, motive n) (fun ps => ∀ p ∈ ps, motive p.2)
    (fun ns => ∀ n ∈ ns, motive n) (fun p => motive p.2)
    constInt constFloat constString variableNode binaryNode unaryNode compareNode ifNode
    whileNode letNode setVariable setField setAt sequenceNode returnNode callNode
    methodCallNode castNode derefNode atNode newObject newArray storeGlobalNode storeFieldNode
    (fun _ h => absurd h (by simp))
    (fun _ hn _ h => Option.mem_some.mp h ▸ hn)
    (fun _ h => absurd h (List.not_mem_nil))
    (fun _ _ hp hps => List.forall_mem_cons.mpr ⟨hp, hps⟩)
    (fun _ h => absurd h (List.not_mem_nil))
    (fun _ _ hn hns => List.forall_mem_cons.mpr ⟨hn, hns⟩)
    (fun _ _ hn => hn) n

/-- Whether an operation on this node as first operand is a floating-point operation. -/
def isFloat (n : Node) : Bool := n.typeName == some "float"

end Node

end Soot.Program
