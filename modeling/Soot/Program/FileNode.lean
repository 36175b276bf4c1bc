import Soot.Computation.Search
import Soot.Program.FunctionNode
import Soot.Program.TypeSystem

/-!
# Declarations and files

What the node builder makes of top-level forms, and the two tables it enters them in: the file
that owns them and the global environment. A pointer to a function or a data declaration is
the number the node was created with, and a pointer to a file the name of the file with the
number of its node: a file that is dropped and compiled again gets another node. The maps from names are association lists with one entry
a key; the order in which the source iterates over them is unspecified, and here it is the
order of the list.
-/

set_option autoImplicit false

namespace Soot.Program

open Soot.Computation

/-! ## Maps from names -/

/-- `map[name] = value`. -/
def setName {α : Type} (map : List (String × α)) (name : String) (value : α) :
    List (String × α) :=
  (name, value) :: map.filter fun entry => entry.1 != name

/-- `map.erase(name)`. -/
def eraseName {α : Type} (map : List (String × α)) (name : String) : List (String × α) :=
  map.filter fun entry => entry.1 != name

/-! ## Functions as they are declared -/

/-- A variable with the type it was declared with. SRCLINE: VariableInfo.hpp -/
structure TypedVariable where
  name : String
  type : Option String
  isParameter : Bool
  deriving DecidableEq

/-- `FunctionNode` as the builder fills it: its variables in the order of their registers, its
signature and its body. SRCLINE: FunctionNode.hpp:49-111 -/
structure FunctionDecl where
  id : ℕ
  name : String
  methodOfType : String
  locals : List TypedVariable
  paramCount : ℕ
  returnType : Option String
  signature : Option TypeSpec
  body : Option Node

namespace FunctionDecl

def new (id : ℕ) (name : String) : FunctionDecl := ⟨id, name, "", [], 0, none, none, none⟩

end FunctionDecl

/-! ## Data declarations -/

/-- `DataDeclarationNode`: a named value, built at compile time or, in heap mode, stored in its
slot when the module's top level runs. SRCLINE: DataDeclarationNode.hpp -/
structure DataDecl where
  id : ℕ
  name : String
  newNode : Node
  isHeap : Bool

/-- `NewNode::type`. -/
def Node.newTypeName : Node → Option String
  | .newObject _ typeName _ _ _ => some typeName
  | .newArray _ elemTypeName _ _ _ => some elemTypeName
  | _ => none

/-- `NewNode`. -/
def Node.isNew (n : Node) : Bool := n.newTypeName.isSome

/-! ## What a form is built into -/

/-- The nodes `NodeBuilder::build` returns and a file owns. -/
inductive Built where
  | expression (e : Node)
  | function (f : FunctionDecl)
  | typeDeclaration (type : String)
  | enumDeclaration (name : String)
  | stateScript (type : String)
  | data (d : DataDecl)
  | heapDefine (d : DataDecl) (store : Node)
  | staticDefine (d : DataDecl) (stores : List Node)

namespace Built

/-- `dynamic_cast<FunctionNode *>`. -/
def function? : Built → Option FunctionDecl
  | function f => some f
  | _ => none

def declaredName : Built → Option String
  | function f => some f.name
  | data d => some d.name
  | _ => none

def functionId : Built → Option ℕ
  | function f => some f.id
  | _ => none

end Built

/-! ## Files -/

/-- The layout of one data entry of the binary. SRCLINE: BinaryFile.hpp -/
structure DataStructEntry where
  name : String
  typeName : String
  deriving DecidableEq

/-- A `FileNode *`. -/
structure FileRef where
  name : String
  serial : ℕ
  deriving DecidableEq

/-- SRCLINE: FileNode.hpp:21-40 -/
structure FileNode where
  name : String
  serial : ℕ
  symbols : List (String × Built)
  orderedSymbols : List Built
  imports : List FileRef
  dataStructs : List DataStructEntry
  placeholders : List String
  requires : List String
  children : List Built
  topLevel : Option ℕ
  /-- which body the top-level function has -/
  topLevelBody : Option ℕ
  anonNameCounter : List (String × ℕ)

/-- SRCLINE: FileNode.hpp:206-212 -/
structure FileSnapshot where
  children : ℕ
  symbols : List (String × Built)
  orderedSymbols : List Built
  placeholders : List String

namespace FileNode

def new (name : String) (serial : ℕ) : FileNode :=
  ⟨name, serial, [], [], [], [], [], [], [], none, none, []⟩

def ref (file : FileNode) : FileRef := ⟨file.name, file.serial⟩

def hasLocal (file : FileNode) (name : String) : Bool := (file.symbols.lookup name).isSome

/-- `bind`. SRCLINE: FileNode.cpp:1312-1315 -/
def bind (file : FileNode) (name : String) (node : Built) : FileNode :=
  { file with
    symbols := setName file.symbols name node
    orderedSymbols :=
      if file.hasLocal name then file.orderedSymbols else file.orderedSymbols ++ [node] }

def addChild (file : FileNode) (child : Built) : FileNode :=
  { file with children := file.children ++ [child] }

/-- `release_child` of a function; nothing when it is not a child. -/
def releaseChild (file : FileNode) (id : ℕ) : Option FileNode :=
  if file.children.any fun c => c.functionId == some id then
    some { file with children := file.children.eraseP fun c => c.functionId == some id }
  else none

/-- `set_name` of a function that is a child. -/
def renameChild (file : FileNode) (id : ℕ) (name : String) : FileNode :=
  { file with
    children := file.children.map fun c =>
      match c with
      | .function f => if f.id = id then .function { f with name := name } else c
      | _ => c }

/-- `set_body` of a function that is a child. -/
def setChildBody (file : FileNode) (id : ℕ) (body : Node) : FileNode :=
  { file with
    children := file.children.map fun c =>
      match c with
      | .function f => if f.id = id then .function { f with body := some body } else c
      | _ => c }

/-- `remove_named`. SRCLINE: FileNode.cpp:1328-1352 -/
def removeNamed (file : FileNode) (name : String) : FileNode :=
  let symbols := eraseName file.symbols name
  { file with
    children := file.children.filter fun c => c.declaredName != some name
    symbols := symbols
    orderedSymbols := symbols.map Prod.snd }

def addImport (file : FileNode) (other : FileRef) : FileNode :=
  if other = file.ref ∨ other ∈ file.imports then file
  else { file with imports := file.imports ++ [other] }

def addPlaceholder (file : FileNode) (name : String) : FileNode :=
  if name ∈ file.placeholders then file
  else { file with placeholders := file.placeholders ++ [name] }

def addRequire (file : FileNode) (name : String) : FileNode :=
  if name ∈ file.requires then file else { file with requires := file.requires ++ [name] }

/-- `take_snapshot`. SRCLINE: FileNode.hpp:243-251 -/
def takeSnapshot (file : FileNode) : FileSnapshot :=
  ⟨file.children.length, file.symbols, file.orderedSymbols, file.placeholders⟩

def findTopLevel (children : List Built) : Option ℕ :=
  (children.filterMap Built.function?).find? (·.name == "top-level") |>.map FunctionDecl.id

/-- `rollback`. SRCLINE: FileNode.hpp:253-275 -/
def rollback (file : FileNode) (s : FileSnapshot) : FileNode :=
  let children := file.children.take s.children
  { file with
    children := children
    symbols := s.symbols
    orderedSymbols := s.orderedSymbols
    dataStructs := []
    placeholders := s.placeholders
    topLevel := findTopLevel children }

end FileNode

/-- The file with a name: `m_file_nodes` has one entry a name. -/
def findFile (files : List FileNode) (name : String) : Option FileNode :=
  files.find? (·.name == name)

/-- The file a pointer leads to; none when the file was dropped. -/
def derefFile (files : List FileNode) (ref : FileRef) : Option FileNode :=
  (findFile files ref.name).filter fun file => file.serial == ref.serial

/-- `FileNode::lookup`: the file's own symbols, then its imports, each searched in the same
way. The depth bounds the recursion; there is no answer behind a pointer to a file that was
dropped. SRCLINE: FileNode.cpp:1301-1310 -/
def lookupFile (files : List FileNode) (depth : ℕ) (file : FileRef) (name : String) :
    Option (Option Built) :=
  search (fun ref => (derefFile files ref).map FileNode.imports)
    (fun ref => (derefFile files ref).bind fun f => f.symbols.lookup name) depth file

/-! ## The global environment -/

/-- SRCLINE: GlobalNode.hpp -/
structure GlobalNode where
  symbols : List (String × Built)
  orderedSymbols : List Built

/-- A snapshot; there is none where the source's is not `valid`. -/
abbrev GlobalSnapshot := Option GlobalNode

namespace GlobalNode

def lookup (g : GlobalNode) (name : String) : Option Built := g.symbols.lookup name

def bind (g : GlobalNode) (name : String) (node : Built) : GlobalNode :=
  { symbols := setName g.symbols name node
    orderedSymbols :=
      if (g.lookup name).isSome then g.orderedSymbols else g.orderedSymbols ++ [node] }

/-- `rollback`: nothing happens with a snapshot that is not valid. -/
def rollback (g : GlobalNode) (s : GlobalSnapshot) : GlobalNode := s.getD g

end GlobalNode

end Soot.Program
