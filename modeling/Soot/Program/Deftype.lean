import Soot.Program.TypeDeclaration

/-!
# Type definitions

`deftype` and `defenum` once their forms are read, the operations on a registered type, the
built-in types, the runs that start from them and the options that carry a number, as they are
read one after another.
-/

set_option autoImplicit false

namespace Soot.Program

open Soot.Computation

/-- A field of a `deftype`: a new field, or an inherited one that gets another type.
SRCLINE: Deftype.cpp:83-250 -/
structure FieldDefinition extends FieldRequest where
  overrides : Bool
  offsetAssert : Option ℤ

/-- A method of a `deftype`. SRCLINE: Deftype.cpp:343-482 -/
inductive MethodDefinition where
  | declare (name : String) (type : TypeSpec) (noVirtual replace : Bool)
  | overrideDoc (name : String)
  | overlayAt (name overlayName : String) (type : TypeSpec)

/-- The flat options of a `deftype`. SRCLINE: Deftype.cpp:845-893 -/
structure DeftypeOptions where
  sizeAssert : Option ℤ
  methodCountAssert : Option ℤ
  flagAssert : Option ℕ
  heapBase : Option ℕ
  packMe : Bool
  allowMisaligned : Bool
  final : Bool
  alwaysStackSingleton : Bool

/-- A `deftype` form once it is read; the bit fields of an integer type are left out, and so
is one whose bit fields are rejected. The name is a symbol's and not empty. -/
structure Deftype where
  name : String
  name_ne : name ≠ ""
  parent : String
  fields : List FieldDefinition
  methods : List MethodDefinition
  states : List StateDef
  options : DeftypeOptions

structure Defenum where
  name : String
  name_ne : name ≠ ""
  baseType : String

namespace TypeSystem

variable (ts : TypeSystem)

/-- `add_field`. SRCLINE: Deftype.cpp:217-249 -/
def addField (t : SootType) (d : FieldDefinition) : Except TypeFault SootType :=
  if d.overrides then
    match t.lookupField d.name with
    | none => .error .thrown
    | some f =>
      if ts.tc f.type d.type ∧ f.isInline = d.isInline ∧ f.isDynamic = d.isDynamic ∧
          (d.arraySize = -1 ∨ f.arraySize = d.arraySize) then
        .ok { t with
          fields := t.fields.map fun fs =>
            fs.map fun g => if g.name = d.name then { g with type := d.type } else g }
      else .error .thrown
  else do
    let (t', offset) ← ts.addFieldToType t d.toFieldRequest
    if d.offsetAssert.all (· = offset) then return t' else .error .thrown

def addFields (t : SootType) : List FieldDefinition → Except TypeFault SootType
  | [] => .ok t
  | d :: ds => do addFields (← ts.addField t d) ds

/-- One entry of `:methods` or `:state-methods`. -/
def defineEntry (t : SootType) : MethodDefinition → Except TypeFault SootType
  | .declare name type noVirtual replace => ts.declareMethod t name noVirtual type replace
  | .overrideDoc name => ts.overrideMethod t name
  | .overlayAt name overlayName type => ts.overlayMethod t name overlayName type

def defineEntries (t : SootType) : List MethodDefinition → Except TypeFault SootType
  | [] => .ok t
  | m :: ms => do defineEntries (← ts.defineEntry t m) ms

/-- The heap base a type gets, where `size` is the low half word of its size.
SRCLINE: Deftype.cpp:903-919 -/
def heapBase (t : SootType) (size : ℕ) (given : Option ℕ) : Except TypeFault ℕ := do
  if (ts.types.lookup "process").isSome ∧ ts.tc (.ofName "process") (.ofName t.parent) then
    match ts.types.lookup "process" with
    | some process =>
      if process.isBasic then
        let auto : ℤ := (size - process.desc.sizeInMemory + 15) / 16 * 16
        match given with
        | none => return (auto % 2 ^ 16).toNat
        | some base => if (base : ℤ) < auto then .error .thrown else return base
      else .error .thrown
    | none => .error .thrown
  else return given.getD 0

/-- The assertions among the options. SRCLINE: Deftype.cpp:921-944 -/
def checkAsserts (t : SootType) (size heapBase : ℕ) (o : DeftypeOptions) :
    Except TypeFault Unit := do
  requireThat (o.sizeAssert.all fun a => (size : ℤ) = a % 2 ^ 16)
  let next ← ts.getNextMethodId t
  let methods : ℕ := next % 2 ^ 16
  requireThat (o.methodCountAssert.all fun a => (methods : ℤ) = a % 2 ^ 16)
  requireThat (o.flagAssert.all fun a => a = size + heapBase * 2 ^ 16 + methods * 2 ^ 32)

/-- `parse_structure_def`. SRCLINE: Deftype.cpp:764-946 -/
def parseStructureDef (t : SootType) (d : Deftype) : Except TypeFault SootType := do
  let t ← ts.addFields t d.fields
  let size := t.desc.sizeInMemory % 2 ^ 16
  let t ← ts.defineEntries t d.methods
  let heapBase ← ts.heapBase t size d.options.heapBase
  ts.checkAsserts t size heapBase d.options
  return { t with stateDefs := d.states }

/-- `parse_bitfield_type_def`. SRCLINE: Deftype.cpp:953-1035 -/
def parseBitfieldTypeDef (t : SootType) (d : Deftype) : Except TypeFault SootType := do
  let t ← ts.defineEntries t d.methods
  ts.checkAsserts t (t.desc.sizeInMemory % 2 ^ 16) 0 d.options
  return t

def lookupType (name : String) : Except TypeFault SootType := orThrow (ts.types.lookup name)

end TypeSystem

/-! ## Definitions -/

section Definitions

variable (same : SootType → SootType → Bool)

/-- A child of a basic or of a structure: its name is forward declared before its fields and
methods are read. -/
def deftypeChild (d : Deftype) (allowed : SootType → Bool) (empty : SootType)
    (optionsAllowed : Bool) (finish : SootType → SootType) : TypeM Unit := do
  let pto ← ofExcept ((← get).lookupType d.parent)
  ofExcept (requireThat (allowed pto))
  forwardDeclareTypeAs d.name pto.name
  let t ← ofExcept ((← get).parseStructureDef (empty.inherit pto) d)
  ofExcept (requireThat optionsAllowed)
  addType same (finish t)

def DeftypeOptions.finish (o : DeftypeOptions) (t : SootType) : SootType :=
  { t with
    isPacked := o.packMe
    allowMisalign := o.allowMisaligned
    isFinal := o.final }

/-- A child of a basic. SRCLINE: Deftype.cpp:1123-1157 -/
def deftypeBasic (d : Deftype) : TypeM Unit :=
  deftypeChild same d (fun pto => pto.isBasic && !pto.isFinal) (.basicType d.parent d.name)
    (!d.options.alwaysStackSingleton) d.options.finish

/-- A child of a structure. SRCLINE: Deftype.cpp:1158-1185 -/
def deftypeStructure (d : Deftype) : TypeM Unit :=
  deftypeChild same d (fun pto => pto.fields.isSome) (.structureType d.parent d.name)
    (!d.options.final) d.options.finish

/-- A child of an integer: a bit field. SRCLINE: Deftype.cpp:1186-1199 -/
def deftypeBitfield (d : Deftype) : TypeM Unit := do
  let ts ← get
  let pto ← ofExcept (ts.lookupType d.parent)
  ofExcept (requireThat (pto.desc.typeClass == .value))
  let t := SootType.valueType d.parent d.name pto.desc.sizeInMemory pto.desc.loadSigned
    pto.desc.floatRegister
  addType same (← ofExcept (ts.parseBitfieldTypeDef t d))

/-- `parse_deftype`. SRCLINE: Deftype.cpp:1092-1214 -/
def deftype (d : Deftype) : TypeM Unit := do
  let ts ← get
  ofExcept (requireThat ((ts.types.lookup d.parent).isSome ||
    (ts.forwardDeclaredTypes.lookup d.parent).isSome))
  if ← ofExcept (ts.isType "basic" d.parent) then deftypeBasic same d
  else if ← ofExcept (ts.isType "structure" d.parent) then deftypeStructure same d
  else if ← ofExcept (ts.isType "integer" d.parent) then deftypeBitfield same d
  else throw .thrown

/-- `parse_defenum`: the enumeration takes the place next to its base type, under the same
parent. SRCLINE: Defenum.cpp:138-240, Type.cpp:921-925 -/
def defenum (d : Defenum) : TypeM Unit := do
  let ts ← get
  let base ← ofExcept (ts.lookupType d.baseType)
  if ← ofExcept (ts.isType "integer" d.baseType) then do
    ofExcept (requireThat (base.desc.typeClass == .value))
    addType same (.valueType base.parent d.name base.desc.loadSize base.desc.loadSigned
      base.desc.floatRegister)
  else pure ()

/-! ## Registered types -/

def onType (typeName : String) (f : TypeSystem → SootType → Except TypeFault SootType) :
    TypeM Unit := do
  let ts ← get
  let t ← ofExcept (ts.lookupType typeName)
  set (ts.update (← ofExcept (f ts t)))

/-- `define_method`: only `new` is entered, every other method has to be declared.
SRCLINE: TypeSystem.cpp:674-709 -/
def TypeSystem.defineMethodWith (ts : TypeSystem) (t : SootType) (name : String)
    (type : TypeSpec) : Except TypeFault SootType :=
  if name = "new" then addNewMethod t type
  else do
    match ← ts.tryLookupMethodFrom t name with
    | none => .error .thrown
    | some existing =>
      if existing.type.isCompatibleChildMethod t.name type then .ok t else .error .thrown

/-! ## Built-in types -/

/-- `make_function_typespec`. -/
def functionTypespec (args : List String) (result : String) : TypeSpec :=
  .function ((args ++ [result]).map .ofName)

def addBuiltinValueType (parent name : String) (size : ℕ) (signExtend floatRegister : Bool) :
    TypeM Unit :=
  addType same (.valueType parent name size signExtend floatRegister)

def builtinStructureInherit (name : String) : TypeM Unit :=
  onType name fun ts t => do return t.inherit (← ts.lookupType t.parent)

def addBuiltinField (typeName name : String) (type : TypeSpec) (isInline isDynamic : Bool)
    (arraySize : ℤ) : TypeM Unit :=
  onType typeName fun ts t => do
    return (← ts.addFieldToType t ⟨name, type, isInline, isDynamic, arraySize, -1⟩).1

/-- A method of `object`. -/
def declareObjectMethod (name : String) (args : List String) (result : String) : TypeM Unit :=
  onType "object" fun ts t => ts.declareMethod t name false (functionTypespec args result) false

/-- The types everything else hangs from. SRCLINE: TypeSystem.cpp:1135-1147 -/
def addRootTypes : TypeM Unit := do
  addType same (.nullType "none")
  addType same (.nullType "_type_")
  addType same (.nullType "_varargs_")
  addType same (.valueType "object" "object" 4 true false)

/-- SRCLINE: TypeSystem.cpp:1152-1205 -/
def addStructuralTypes : TypeM Unit := do
  addBuiltinValueType same "object" "pointer" 8 false false
  addType same (.structureType "object" "structure")
  addType same (.basicType "structure" "basic")
  addBuiltinValueType same "object" "bitfield" 4 false false
  addBuiltinValueType same "basic" "symbol" 8 false false
  addType same (.basicType "basic" "type")
  addType same (.basicType "basic" "string")
  addType same (.basicType "basic" "function")

/-- SRCLINE: TypeSystem.cpp:1216-1250 -/
def addNumericTypes : TypeM Unit := do
  addBuiltinValueType same "object" "number" 8 false false
  addBuiltinValueType same "number" "float" 4 false true
  addBuiltinValueType same "number" "integer" 8 false false
  addBuiltinValueType same "integer" "sinteger" 8 true false
  addBuiltinValueType same "sinteger" "int8" 1 true false
  addBuiltinValueType same "sinteger" "int16" 2 true false
  addBuiltinValueType same "sinteger" "int32" 4 true false
  addBuiltinValueType same "sinteger" "int64" 8 true false
  addBuiltinValueType same "integer" "uinteger" 8 false false
  addBuiltinValueType same "uinteger" "uint8" 1 false false
  addBuiltinValueType same "uinteger" "uint16" 2 false false
  addBuiltinValueType same "uinteger" "uint32" 4 false false
  addBuiltinValueType same "uinteger" "uint64" 8 false false
  addBuiltinValueType same "integer" "bool" 1 false false

/-- SRCLINE: TypeSystem.cpp:1255-1299 -/
def addAliases : TypeM Unit := do
  addBuiltinValueType same "integer" "int" 8 true false
  addBuiltinValueType same "uinteger" "uint" 8 false false
  addBuiltinValueType same "sinteger" "i64" 8 true false
  addBuiltinValueType same "sinteger" "i32" 4 true false
  addBuiltinValueType same "sinteger" "i16" 2 true false
  addBuiltinValueType same "sinteger" "i8" 1 true false
  addBuiltinValueType same "uinteger" "u64" 8 false false
  addBuiltinValueType same "uinteger" "u32" 4 false false
  addBuiltinValueType same "uinteger" "u16" 2 false false
  addBuiltinValueType same "uinteger" "u8" 1 false false
  addBuiltinValueType same "number" "f32" 4 false true
  addBuiltinValueType same "number" "f64" 8 false true
  addBuiltinValueType same "basic" "sid64" 8 false false

/-- The methods of `object` and the fields of the built-in basics.
SRCLINE: TypeSystem.cpp:1306-1387 -/
def addBuiltinMembers : TypeM Unit := do
  forwardDeclareTypeAs "memory-usage-block" "basic"
  declareObjectMethod "new" ["symbol", "type", "int"] "_type_"
  declareObjectMethod "delete" ["_type_"] "none"
  declareObjectMethod "print" ["_type_"] "_type_"
  declareObjectMethod "inspect" ["_type_"] "_type_"
  declareObjectMethod "length" ["_type_"] "int"
  declareObjectMethod "asize-of" ["_type_"] "int"
  declareObjectMethod "copy" ["_type_", "symbol"] "_type_"
  declareObjectMethod "relocate" ["_type_", "int"] "_type_"
  declareObjectMethod "mem-usage" ["_type_", "memory-usage-block", "int"] "_type_"
  addBuiltinField "basic" "type" (.ofName "sid64") false false (-1)
  builtinStructureInherit "type"
  addBuiltinField "type" "symbol" (.ofName "symbol") false false (-1)
  addBuiltinField "type" "parent" (.ofName "type") false false (-1)
  addBuiltinField "type" "size" (.ofName "uint16") false false (-1)
  addBuiltinField "type" "psize" (.ofName "uint16") false false (-1)
  addBuiltinField "type" "heap-base" (.ofName "uint16") false false (-1)
  addBuiltinField "type" "allocated-length" (.ofName "uint16") false false (-1)
  addBuiltinField "type" "method-table" (.mk "pointer" [.ofName "function"] []) false true (-1)
  builtinStructureInherit "string"
  -- the offsets written after the types land in the flag for inline fields, and the flag for
  -- a dynamic field in the array size
  addBuiltinField "string" "length" (.ofName "int32") true false (-1)
  addBuiltinField "string" "data" (.mk "pointer" [.ofName "uint8"] []) true false 1

/-- `add_builtin_types`. SRCLINE: TypeSystem.cpp:1084-1390 -/
def addBuiltinTypes : TypeM Unit := do
  if ((← get).types.lookup "object").isSome then pure ()
  else do
    addRootTypes same
    addStructuralTypes same
    addNumericTypes same
    addAliases same
    addBuiltinMembers

/-! ## Runs -/

inductive TypeOperation where
  | deftype (d : Deftype)
  | defenum (d : Defenum)
  | forwardDeclareTypeAs (newType parentType : String)
  | forwardDeclareTypeAsType (name : String)
  | declareMethod (typeName name : String) (noVirtual : Bool) (type : TypeSpec)
      (overrideType : Bool)
  | defineMethod (typeName name : String) (type : TypeSpec)
  | overlayMethod (typeName name overlayName : String) (type : TypeSpec)
  | overrideMethod (typeName name : String)

def TypeOperation.run : TypeOperation → TypeM Unit
  | .deftype d => Program.deftype same d
  | .defenum d => Program.defenum same d
  | .forwardDeclareTypeAs newType parentType => Program.forwardDeclareTypeAs newType parentType
  | .forwardDeclareTypeAsType name => Program.forwardDeclareTypeAsType name
  | .declareMethod typeName name noVirtual type overrideType =>
    onType typeName fun ts t => ts.declareMethod t name noVirtual type overrideType
  | .defineMethod typeName name type =>
    onType typeName fun ts t => ts.defineMethodWith t name type
  | .overlayMethod typeName name overlayName type =>
    onType typeName fun ts t => ts.overlayMethod t name overlayName type
  | .overrideMethod typeName name => onType typeName fun ts t => ts.overrideMethod t name

/-- The table an operation leaves behind, whether it returns or throws. -/
def TypeOperation.after (op : TypeOperation) (ts : TypeSystem) : TypeSystem :=
  (StatefulExcept.runFrom (op.run same) ts).2

end Definitions

/-- The table of the built-in types; none is registered twice, so that the comparison of two
types does not matter. -/
def builtinTypes : TypeSystem :=
  (StatefulExcept.runFrom (addBuiltinTypes fun _ _ => true) ⟨[], []⟩).2

/-- The table after a run of operations from the built-in types. -/
def typesAfter (same : SootType → SootType → Bool) (ops : List TypeOperation) : TypeSystem :=
  ops.foldl (fun ts op => op.after same ts) builtinTypes

/-! ## Written assertions -/

/-- An option with the integer that is written after it. SRCLINE: Deftype.cpp:845-880 -/
inductive WrittenOption where
  | sizeAssert (v : Word)
  | methodCountAssert (v : Word)
  | flagAssert (v : Word)
  | heapBase (v : Word)

/-- A form with the written options in the place of those that are read, for a structure or for
the bits of an integer. -/
structure WrittenDeftype where
  form : Deftype
  written : List WrittenOption
  isBitfield : Bool

/-- An `int` that holds an assertion; `-1` stands for none.
SRCLINE: Deftype.cpp:846-855, 991-1002 -/
def readAssert (v : Word) : Except TypeFault ℤ :=
  let a := (v.setWidth 32).toInt
  if a = -1 then .error .thrown else .ok a

/-- One turn of the loop over the options.
SRCLINE: Deftype.cpp:845-880, 988-1008 -/
def readOption (isBitfield : Bool) (o : DeftypeOptions) :
    WrittenOption → Except TypeFault DeftypeOptions
  | .sizeAssert v => do return { o with sizeAssert := some (← readAssert v) }
  | .methodCountAssert v => do return { o with methodCountAssert := some (← readAssert v) }
  | .flagAssert v => .ok { o with flagAssert := some v.toNat }
  | .heapBase v => do
    requireThat (!isBitfield)
    requireThat (v.toNat % 2 ^ 16 % 16 == 0)
    return { o with heapBase := some (v.toNat % 2 ^ 16) }

def WrittenDeftype.options (w : WrittenDeftype) : Except TypeFault DeftypeOptions :=
  w.written.foldlM (readOption w.isBitfield)
    { w.form.options with
      sizeAssert := none
      methodCountAssert := none
      flagAssert := none
      heapBase := none }

/-- `parse_structure_def` or `parse_bitfield_type_def`, on an empty type.
SRCLINE: Deftype.cpp:764-1035 -/
def TypeSystem.parseWritten (ts : TypeSystem) (empty : SootType) (w : WrittenDeftype) :
    Except TypeFault SootType := do
  let form := { w.form with options := ← w.options }
  if w.isBitfield then ts.parseBitfieldTypeDef empty form else ts.parseStructureDef empty form

end Soot.Program
