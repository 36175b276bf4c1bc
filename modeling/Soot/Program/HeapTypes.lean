import Soot.Program.Carbon
import Soot.Program.Collector

/-!
# Types of heap objects

The registry of the types that script code allocates by name: the built-in ones and those that
loaded files declare. Loading a file registers its types before its symbols, and nothing takes a
type out again. The native `allocate` asks the registry for the size.

The pointer fields of a registered type and its flags are left out, as nothing reads them, and so
are the slots of `m_ptr_storage` that back them.
-/

set_option autoImplicit false

namespace Soot.Program

/-! ## The registry -/

/-- A `TypeDescriptor` with its name and alignment. SRCLINE: TypeRegistry.hpp:65-75 -/
structure RegisteredType (κ : Type) extends TypeDescriptor κ where
  name : Word
  align : ℕ

/-- The class `TypeRegistry`; the first type is the sentinel.
SRCLINE: TypeRegistry.hpp:100-105 -/
structure TypeTable (κ : Type) where
  types : List (RegisteredType κ)
  bySid : Word → Option ℕ

namespace TypeTable

variable {κ : Type}

def empty : TypeTable κ := ⟨[], fun _ => none⟩

def sentinel : RegisteredType κ := ⟨⟨0, none, false⟩, 0, 1⟩

/-- `register_type`. SRCLINE: TypeRegistry.cpp:10-48 -/
def registerType (r : TypeTable κ) (td : RegisteredType κ) : TypeTable κ :=
  let types := if r.types.isEmpty then [sentinel] else r.types
  match r.bySid td.name with
  | some _ => { r with types }
  | none => ⟨types ++ [td], Function.update r.bySid td.name (some types.length)⟩

/-- SRCLINE: TypeRegistry.cpp:50-53 -/
def findByIndex (r : TypeTable κ) (index : ℕ) : Option (RegisteredType κ) :=
  if index = 0 then none else r.types[index]?

/-- SRCLINE: TypeRegistry.cpp:55-59 -/
def find (r : TypeTable κ) (sid : Word) : Option (RegisteredType κ) :=
  (r.bySid sid).bind (r.types[·]?)

/-- SRCLINE: TypeRegistry.cpp:61-64 -/
def findIndex (r : TypeTable κ) (sid : Word) : ℕ := (r.bySid sid).getD 0

def registry (r : TypeTable κ) (clear : κ → ℕ → ℕ → κ) : TypeRegistry κ where
  findIndex sid := r.findIndex (BitVec.ofNat 64 sid)
  findByIndex index := (r.findByIndex index).map RegisteredType.toTypeDescriptor
  clear := clear

/-- A type without a mark delegate, unless there is one of its name.
SRCLINE: Carbon.cpp:776-791, NativeAllocators.cpp:152-181 -/
def registerPlain (r : TypeTable κ) (name : Word) (size align : ℕ) : TypeTable κ :=
  match r.find name with
  | some _ => r
  | none => r.registerType ⟨⟨size, none, false⟩, name, align⟩

/-- SRCLINE: Carbon.cpp:773-803 -/
def registerBuiltinGcTypes (r : TypeTable κ) : TypeTable κ :=
  (((r.registerPlain (stringId "i64") 8 8).registerPlain (stringId "f32") 4 4).registerPlain
    (stringId "sid64") 8 8).registerPlain (stringId "cstr") 0 1

/-- SRCLINE: Carbon.cpp:807-863 -/
def registerSsTypeInGc (r : TypeTable κ) (st : SsTypeRecord) : TypeTable κ :=
  r.registerPlain st.name st.size (if st.align = 0 then 16 else st.align)

end TypeTable

/-- The types of a file, in the order of its table. SRCLINE: Carbon.cpp:287-298 -/
def FileImage.typeRecords (file : FileImage) : List SsTypeRecord :=
  ((file.entries.getD []).filter fun e => e.typeId = stringId "ss-type").filterMap fun e =>
    file.ssTypes e.entryPtr

/-! ## Loading and allocating -/

/-- The registry of modules, the registry of types and the heap. -/
structure TypedHeap (κ : Type) where
  carbon : Carbon
  types : TypeTable κ
  heap : Collector κ

namespace TypedHeap

variable {κ : Type}

def registerTypes (k : TypedHeap κ) (file : FileImage) : TypedHeap κ :=
  { k with types := file.typeRecords.foldl TypeTable.registerSsTypeInGc k.types }

/-- A change of the registry of modules: a file that is loaded has its types registered first,
and unloading leaves them. SRCLINE: Carbon.cpp:269-315, 324-361, 559-603 -/
def change (k : TypedHeap κ) (event : ModuleEvent) : TypedHeap κ :=
  match event with
  | .loaded path _ file =>
    if (k.carbon.byPath path).isSome then k
    else { k.registerTypes file with carbon := event.apply k.carbon }
  | .loadedBinary _ file => { k.registerTypes file with carbon := event.apply k.carbon }
  | .unloaded _ | .ranTopLevel _ => { k with carbon := event.apply k.carbon }

/-- `allocate_impl`: the heap afterwards and the address, zero when it is a null pointer; none
when the second argument is no integer and `get_sid` throws.
SRCLINE: NativeAllocators.cpp:46-71 -/
def allocateImpl (clear : κ → ℕ → ℕ → κ) (k : TypedHeap κ) (argv : List Variant) :
    Option (TypedHeap κ × ℕ) :=
  match argv with
  | _ :: .int sid :: _ =>
    match k.types.find sid with
    | none => some (k, 0)
    | some td =>
      if td.size = 0 then some (k, 0)
      else
        (k.heap.alloc (k.types.registry clear) sid.toNat td.size).map fun (heap, payload) =>
          ({ k with heap }, payload)
  | _ :: _ :: _ => none
  | _ => some (k, 0)

end TypedHeap

end Soot.Program
