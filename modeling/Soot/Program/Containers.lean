import Soot.Program.Collector
import Soot.Program.StringId

/-!
# Maps and arrays on the heap

The maps and arrays of the native functions, with their buffers as heap objects of their own,
and the mark delegates of their types. What a block holds is kept as what the code uses it
for; a pointer is an address.
-/

set_option autoImplicit false

namespace Soot.Program

/-- SRCLINE: NativeMap.hpp:23-28 -/
structure RuntimeMap where
  size : ℕ
  capacity : ℕ
  keys : ℕ
  values : ℕ
  deriving DecidableEq

/-- SRCLINE: NativeArray.hpp:27-32 -/
structure RuntimeArray where
  size : ℕ
  capacity : ℕ
  data : ℕ
  elemSize : ℕ
  deriving DecidableEq

inductive Cell where
  | object (fields : ℕ → Variant)
  | map (m : RuntimeMap)
  | array (a : RuntimeArray)
  | keys (sids : List Word)
  | values (variants : List Variant)
  | elements (pointers : List ℕ)
  | scalars (words : List (BitVec 32))

abbrev Cells := ℕ → Cell

/-- `get_ptr` of a value that is a pointer, else null. -/
def Variant.address : Variant → ℕ
  | .pointer p => p.toNat
  | _ => 0

namespace Cells

def set (c : Cells) (payload : ℕ) (cell : Cell) : Cells :=
  fun p => if p = payload then cell else c p

/-- `m_pKeys[i]`. -/
def keyAt (c : Cells) (buffer i : ℕ) : Word :=
  match c buffer with
  | .keys sids => sids.getD i 0
  | _ => 0

/-- `m_pValues[i]`. -/
def valueAt (c : Cells) (buffer i : ℕ) : Variant :=
  match c buffer with
  | .values variants => variants.getD i .null
  | _ => .null

/-- `elems[i]`. -/
def elementAt (c : Cells) (buffer i : ℕ) : ℕ :=
  match c buffer with
  | .elements pointers => pointers.getD i 0
  | _ => 0

def scalarAt (c : Cells) (buffer i : ℕ) : BitVec 32 :=
  match c buffer with
  | .scalars words => words.getD i 0
  | _ => 0

end Cells

/-! ## Types -/

/-- `mark_runtime_map`. SRCLINE: NativeMap.cpp:56-66 -/
def markRuntimeMap (c : Cells) (payload : ℕ) : List ℕ :=
  match c payload with
  | .map m =>
    if m.values = 0 then []
    else
      (List.range m.size).filterMap fun i =>
        let p := (c.valueAt m.values i).address
        if p = 0 then none else some p
  | _ => []

def markArrayScalar (_ : Cells) (_ : ℕ) : List ℕ := []

/-- `mark_array_ptr`. A buffer of elements has the tag of its array, so its first two pointers are
taken for the size and the data of one. SRCLINE: NativeArray.cpp:24-31 -/
def markArrayPtr (word : Cells → ℕ → ℕ) (c : Cells) (payload : ℕ) : List ℕ :=
  match c payload with
  | .array a =>
    if a.data = 0 then []
    else
      (List.range a.size).filterMap fun i =>
        if c.elementAt a.data i = 0 then none else some (c.elementAt a.data i)
  | .elements pointers =>
    let data := pointers.getD 1 0
    if data = 0 then []
    else
      (List.range (pointers.getD 0 0 % 2 ^ 32)).filterMap fun i =>
        if word c (data + 8 * i) = 0 then none else some (word c (data + 8 * i))
  | _ => []

/-- What the heap is used with: the names and sizes of the types of loaded files, and the word
that is read at any address in memory. -/
structure HeapHost where
  loaded : List (ℕ × ℕ)
  word : Cells → ℕ → ℕ

/-- `SID` of a name. -/
def sidOf (name : String) : ℕ := (stringId name).toNat

/-- The types that are registered before any file is loaded.
SRCLINE: Carbon.cpp:774-804, NativeAllocators.cpp:149-190, NativeMap.cpp:72-86,
NativeArray.cpp:59-63 -/
def registeredTypes (word : Cells → ℕ → ℕ) : List (ℕ × TypeDescriptor Cells) :=
  [(sidOf "i64", ⟨8, none, false⟩),
   (sidOf "f32", ⟨4, none, false⟩),
   (sidOf "sid64", ⟨8, none, false⟩),
   (sidOf "cstr", ⟨0, none, false⟩),
   (sidOf "variant", ⟨16, none, false⟩),
   (sidOf "vector", ⟨16, none, false⟩),
   (sidOf "cvector", ⟨16, none, false⟩),
   (sidOf "runtime-map", ⟨24, some markRuntimeMap, true⟩),
   (sidOf "runtime-array-i32", ⟨24, some markArrayScalar, true⟩),
   (sidOf "runtime-array-f32", ⟨24, some markArrayScalar, true⟩),
   (sidOf "runtime-array-ptr", ⟨24, some (markArrayPtr word), true⟩)]

/-- The type of a loaded file has no delegates. SRCLINE: Carbon.cpp:807-863 -/
def loadedType (name size : ℕ) : ℕ × TypeDescriptor Cells := (name, ⟨size, none, false⟩)

def clearCell (c : Cells) (payload _size : ℕ) : Cells := c.set payload (.object fun _ => .null)

/-- The registry with the types of loaded files: a type is found by its name, and by its
position from one on. SRCLINE: TypeRegistry.cpp:10-63 -/
def runtimeTypes (host : HeapHost) : TypeRegistry Cells :=
  let entries := registeredTypes host.word ++ host.loaded.map fun t => loadedType t.1 t.2
  { findIndex := fun sid => ((entries.findIdx? fun entry => entry.1 == sid).map (· + 1)).getD 0
    findByIndex := fun index => if index = 0 then none else entries[index - 1]?.map Prod.snd
    clear := clearCell }

/-! ## Native functions -/

abbrev CellHeap := Collector Cells

namespace CellHeap

variable (types : TypeRegistry Cells)

def setCell (h : CellHeap) (payload : ℕ) (cell : Cell) : CellHeap :=
  { h with contents := h.contents.set payload cell }

def blankCell (sid : ℕ) : Cell :=
  if sid = sidOf "runtime-map" then .map ⟨0, 0, 0, 0⟩
  else if sid = sidOf "runtime-array-i32" ∨ sid = sidOf "runtime-array-f32" ∨
      sid = sidOf "runtime-array-ptr" then .array ⟨0, 0, 0, 0⟩
  else .object fun _ => .null

/-- `gc::alloc` of an object. -/
def allocObject (h : CellHeap) (sid size : ℕ) : Option (CellHeap × ℕ) :=
  (h.alloc types sid size).map fun result =>
    if result.2 = 0 then result
    else (setCell result.1 result.2 (blankCell sid), result.2)

def pointerTo (payload : ℕ) : Variant := .pointer (BitVec.ofNat 64 payload)

/-- `native_make_map`. SRCLINE: NativeMap.cpp:14-24 -/
def makeMap (h : CellHeap) : Option (CellHeap × Variant) :=
  (h.alloc types (sidOf "runtime-map") 24).map fun result =>
    if result.2 = 0 then (result.1, pointerTo 0)
    else (setCell result.1 result.2 (.map ⟨0, 0, 0, 0⟩), pointerTo result.2)

def findKey (c : Cells) (m : RuntimeMap) (key : Word) : Option ℕ :=
  (List.range m.size).find? fun i => c.keyAt m.keys i == key

/-- `grow_map`: the map with its new buffers, when there was room for both.
SRCLINE: NativeMap.cpp:32-52 -/
def growMap (h : CellHeap) (payload : ℕ) (m : RuntimeMap) :
    Option (CellHeap × Option RuntimeMap) :=
  let newCap := if m.capacity = 0 then 8 else m.capacity * 2 % 2 ^ 32
  (h.alloc types (sidOf "sid64") (newCap * 8)).bind fun keys =>
    if keys.2 = 0 then some (keys.1, none)
    else
      (keys.1.alloc types (sidOf "variant") (newCap * 16)).map fun values =>
        if values.2 = 0 then (values.1, none)
        else
          let c := values.1.contents
          let newKeys := (List.range newCap).map fun i =>
            if i < m.size then c.keyAt m.keys i else 0
          let newValues := (List.range newCap).map fun i =>
            if i < m.size then c.valueAt m.values i else .null
          let grown : RuntimeMap :=
            { m with keys := keys.2, values := values.2, capacity := newCap }
          (setCell (setCell (setCell values.1 keys.2 (.keys newKeys)) values.2 (.values newValues))
            payload (.map grown), some grown)

/-- `m_pValues[i] = value`. There is no result when the buffer is not one of values. -/
def setValue (h : CellHeap) (buffer i : ℕ) (value : Variant) : Option CellHeap :=
  match h.contents buffer with
  | .values variants => some (setCell h buffer (.values (variants.set i value)))
  | _ => none

/-- `m_pKeys[i] = key`. -/
def setKey (h : CellHeap) (buffer i : ℕ) (key : Word) : Option CellHeap :=
  match h.contents buffer with
  | .keys sids => some (setCell h buffer (.keys (sids.set i key)))
  | _ => none

/-- A key and its value are put at the end, and `m_size` grows. -/
def appendEntry (h : CellHeap) (payload : ℕ) (m : RuntimeMap) (key : Word) (value : Variant) :
    Option CellHeap :=
  (setKey h m.keys m.size key).bind fun h =>
    (setValue h m.values m.size value).map fun h =>
      setCell h payload (.map { m with size := (m.size + 1) % 2 ^ 32 })

/-- `native_map_set` of a map, a key and a value. There is no result when the pointer is not one
to a map. SRCLINE: NativeMap.cpp:120-140 -/
def mapSet (h : CellHeap) (map : Variant) (key : Word) (value : Variant) :
    Option (CellHeap × Variant) :=
  if map.address = 0 then some (h, .null)
  else
    match h.contents map.address with
    | .map m =>
      match findKey h.contents m key with
      | some i => (setValue h m.values i value).map fun h => (h, map)
      | none =>
        if m.size < m.capacity then
          (appendEntry h map.address m key value).map fun h => (h, map)
        else
          (growMap types h map.address m).bind fun grown =>
            match grown.2 with
            | none => some (grown.1, .null)
            | some m => (appendEntry grown.1 map.address m key value).map fun h => (h, map)
    | _ => none

inductive ArrayKind where
  | i32 | f32 | ptr
  deriving DecidableEq

def arraySidFor : ArrayKind → ℕ
  | .i32 => sidOf "runtime-array-i32"
  | .f32 => sidOf "runtime-array-f32"
  | .ptr => sidOf "runtime-array-ptr"

def elemSizeFor : ArrayKind → ℕ
  | .ptr => 8
  | _ => 4

/-- `native_make_array`. SRCLINE: NativeArray.cpp:99-116 -/
def makeArray (h : CellHeap) (kind : ArrayKind) : Option (CellHeap × Variant) :=
  (h.alloc types (arraySidFor kind) 24).map fun result =>
    if result.2 = 0 then (result.1, pointerTo 0)
    else (setCell result.1 result.2 (.array ⟨0, 0, 0, elemSizeFor kind⟩), pointerTo result.2)

def elemSizeOf (a : RuntimeArray) : ℕ := if a.elemSize ≠ 0 then a.elemSize else 8

/-- The array with a new buffer, when there was room. SRCLINE: NativeArray.cpp:160-180 -/
def growArray (h : CellHeap) (payload : ℕ) (a : RuntimeArray) :
    Option (CellHeap × Option RuntimeArray) :=
  let newCap := if a.capacity = 0 then 8 else a.capacity * 2 % 2 ^ 32
  let sid := if elemSizeOf a = 4 then sidOf "runtime-array-i32" else sidOf "runtime-array-ptr"
  (h.alloc types sid (newCap * elemSizeOf a)).map fun data =>
    if data.2 = 0 then (data.1, none)
    else
      let c := data.1.contents
      let copied := fun i : ℕ => decide (a.data ≠ 0 ∧ i < a.size)
      let buffer : Cell :=
        if elemSizeOf a = 4 then
          .scalars ((List.range newCap).map fun i => if copied i then c.scalarAt a.data i else 0)
        else
          .elements ((List.range newCap).map fun i => if copied i then c.elementAt a.data i else 0)
      let grown : RuntimeArray := { a with data := data.2, capacity := newCap }
      (setCell (setCell data.1 data.2 buffer) payload (.array grown), some grown)

/-- The value is put at the end, and `m_size` grows. SRCLINE: NativeArray.cpp:182-196 -/
def appendElement (fpu : FloatUnit) (h : CellHeap) (payload : ℕ) (a : RuntimeArray)
    (value : Variant) : Option (CellHeap × Except VmErrorKind Unit) :=
  let sized := fun h : CellHeap =>
    setCell h payload (.array { a with size := (a.size + 1) % 2 ^ 32 })
  match h.contents a.data with
  | .scalars words =>
    if elemSizeOf a = 4 then
      match value.toInt fpu with
      | .ok i => some (sized (setCell h a.data (.scalars (words.set a.size (i.truncate 32)))), .ok ())
      | .error e => some (h, .error e)
    else none
  | .elements pointers =>
    if elemSizeOf a = 4 then none
    else some (sized (setCell h a.data (.elements (pointers.set a.size value.address))), .ok ())
  | _ => none

/-- `native_array_push` of an array and a value. -/
def arrayPush (fpu : FloatUnit) (h : CellHeap) (array value : Variant) :
    Option (CellHeap × Except VmErrorKind Variant) :=
  let push := fun (h : CellHeap) (a : RuntimeArray) =>
    (appendElement fpu h array.address a value).map fun result =>
      (result.1, result.2.map fun _ => array)
  if array.address = 0 then some (h, .ok .null)
  else
    match h.contents array.address with
    | .array a =>
      if a.size < a.capacity then push h a
      else
        (growArray types h array.address a).bind fun grown =>
          match grown.2 with
          | none => some (grown.1, .ok .null)
          | some a => push grown.1 a
    | _ => none

end CellHeap

end Soot.Program
