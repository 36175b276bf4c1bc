import Soot.Program.Containers

/-!
# The calls of the map and array functions

The remaining native functions on maps and arrays that change them or give out a pointer, and a
call of any of them with its arguments. What the functions do with a pointer to another kind of
object depends on the bytes of the object, and there is no result then. Functions that only return a
number (`map-count`, `map-has`, `array-size`, `array-cap`) are left out.
-/

set_option autoImplicit false

namespace Soot.Program

namespace CellHeap

/-- The element at an index leaves the first `size` ones, and the place behind the last of them is
cleared. -/
def closeGap {α : Type} (l : List α) (index size : ℕ) (blank : α) : List α :=
  (l.take size).eraseIdx index ++ blank :: l.drop size

/-- `native_map_get` of a map, a key and a default value.
SRCLINE: NativeMap.cpp:109-119 -/
def mapGet (h : CellHeap) (map : Variant) (key : Word) (default : Variant) :
    Option (CellHeap × Variant) :=
  if map.address = 0 then some (h, .null)
  else
    match h.contents map.address with
    | .map m =>
      match findKey h.contents m key with
      | some i => some (h, h.contents.valueAt m.values i)
      | none => some (h, default)
    | _ => none

/-- `native_map_del` of a map and a key. SRCLINE: NativeMap.cpp:144-162 -/
def mapDel (h : CellHeap) (map : Variant) (key : Word) : Option (CellHeap × Variant) :=
  if map.address = 0 then some (h, .ofBool false)
  else
    match h.contents map.address with
    | .map m =>
      match findKey h.contents m key with
      | none => some (h, .ofBool false)
      | some i =>
        match h.contents m.keys, h.contents m.values with
        | .keys sids, .values variants =>
          let h := setCell h m.keys (.keys (closeGap sids i m.size 0))
          let h := setCell h m.values (.values (closeGap variants i m.size .null))
          some (setCell h map.address (.map { m with size := m.size - 1 }), .ofBool true)
        | _, _ => none
    | _ => none

/-- `native_array_clear`. SRCLINE: NativeArray.cpp:146-152 -/
def arrayClear (h : CellHeap) (array : Variant) : Option (CellHeap × Variant) :=
  if array.address = 0 then some (h, .null)
  else
    match h.contents array.address with
    | .array a => some (setCell h array.address (.array { a with size := 0 }), .null)
    | _ => none

/-- `native_array_data`: the buffer itself. SRCLINE: NativeArray.cpp:137-143 -/
def arrayData (h : CellHeap) (array : Variant) : Option (CellHeap × Variant) :=
  if array.address = 0 then some (h, pointerTo 0)
  else
    match h.contents array.address with
    | .array a => some (h, pointerTo a.data)
    | _ => none

inductive Call where
  | makeMap
  | makeArray (kind : ArrayKind)
  | mapGet (map : Variant) (key : Word) (default : Variant)
  | mapSet (map : Variant) (key : Word) (value : Variant)
  | mapDel (map : Variant) (key : Word)
  | arrayPush (array value : Variant)
  | arrayClear (array : Variant)
  | arrayData (array : Variant)

def Call.arguments : Call → List Variant
  | .makeMap | .makeArray _ => []
  | .mapGet map _ default => [map, default]
  | .mapSet map _ value => [map, value]
  | .mapDel map _ => [map]
  | .arrayPush array value => [array, value]
  | .arrayClear array | .arrayData array => [array]

/-- A call: the heap afterwards and the value that is returned, null after an error. -/
def Call.run (types : TypeRegistry Cells) (fpu : FloatUnit) (h : CellHeap) :
    Call → Option (CellHeap × Variant)
  | .makeMap => CellHeap.makeMap types h
  | .makeArray kind => CellHeap.makeArray types h kind
  | .mapGet map key default => CellHeap.mapGet h map key default
  | .mapSet map key value => CellHeap.mapSet types h map key value
  | .mapDel map key => CellHeap.mapDel h map key
  | .arrayPush array value =>
    (CellHeap.arrayPush types fpu h array value).map fun result =>
      (result.1, (result.2.toOption).getD .null)
  | .arrayClear array => CellHeap.arrayClear h array
  | .arrayData array => CellHeap.arrayData h array

end CellHeap

end Soot.Program
