import Mathlib.Data.Finmap
import Soot.Program.Script.Interpreter

/-!
# The tables of the interpreter

The map of an environment, the symbol table and the hash tables of the script language.
-/

set_option autoImplicit false

namespace Soot.Program.Script

open Soot.Computation

/-!
## The map of an environment

An open-addressing table whose keys are interned pointers. Its sizes are powers of two, and the
address of a slot is a hash masked by the size less one. A result of `none` is an assertion that
fails.
-/

/-- `Entry`: a key that may be null. SRCLINE: Object.hpp:457-460 -/
structure Entry (K T : Type) where
  key : Option K
  value : T
  deriving DecidableEq

/-- `InternedPtrMap`. SRCLINE: Object.hpp:453-638 -/
structure InternedPtrMap (K T : Type) where
  entries : List (Entry K T)
  powerOfTwoSize : ℕ
  usedEntries : ℕ
  nextResize : ℕ
  mask : ℕ
  deriving DecidableEq

namespace InternedPtrMap

variable {K T : Type} [DecidableEq K] [Inhabited T]

def empty : Entry K T := ⟨none, default⟩

/-- `kMaxUsed` times a size: the floating-point number nearest to 0.7, rounded down.
SRCLINE: Object.hpp:637 -/
def maxUsed (size : ℕ) : ℕ := size * 11744051 / 2 ^ 24

/-- `clear`. SRCLINE: Object.hpp:533-540 -/
def clear : InternedPtrMap K T where
  entries := List.replicate 8 empty
  powerOfTwoSize := 3
  usedEntries := 0
  nextResize := maxUsed 8
  mask := 0b111

def keyAt (entries : List (Entry K T)) (a : ℕ) : Option K := (entries[a]?).bind (·.key)

def slotAddr (mask hash i : ℕ) : ℕ := (hash + i) &&& mask

/-- The number of slots that a probe passes before one that is empty or has the key.
SRCLINE: Object.hpp:485-496, 505-526, 546-556 -/
def probe (m : InternedPtrMap K T) (hash : ℕ) (key : K) : Option ℕ :=
  (List.range m.entries.length).find? fun i =>
    let found := keyAt m.entries (slotAddr m.mask hash i)
    found = none ∨ found = some key

/-- `lookup`. SRCLINE: Object.hpp:478-504 -/
def lookup (hash : K → ℕ) (m : InternedPtrMap K T) (key : K) : Option (Option T) :=
  if m.entries.length < 10 then some ((m.entries.find? (·.key = some key)).map (·.value))
  else do
    let i ← m.probe (hash key) key
    match m.entries[slotAddr m.mask (hash key) i]? with
    | some ⟨some _, value⟩ => return some value
    | _ => return none

/-- An old entry finds a slot in the larger table. SRCLINE: Object.hpp:613-627 -/
def reinsert (hash : K → ℕ) (mask : ℕ) (entries : List (Entry K T)) (old : Entry K T) :
    Option (List (Entry K T)) :=
  match old.key with
  | none => some entries
  | some key => do
    let i ← (List.range entries.length).find? fun i =>
      keyAt entries (slotAddr mask (hash key) i) = none
    return entries.set (slotAddr mask (hash key) i) old

/-- `resize`. SRCLINE: Object.hpp:607-632 -/
def resize (hash : K → ℕ) (m : InternedPtrMap K T) : Option (InternedPtrMap K T) := do
  let powerOfTwoSize := m.powerOfTwoSize + 1
  let mask := 2 ^ powerOfTwoSize - 1
  let entries ← m.entries.foldlM (reinsert hash mask)
    (List.replicate (m.entries.length * 2) empty)
  return { m with entries, powerOfTwoSize, mask, nextResize := maxUsed entries.length }

/-- `set`. SRCLINE: Object.hpp:506-531 -/
def set (hash : K → ℕ) (m : InternedPtrMap K T) (key : K) (value : T) :
    Option (InternedPtrMap K T) := do
  let i ← m.probe (hash key) key
  let a := slotAddr m.mask (hash key) i
  let entries := m.entries.set a ⟨some key, value⟩
  if keyAt m.entries a = none then
    let m := { m with entries, usedEntries := m.usedEntries + 1 }
    if m.nextResize ≤ m.usedEntries then m.resize hash else return m
  else return { m with entries }

/-- The loop of `remove` over the slots after a removed one, which may move entries towards it. The
reference `slot` stays that of the removed slot: assigning to it copies an entry into that slot.
SRCLINE: Object.hpp:563-594 -/
def shiftBack (hash : K → ℕ) (mask h removed : ℕ) :
    ℕ → ℕ → ℕ → List (Entry K T) → List (Entry K T)
  | 0, _, _, entries => entries
  | n + 1, j, slot, entries =>
    let next := slotAddr mask h j
    match entries[next]? with
    | some ⟨some key, value⟩ =>
      let ideal := hash key &&& mask
      if ideal ≤ slot ∧ slot < next ∨ ideal > next ∧ slot < next then
        let entries := entries.set removed ⟨some key, value⟩
        let entries := entries.set next empty
        let entries := entries.set removed ((entries[next]?).getD empty)
        shiftBack hash mask h removed n (j + 1) next entries
      else shiftBack hash mask h removed n (j + 1) slot entries
    | _ => entries

/-- `remove`. SRCLINE: Object.hpp:542-599 -/
def remove (hash : K → ℕ) (m : InternedPtrMap K T) (key : K) :
    Option (Bool × InternedPtrMap K T) := do
  let i ← m.probe (hash key) key
  let a := slotAddr m.mask (hash key) i
  if keyAt m.entries a = none then return (false, m)
  else
    let entries := m.entries.set a empty
    let entries := shiftBack hash m.mask (hash key) a (m.entries.length - (i + 1)) (i + 1) a entries
    return (true, { m with entries, usedEntries := m.usedEntries - 1 })

end InternedPtrMap

/-!
## The symbol table

An open-addressing table of names with their hashes. A name lies in memory of its own, and the
pointer to it is the symbol; memory is given by the names that were allocated, the pointer being
the position. Sizes and counters are natural numbers; those of the source hold them up to `2 ^ 31`
slots. A result of `none` is an assertion that fails, or a recursion that goes on for longer than it
may.
-/

/-- `SymbolTable`, with the memory of its names. SRCLINE: Object.hpp:640-695 -/
structure SymbolTable where
  powerOfTwoSize : ℕ
  entries : List (ℕ × Option ℕ)
  usedEntries : ℕ
  nextResize : ℕ
  mask : ℕ
  names : List Text
  deriving DecidableEq

namespace SymbolTable

/-- `Entry`: a hash and a name that may be null. SRCLINE: Object.hpp:685-688 -/
abbrev Entry := ℕ × Option ℕ

def unused : Entry := (0, none)

/-- A table with its two first slots. SRCLINE: Object.cpp:73-78 -/
def initial : SymbolTable where
  powerOfTwoSize := 1
  entries := List.replicate 2 unused
  usedEntries := 0
  nextResize := InternedPtrMap.maxUsed 2
  mask := 0b1
  names := []

def slot (entries : List Entry) (a : ℕ) : Entry := (entries[a]?).getD unused

/-- Whether a probe stops at a slot: it is not used, or has the hash and the name.
SRCLINE: Object.cpp:118-138 -/
def stopsAt (names : List Text) (hash : ℕ) (str : Text) (e : Entry) : Bool :=
  match e.2 with
  | none => true
  | some name => e.1 = hash ∧ names[name]? = some str

/-- The number of slots that the probe of `intern` passes. SRCLINE: Object.cpp:115-140 -/
def probe (t : SymbolTable) (hash : ℕ) (str : Text) : Option ℕ :=
  (List.range t.entries.length).find? fun i =>
    stopsAt t.names hash str (slot t.entries (InternedPtrMap.slotAddr t.mask hash i))

/-- An old entry finds a slot in the larger table. SRCLINE: Object.cpp:151-166 -/
def reinsert (mask : ℕ) (entries : List Entry) (old : Entry) : Option (List Entry) :=
  match old.2 with
  | none => some entries
  | some _ => do
    let i ← (List.range entries.length).find? fun i =>
      (slot entries (InternedPtrMap.slotAddr mask old.1 i)).2 = none
    return entries.set (InternedPtrMap.slotAddr mask old.1 i) old

/-- `resize`. SRCLINE: Object.cpp:146-170 -/
def resize (t : SymbolTable) : Option SymbolTable := do
  let powerOfTwoSize := t.powerOfTwoSize + 1
  let mask := 2 ^ powerOfTwoSize - 1
  let entries ← t.entries.foldlM (reinsert mask) (List.replicate (t.entries.length * 2) unused)
  return { t with
    entries, powerOfTwoSize, mask, nextResize := InternedPtrMap.maxUsed entries.length }

/-- The table with a new name in a slot. SRCLINE: Object.cpp:119-124 -/
def insert (t : SymbolTable) (a hash : ℕ) (str : Text) : SymbolTable :=
  { t with
    entries := t.entries.set a (hash, some t.names.length)
    names := t.names ++ [str]
    usedEntries := t.usedEntries + 1 }

/-- `intern`, which calls itself after a resize, at most so often.
SRCLINE: Object.cpp:110-144 -/
def intern (hash : Text → ℕ) : ℕ → SymbolTable → Text → Option (ℕ × SymbolTable)
  | 0, _, _ => none
  | depth + 1, t, str => do
    let i ← t.probe (hash str) str
    let a := InternedPtrMap.slotAddr t.mask (hash str) i
    match (slot t.entries a).2 with
    | some name => return (name, t)
    | none =>
      let name := t.names.length
      let t := t.insert a (hash str) str
      if t.nextResize ≤ t.usedEntries then intern hash depth (← t.resize) str
      else return (name, t)

/-- What a sequence of calls of `intern` returns, and the table after it. -/
def internAll (hash : Text → ℕ) (depth : ℕ) :
    SymbolTable → List Text → Option (List ℕ × SymbolTable)
  | t, [] => some ([], t)
  | t, str :: strs => do
    let (name, t) ← intern hash depth t str
    let (names, t) ← internAll hash depth t strs
    return (name :: names, t)

/-- The names that the constructor interns: those of the types are `object_type_to_string` of each
of them. SRCLINE: Object.cpp:22-66, 88-105 -/
def coreSymbols : List Text :=
  [":optional", ":key", ":rest", "#t", "#f", "none", "null", "int", "float", "char", "symbol",
    "string", "pair", "array", "function", "macro", "primitive", "specialform", "environment",
    "hash-table", "pointer", "native-obj", "reader", "writer"].map text

/-- The constructor. SRCLINE: Object.cpp:73-80 -/
def new (hash : Text → ℕ) (depth : ℕ) : Option SymbolTable :=
  (internAll hash depth initial coreSymbols).map (·.2)

end SymbolTable

/-!
## Hash tables of the script interpreter

The primitives on hash tables, and `get-at` and `set-at!`, which also reach other objects. A
`std::unordered_map` is a finite map. What `get-at` and `set-at!` do to objects that are not hash
tables is a parameter.
-/

/-- SRCLINE: Object.hpp:1016-1025 -/
structure HashTableObject where
  data : Finmap fun _ : Text => Object

abbrev TableEval (α : Type) := StatefulExcept (List HashTableObject) Failure α

/-- `get_at` and `set_at` of the objects that are not hash tables. -/
structure Navigation where
  getAt : Object → Object → TableEval Object
  setAt : Object → Object → Object → TableEval Unit

/-- `is_heap_object`. SRCLINE: Object.hpp:272-274 -/
def Object.isHeapObject : Object → Bool
  | none | emptyList | int _ | float _ | char _ | symbol _ => false
  | _ => true

def trueOrFalse (b : Bool) : Object := .symbol (if b then text "#t" else text "#f")

/-! ### One table -/

/-- `as_hash_table`. SRCLINE: Object.cpp:635-641 -/
def asHashTable (P : Printing) : Object → Except Failure ℕ
  | .heapObject .hashTable ref => .ok ref
  | o => .error (.runtime (text "as_string_hash_table called on a " ++ o.typeName ++ text " " ++
      o.print P))

/-- The `data` of a table. -/
def tableData (ref : ℕ) : TableEval (Finmap fun _ : Text => Object) := do
  match (← get)[ref]? with
  | some ht => return ht.data
  | none => throw .undefinedBehaviour

/-- `data[key] = value`. -/
def setData (ref : ℕ) (key : Text) (value : Object) : TableEval Unit :=
  modify fun tables => tables.modify ref fun ht => ⟨ht.data.insert key value⟩

/-- `data[key]`: a key that is not there is inserted with an object of type `NONE`. -/
def indexData (ref : ℕ) (key : Text) : TableEval Object := do
  match (← tableData ref).lookup key with
  | some value => return value
  | none =>
    setData ref key .none
    return .none

/-- `to_std_string`. SRCLINE: Object.cpp:563-577 -/
def toStdString (P : Printing) : Object → Except Failure Text
  | .string data => .ok data
  | .symbol name => .ok name
  | o => .error (.runtime (text "to_std_string called on a " ++ o.typeName ++ o.print P))

/-- A string as what its `c_str()` points to: up to the first zero. -/
def cStr (data : Text) : Text := data.takeWhile (· ≠ 0)

/-- `get_hash_key`. SRCLINE: Interpreter.cpp:3760-3768 -/
def getHashKey : Object → Option Text
  | .symbol name => some name
  | .string data => some (cStr data)
  | _ => none

/-- `HashTableObject::get_at`. SRCLINE: Object.hpp:1105-1112 -/
def HashTableObject.getAt (ref : ℕ) : Object → TableEval Object
  | .symbol name => indexData ref name
  | .string data => indexData ref data
  | _ => return .none

/-- `HashTableObject::set_at`. SRCLINE: Object.hpp:1114-1119 -/
def HashTableObject.setAt (ref : ℕ) (key value : Object) : TableEval Unit :=
  match key with
  | .string data => setData ref data value
  | _ => pure ()

/-! ### Primitives -/

/-- The types of a table and of a key of `hash-table-set!`. -/
def tableType : Allowed := [text "hash-table"]

/-- `eval_hash_table_set`. SRCLINE: Interpreter.cpp:3839-3850 -/
def evalHashTableSet (P : Printing) (form : Object) (args : Arguments) : TableEval Object := do
  ofExcept (varargCheck P form args [tableType, [text "symbol", text "string"], []])
  match args.unnamed with
  | table :: key :: value :: _ =>
    let ht ← ofExcept (asHashTable P table)
    let key ← ofExcept (toStdString P key)
    setData ht key value
    return .emptyList
  | _ => throw .outOfRange

/-- `eval_hash_table_ref`. SRCLINE: Interpreter.cpp:3856-3892 -/
def evalHashTableRef (P : Printing) (form : Object) (args : Arguments) : TableEval Object := do
  if 2 < args.unnamed.length then
    ofExcept (varargCheck P form args [tableType, [text "string", text "symbol"], []])
  else
    ofExcept (varargCheck P form args [tableType, [text "string", text "symbol"]])
  match args.unnamed with
  | table :: key :: rest =>
    let ht ← ofExcept (asHashTable P table)
    let key ← ofExcept (toStdString P key)
    match (← tableData ht).lookup key with
    | some value => return value
    | none =>
      match rest with
      | [default] => return default
      | _ => throw (evalError form (text
          "hash-table-ref: key not found (use default value as last argument): " ++ key))
  | _ => throw .outOfRange

/-- What the two primitives below do with the value of a key.
SRCLINE: Interpreter.cpp:3898-3918, 3923-3943 -/
def withValue (P : Printing) (form : Object) (args : Arguments)
    (answer : Option Object → Object) : TableEval Object := do
  ofExcept (varargCheck P form args [tableType, []])
  match args.unnamed with
  | table :: key :: _ =>
    let ht ← ofExcept (asHashTable P table)
    match getHashKey key with
    | some key => return answer ((← tableData ht).lookup key)
    | none => throw (evalError form (text "Hash table must use symbol or string as the key."))
  | _ => throw .outOfRange

def tryAnswer : Option Object → Object
  | none => .pair (trueOrFalse false) .emptyList
  | some value => .pair (trueOrFalse true) value

/-- `eval_hash_table_try_ref`. SRCLINE: Interpreter.cpp:3898-3918 -/
def evalHashTableTryRef (P : Printing) (form : Object) (args : Arguments) : TableEval Object :=
  withValue P form args tryAnswer

/-- `eval_hash_table_containsp`. SRCLINE: Interpreter.cpp:3923-3943 -/
def evalHashTableContainsp (P : Printing) (form : Object) (args : Arguments) :
    TableEval Object :=
  withValue P form args fun value => trueOrFalse value.isSome

/-- `eval_hash_table_length`. SRCLINE: Interpreter.cpp:3948-3956 -/
def evalHashTableLength (P : Printing) (form : Object) (args : Arguments) : TableEval Object := do
  ofExcept (varargCheck P form args [[]])
  match args.unnamed with
  | table :: _ =>
    let ht ← ofExcept (asHashTable P table)
    return .int (BitVec.ofNat 64 (← tableData ht).keys.card)
  | _ => throw .outOfRange

/-- `eval_get_at`. SRCLINE: Interpreter.cpp:4001-4030 -/
def evalGetAt (nav : Navigation) (form : Object) (args : Arguments) : TableEval Object := do
  if args.unnamed.length < 2 ∨ args.unnamed.length > 3 then
    throw (evalError form (text "get-at: expected 2 or 3 arguments"))
  match args.unnamed with
  | target :: key :: rest =>
    if !target.isHeapObject then
      throw (evalError form (text "get-at: target must be a heap object"))
    let result ← match target with
      | .heapObject .hashTable ref => HashTableObject.getAt ref key
      | _ => nav.getAt target key
    if result.isNone then
      match rest with
      | [default] => return default
      | _ => throw (evalError form (text "get-at: key or index not found"))
    else return result
  | _ => throw .outOfRange

/-- `eval_set_at`. SRCLINE: Interpreter.cpp:4035-4054 -/
def evalSetAt (P : Printing) (nav : Navigation) (form : Object) (args : Arguments) :
    TableEval Object := do
  ofExcept (varargCheck P form args [[], [], []])
  match args.unnamed with
  | target :: key :: value :: _ =>
    if target.isHeapObject then
      match target with
      | .heapObject .hashTable ref => HashTableObject.setAt ref key value
      | _ => nav.setAt target key value
      return .emptyList
    else throw (evalError form
      (text "set-at!: target must be a heap object (buffer, table, etc)"))
  | _ => throw .outOfRange

end Soot.Program.Script
