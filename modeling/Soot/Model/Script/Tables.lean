import Soot.Program.Script.Tables
import Soot.Computation.Probing

/-!
# What the tables of the interpreter hold

The vocabulary for the symbol table, the map of an environment and the hash tables.
-/

set_option autoImplicit false

namespace Soot.Model.Script

open Soot.Computation Soot.Program.Script

/-!
## What symbols are for

The interpreter compares symbols by their pointers. Pointers `Name` texts if memory has the texts
where they lead to, and they `Distinguish` texts if two of them are equal exactly when their texts
are.
-/

def Name (t : SymbolTable) (pointers : List ℕ) (strs : List Text) : Prop :=
  pointers.map (t.names[·]?) = strs.map some

def Distinguish (pointers : List ℕ) (strs : List Text) : Prop :=
  ∀ i j : ℕ, pointers[i]? = pointers[j]? ↔ strs[i]? = strs[j]?

/-- The calls on a new table return pointers that name their texts, also after more calls, and
distinguish them. -/
def Interns (hash : Text → ℕ) (depth : ℕ) (strs more : List Text) : Prop :=
  ∃ start pointers t pointers' t', SymbolTable.new hash depth = some start ∧
    SymbolTable.internAll hash depth start strs = some (pointers, t) ∧
    SymbolTable.internAll hash depth t more = some (pointers', t') ∧
    Name t pointers strs ∧ Name t' (pointers ++ pointers') (strs ++ more) ∧
    Distinguish (pointers ++ pointers') (strs ++ more)

/-!
## What the map of an environment is for

A sequence of operations binds keys to values (`boundAfter`), and the map is a finite map after it
if each of them found a slot and every key is looked up as it is bound (`IsFiniteMap`). A key is
`Removable` if no other key lies behind its slot, as seen from that key's home.
-/

section EnvironmentMap

variable {K T : Type} [DecidableEq K] [Inhabited T]

inductive MapOperation (K T : Type) where
  | set (key : K) (value : T)
  | remove (key : K)
  | clear
  | lookup (key : K)

def bindAfter (f : K → Option T) : MapOperation K T → K → Option T
  | .set key value => Function.update f key (some value)
  | .remove key => Function.update f key none
  | .clear => fun _ => none
  | .lookup _ => f

def boundAfter (ops : List (MapOperation K T)) : K → Option T :=
  ops.foldl bindAfter fun _ => none

def mapAfter (hash : K → ℕ) (m : InternedPtrMap K T) :
    MapOperation K T → Option (InternedPtrMap K T)
  | .set key value => m.set hash key value
  | .remove key => (m.remove hash key).map (·.2)
  | .clear => some .clear
  | .lookup key => (m.lookup hash key).map fun _ => m

/-- After these operations on a new map each key is looked up as it is bound. -/
def IsFiniteMap (hash : K → ℕ) (ops : List (MapOperation K T)) : Prop :=
  ∃ m, ops.foldlM (mapAfter hash) .clear = some m ∧
    ∀ key, m.lookup hash key = some (boundAfter ops key)

def Removable (hash : K → ℕ) (m : InternedPtrMap K T) (key : K) : Prop :=
  ∀ a < m.entries.length, InternedPtrMap.keyAt m.entries a = some key →
    ∀ b < m.entries.length, ∀ other ∈ InternedPtrMap.keyAt m.entries b,
      distance m.entries.length (hash other) b ≤ distance m.entries.length (hash other) a

def RemovesLast (hash : K → ℕ) : InternedPtrMap K T → List (MapOperation K T) → Prop
  | _, [] => True
  | m, op :: ops =>
    (∀ key, op = .remove key → Removable hash m key) ∧
      ∀ m', mapAfter hash m op = some m' → RemovesLast hash m' ops

end EnvironmentMap

/-!
## What hash tables are for

A sequence of calls on one table writes a finite map (`writtenAfter`), and each call has an answer
in it (`TableCall.answer`). The table behaves as the map if every call answers so and leaves the
table with what was written so far (`BehavesAsMap`).
-/

inductive TableKey where
  | symbol (name : Text)
  | string (data : Text)

namespace TableKey

def object : TableKey → Object
  | symbol name => .symbol name
  | string data => .string data

def text : TableKey → Text
  | symbol name => name
  | string data => data

def cText : TableKey → Text
  | symbol name => name
  | string data => cStr data

def IsString : TableKey → Prop
  | symbol _ => False
  | string _ => True

end TableKey

inductive TableCall where
  | set (key : TableKey) (value : Object)
  | ref (key : TableKey) (default : Option Object)
  | tryRef (key : TableKey)
  | contains (key : TableKey)
  | length
  | getAt (key : TableKey) (default : Option Object)
  | setAt (key : TableKey) (value : Object)

namespace TableCall

def arguments : TableCall → List Object
  | set key value | setAt key value => [key.object, value]
  | ref key default | getAt key default => key.object :: default.toList
  | tryRef key | contains key => [key.object]
  | length => []

def run (P : Printing) (nav : Navigation) (form : Object) (table : ℕ) (call : TableCall) :
    TableEval Object :=
  let args : Arguments := { unnamed := .heapObject .hashTable table :: call.arguments }
  match call with
  | set _ _ => evalHashTableSet P form args
  | ref _ _ => evalHashTableRef P form args
  | tryRef _ => evalHashTableTryRef P form args
  | contains _ => evalHashTableContainsp P form args
  | length => evalHashTableLength P form args
  | getAt _ _ => evalGetAt nav form args
  | setAt _ _ => evalSetAt P nav form args

def valueOr (value default : Option Object) (e : Failure) : Except Failure Object :=
  match value.or default with
  | some value => .ok value
  | none => .error e

def answer (form : Object) (m : Finmap fun _ : Text => Object) :
    TableCall → Except Failure Object
  | set _ _ | setAt _ _ => .ok .emptyList
  | ref key default => valueOr (m.lookup key.text) default (evalError form (Computation.text
      "hash-table-ref: key not found (use default value as last argument): " ++ key.text))
  | tryRef key => .ok (tryAnswer (m.lookup key.text))
  | contains key => .ok (trueOrFalse (m.lookup key.text).isSome)
  | length => .ok (.int (BitVec.ofNat 64 m.keys.card))
  | getAt key default => valueOr (m.lookup key.text) default
      (evalError form (Computation.text "get-at: key or index not found"))

end TableCall

def writtenAfter (m : Finmap fun _ : Text => Object) :
    TableCall → Finmap fun _ : Text => Object
  | .set key value | .setAt key value => m.insert key.text value
  | _ => m

/-- The answers of a sequence of calls in what has been written. -/
def answers (form : Object) : (Finmap fun _ : Text => Object) → List TableCall →
    List (Except Failure Object)
  | _, [] => []
  | m, call :: calls => call.answer form m :: answers form (writtenAfter m call) calls

/-- A sequence of calls on the table of a reference: their answers, and the tables after them. -/
def runCalls (P : Printing) (nav : Navigation) (form : Object) (table : ℕ) :
    List HashTableObject → List TableCall → List (Except Failure Object) × List HashTableObject
  | tables, [] => ([], tables)
  | tables, call :: calls =>
    let (result, tables) := (call.run P nav form table).runFrom tables
    let (results, tables) := runCalls P nav form table tables calls
    (result :: results, tables)

/-- After each of the calls the answers are those of the map, and the table has what has been
written. -/
def BehavesAsMap (P : Printing) (nav : Navigation) (form : Object) (table : ℕ)
    (tables : List HashTableObject) (m : Finmap fun _ : Text => Object) (calls : List TableCall) :
    Prop :=
  ∀ n, runCalls P nav form table tables (calls.take n) =
    (answers form m (calls.take n),
      tables.set table ⟨(calls.take n).foldl writtenAfter m⟩)

/-- A call that treats the table as the map does: `set-at!` has a string, or writes what is there
already; `get-at` finds its key, and with a value that is not of type `NONE`, or is its default; and
what `try-ref` and `contains` find under the C string of their key is what is under the key. -/
def Respectful (m : Finmap fun _ : Text => Object) : TableCall → Prop
  | .setAt key value => key.IsString ∨ m.lookup key.text = some value
  | .getAt key default => ∃ value, m.lookup key.text = some value ∧
      (value = .none → default = some .none)
  | .tryRef key => m.lookup key.cText = m.lookup key.text
  | .contains key => (m.lookup key.cText).isSome = (m.lookup key.text).isSome
  | _ => True

def AllRespectful : (Finmap fun _ : Text => Object) → List TableCall → Prop
  | _, [] => True
  | m, call :: calls => Respectful m call ∧ AllRespectful (writtenAfter m call) calls

end Soot.Model.Script
