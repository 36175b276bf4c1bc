import Soot.Program.Deftype
import Soot.Program.TypeMaps

/-!
# Forms of types

Definitions that leave nothing behind where they throw, and assertions that mean the number that
is written.
-/

set_option autoImplicit false

namespace Soot.Model

open Soot.Computation Soot.Program StatefulExcept

/-! ## Definitions -/

/-- The maps of types, of forward declarations and of method counts are the same. -/
def SameMaps (r r' : TypeMaps) : Prop :=
  ∀ name, r'.types.lookup name = r.types.lookup name ∧
    r'.forwardDeclaredTypes.lookup name = r.forwardDeclaredTypes.lookup name ∧
    r'.methodCounts.lookup name = r.methodCounts.lookup name

def Atomic (x : TypeMapsM Unit) (r : TypeMaps) : Prop :=
  ∀ e r', runFrom x r = (.error e, r') → SameMaps r r'

inductive TypeCall where
  | addType (name : String) (t : SootType)
  | parseDeftype (form : DeftypeForm)

def TypeCall.run (same : SootType → SootType → Bool) : TypeCall → TypeMapsM Unit
  | addType name t => TypeMaps.addType same name t
  | parseDeftype form => TypeMaps.parseDeftype same form

/-- The checks that `add_type` makes of a new name before it registers it pass. -/
def PassesChecks (r : TypeMaps) (name : String) (t : SootType) : Prop :=
  r.checkMethodCount name t = .ok () ∧ r.checkNewParent name t = .ok ()

/-- A new type that gets as far as the map of types is what it was forward declared as. -/
def ForwardKept (r : TypeMaps) (name : String) (t : SootType) : Prop :=
  r.types.lookup name = none → PassesChecks r name t → r.meetsForward name t = true

def withForward (r : TypeMaps) (name declared : String) : TypeMaps :=
  { r with forwardDeclaredTypes := (name, declared) :: r.forwardDeclaredTypes }

/-- What the type that is read from a form has to be, or the whole form where its name is forward
declared by it. -/
def FormKept (r : TypeMaps) (form : DeftypeForm) : Option String × SootType → Prop
  | (none, empty) => ∀ t, form.body r.toTypeSystem empty = some t → ForwardKept r form.name t
  | (some declared, empty) =>
    r.types.lookup form.name = none →
      match r.forwardDeclaredTypes.lookup form.name with
      | some before => before = declared →
        ∀ t, form.body r.toTypeSystem empty = some t → ForwardKept r form.name t
      | none => ∃ t, form.body (withForward r form.name declared).toTypeSystem empty = some t ∧
        PassesChecks (withForward r form.name declared) form.name t ∧
        (withForward r form.name declared).meetsForward form.name t = true

def CallKept (r : TypeMaps) : TypeCall → Prop
  | .addType name t => ForwardKept r name t
  | .parseDeftype form => ∀ read, r.emptyType form = .ok read → FormKept r form read

/-! ## Assertions -/

/-- The values that an option is written with. -/
def WrittenOption.sizeValue : WrittenOption → Option Word
  | .sizeAssert v => some v
  | _ => none

@[inherit_doc WrittenOption.sizeValue]
def WrittenOption.methodValue : WrittenOption → Option Word
  | .methodCountAssert v => some v
  | _ => none

@[inherit_doc WrittenOption.sizeValue]
def WrittenOption.flagValue : WrittenOption → Option Word
  | .flagAssert v => some v
  | _ => none

@[inherit_doc WrittenOption.sizeValue]
def WrittenOption.heapValue : WrittenOption → Option Word
  | .heapBase v => some v
  | _ => none

def lastValue (value : WrittenOption → Option Word) (written : List WrittenOption) : Option Word :=
  (written.filterMap value).getLast?

def declaredHeapBase (ts : TypeSystem) (w : WrittenDeftype) (t : SootType) : Except TypeFault ℕ :=
  if w.isBitfield then .ok 0
  else ts.heapBase t (t.desc.sizeInMemory % 2 ^ 16)
    ((lastValue WrittenOption.heapValue w.written).map (·.toNat % 2 ^ 16))

def AssertHolds (size methods heapBase : ℕ) : WrittenOption → Prop
  | .sizeAssert v => v.toInt = size ∧ size < 2 ^ 16
  | .methodCountAssert v => v.toInt = methods ∧ methods < 2 ^ 16
  | .flagAssert v => v.toInt = size + heapBase * 2 ^ 16 + methods * 2 ^ 32
  | .heapBase v => v.toInt = heapBase

/-- All written options of a type that was read mean what they say. -/
def AssertsHold (ts : TypeSystem) (w : WrittenDeftype) (t : SootType) : Prop :=
  ∃ methods heapBase, ts.getNextMethodId t = .ok methods ∧ declaredHeapBase ts w t = .ok heapBase ∧
    ∀ o ∈ w.written, AssertHolds t.desc.sizeInMemory methods heapBase o

/-- The option is not written with another number later, and what it is compared with fits the
field: the size of the type, the number of its methods, or both. -/
def AssertFits (written : List WrittenOption) (size methods : ℕ) : WrittenOption → Prop
  | .sizeAssert v => lastValue WrittenOption.sizeValue written = some v ∧
      0 ≤ v.toInt ∧ v.toInt < 2 ^ 16 ∧ size < 2 ^ 16
  | .methodCountAssert v => lastValue WrittenOption.methodValue written = some v ∧
      0 ≤ v.toInt ∧ v.toInt < 2 ^ 16 ∧ methods < 2 ^ 16
  | .flagAssert v => lastValue WrittenOption.flagValue written = some v ∧
      size < 2 ^ 16 ∧ methods < 2 ^ 16
  | .heapBase v => lastValue WrittenOption.heapValue written = some v ∧
      0 ≤ v.toInt ∧ v.toInt < 2 ^ 16

def WrittenDeftype.laidOut (ts : TypeSystem) (empty : SootType) (w : WrittenDeftype) :
    Except TypeFault SootType := do
  let t ← if w.isBitfield then .ok empty else ts.addFields empty w.form.fields
  ts.defineEntries t w.form.methods

/-- All written options fit, where the fields and the methods of the form give the size and the
number of methods. -/
def AssertsFit (ts : TypeSystem) (empty : SootType) (w : WrittenDeftype) : Prop :=
  ∃ t methods, WrittenDeftype.laidOut ts empty w = .ok t ∧ ts.getNextMethodId t = .ok methods ∧
    ∀ o ∈ w.written, AssertFits w.written t.desc.sizeInMemory methods o

end Soot.Model
