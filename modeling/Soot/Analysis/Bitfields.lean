import Soot.Analysis.TypeChanges
import Soot.Model.TypeQueries

/-!
# Layout of bit fields

What one addition does, and from it what a run leaves. Whether a field is accepted is decided by
the field and the width of the type: fields that were accepted before are not looked at.
-/

set_option autoImplicit false

namespace Soot.Analysis

open Soot.Computation Soot.Computation.StatefulExcept Soot.Program Soot.Model

variable {ts : TypeSystem} {r : BitfieldRequest} {t t' u : BitFieldType}
  {calls : List (BitfieldRequest × Bool)}

theorem ofExcept_bind {α β σ ε : Type} (x : Except ε α) (f : α → Except ε β) :
    (ofExcept (x >>= f) : StatefulExcept σ ε β) = ofExcept x >>= fun a => ofExcept (f a) := by
  cases x with
  | error e => rfl
  | ok a => rfl

/-- What an addition decides, from the request and the type. -/
def checkField (ts : TypeSystem) (r : BitfieldRequest) (type : SootType) :
    Except TypeFault BitField := do
  let loadBits ← ts.loadBits r.fieldType
  requireThat (r.size loadBits ≤ loadBits)
  let end_ ← checkInt (r.size loadBits + r.offset)
  let loadSize ← type.getLoadSize
  let width ← checkInt (loadSize * 8)
  requireThat (end_ ≤ width)
  return r.field loadBits

theorem addFieldToBitfield_eq (ts : TypeSystem) (r : BitfieldRequest) (t : BitFieldType) :
    (addFieldToBitfield ts r).runFrom t =
      match checkField ts r t.type with
      | .ok f => (.ok (), { t with fields := t.fields ++ [f] })
      | .error e => (.error e, t) := by
  have hcheck : addFieldToBitfield ts r = (do
      let type ← get
      let f ← ofExcept (checkField ts r type.type)
      set { type with fields := type.fields ++ [f] }) := by
    simp only [addFieldToBitfield, checkField, ofExcept_bind, bind_assoc]
    rfl
  rw [hcheck, runFrom_bind, runFrom_get]
  simp only [runFrom_bind, runFrom_ofExcept]
  cases checkField ts r t.type with
  | error e => rfl
  | ok f => rfl

theorem checkField_eq_ok {type : SootType} {f : BitField} (h : checkField ts r type = .ok f) :
    ∃ loadBits, ts.loadBits r.fieldType = .ok loadBits ∧ r.size loadBits ≤ loadBits ∧
      r.size loadBits + r.offset ≤ type.desc.loadSize * 8 ∧ f = r.field loadBits := by
  simp only [checkField, except_bind_eq_ok] at h
  obtain ⟨loadBits, hbits, _, hsmall, end_, hend, loadSize, hload, width, hwidth, _, hinside, hf⟩ :=
    h
  have hsize : loadSize = type.desc.loadSize := by
    rw [SootType.getLoadSize] at hload
    split at hload
    · cases hload
    · exact (Except.ok.inj hload).symm
  have hle : end_ ≤ width := by simpa using requireThat_eq_ok.mp hinside
  have hfits : r.size loadBits ≤ loadBits := by simpa using requireThat_eq_ok.mp hsmall
  rw [← (checkInt_eq_ok.mp hend).2, ← (checkInt_eq_ok.mp hwidth).2, hsize] at hle
  exact ⟨loadBits, hbits, hfits, hle, (Except.ok.inj hf).symm⟩

theorem field_of_accepted (h : (addFieldToBitfield ts r).runFrom t = (.ok (), t')) :
    ∃ loadBits, ts.loadBits r.fieldType = .ok loadBits ∧ r.size loadBits ≤ loadBits ∧
      r.offset + r.size loadBits ≤ bitWidth t ∧
      t' = { t with fields := t.fields ++ [r.field loadBits] } := by
  rw [addFieldToBitfield_eq] at h
  cases hcheck : checkField ts r t.type with
  | error e => simp [hcheck] at h
  | ok f =>
    obtain ⟨loadBits, hbits, hsmall, hinside, rfl⟩ := checkField_eq_ok hcheck
    have ht' : t' = { t with fields := t.fields ++ [r.field loadBits] } := by
      simpa [hcheck, eq_comm] using h
    exact ⟨loadBits, hbits, hsmall, by rw [bitWidth]; omega, ht'⟩

theorem unchanged_of_error {e : TypeFault}
    (h : (addFieldToBitfield ts r).runFrom t = (.error e, t')) : t' = t := by
  rw [addFieldToBitfield_eq] at h
  cases hcheck : checkField ts r t.type with
  | error e => simpa [hcheck, eq_comm] using (Prod.mk.inj (hcheck ▸ h)).2
  | ok f => simp [hcheck] at h

theorem bitfieldsKept_of_run (h : BitfieldRun ts t calls u) : BitfieldsKept ts t calls u := by
  induction h with
  | done t => exact ⟨rfl, [], by simp, .nil, nofun⟩
  | accepted step rest ih =>
    obtain ⟨loadBits, hbits, hsmall, hinside, rfl⟩ := field_of_accepted step
    obtain ⟨new, hnew, hstored, hends⟩ := ih.fields
    refine ⟨ih.type, _ :: new, by simpa using hnew, .accepted hbits hsmall hstored, ?_⟩
    exact List.forall_mem_cons.mpr ⟨hinside, hends⟩
  | rejected step rest ih =>
    obtain rfl := unchanged_of_error step
    obtain ⟨new, hnew, hstored, hends⟩ := ih.fields
    exact ⟨ih.type, new, hnew, .rejected hstored, hends⟩

/-- INTERNAL: After any run of additions the fields are those there were and those of the accepted
requests, in their order, no larger than their types and ending inside the bit field type; an
addition that is rejected leaves the type unchanged, and whether one is accepted does not depend on
the fields there are. SRCLINE: TypeSystem.cpp:1631-1656 -/
theorem bitfields_run (ts : TypeSystem) :
    (∀ t calls u, BitfieldRun ts t calls u → BitfieldsKept ts t calls u) ∧
    (∀ r t t', (addFieldToBitfield ts r).runFrom t = (.error .thrown, t') → t' = t) ∧
    ∀ r t t', t.type = t'.type →
      ((addFieldToBitfield ts r).runFrom t).1 = ((addFieldToBitfield ts r).runFrom t').1 := by
  refine ⟨fun t calls u => bitfieldsKept_of_run, fun r t t' => unchanged_of_error, ?_⟩
  intro r t t' htype
  rw [addFieldToBitfield_eq, addFieldToBitfield_eq, htype]
  cases checkField ts r t'.type with
  | error e => rfl
  | ok f => rfl

/-! ## Two flags in one byte -/

/-- A type system with a type of one byte. -/
def byteTypes : TypeSystem where
  types := [("uint8", .valueType "uinteger" "uint8" 1 false false)]
  forwardDeclaredTypes := []

/-- A bit field type of one byte without fields. -/
def flags : BitFieldType := ⟨.valueType "uint8" "flags" 1 false false, []⟩

/-- A field of a name that asks for all bits of a byte. -/
def wholeByte (fieldName : String) : BitfieldRequest := ⟨fieldName, .ofName "uint8", 0, -1, false⟩

theorem wholeByte_accepted (fieldName : String) (fields : List BitField) :
    (addFieldToBitfield byteTypes (wholeByte fieldName)).runFrom { flags with fields } =
      (.ok (), { flags with fields := fields ++ [(wholeByte fieldName).field 8] }) := by
  have hbits : byteTypes.loadBits (.ofName "uint8") = .ok 8 := by decide
  have hint : checkInt 8 = .ok 8 := by decide
  have hload : flags.type.getLoadSize = .ok 1 := by decide
  have hcheck : checkField byteTypes (wholeByte fieldName) flags.type =
      .ok ((wholeByte fieldName).field 8) := by
    simp [checkField, wholeByte, BitfieldRequest.size, hbits, hload, hint, requireThat, bind,
      Except.bind, pure, Except.pure]
  rw [addFieldToBitfield_eq, hcheck]

theorem wholeByte_twice : BitfieldRun byteTypes flags
    [(wholeByte "low", true), (wholeByte "high", true)]
    { flags with fields := [(wholeByte "low").field 8, (wholeByte "high").field 8] } :=
  .accepted (wholeByte_accepted "low" []) (.accepted (wholeByte_accepted "high" _) (.done _))

theorem bitfields_run_flags : BitfieldsKept byteTypes flags
    [(wholeByte "low", true), (wholeByte "high", true)]
    { flags with fields := [(wholeByte "low").field 8, (wholeByte "high").field 8] } :=
  (bitfields_run byteTypes).1 _ _ _ wholeByte_twice

/-- Two fields are accepted for the same bits. -/
theorem not_fieldsApart : ¬ ∀ ts t calls u, BitfieldRun ts t calls u → t.fields = [] →
    FieldsApart u := by
  intro h
  have hapart := (h byteTypes flags _ _ wholeByte_twice rfl).apart
  have htwo := (List.pairwise_cons.mp hapart).1 _ (List.mem_singleton_self _)
  rcases htwo with h | h
  · exact absurd h (by decide)
  · exact absurd h (by decide)

end Soot.Analysis
