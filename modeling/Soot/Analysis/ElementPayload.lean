import Soot.Analysis.SidTables
import Soot.Model.ElementPayload

/-!
# Relocation bits and their adjustment

What one call appends and which bits it sets, in a run of calls, and the adjustment of the words
by recursion over the table.
-/

set_option autoImplicit false

namespace Soot.Analysis

open Soot.Computation Soot.Program Soot.Model
open StatefulExcept ElementPayload
open Script (ofLittleEndian)
open SidTable (wordBytes)

variable {e : ElementPayload}

/-! ## One call -/

/-- What a call may do: it keeps one bit for each word, and a bit that is new comes from it. -/
structure Appended (source : ℕ → Prop) (e e' : ElementPayload) : Prop where
  oneBit : e'.relocTable.length = e'.slots
  flags : ∀ i, Flagged e' i → Flagged e i ∨ source i

theorem slots_inserted (data : List UInt8) (e : ElementPayload) :
    e.slots ≤ (e.inserted data).slots := by
  simp only [slots, inserted, List.length_append]
  omega

theorem state_checkSize (e : ElementPayload) : (runFrom checkSize e).2 = e := by
  rw [checkSize, runFrom_bind, runFrom_get]
  simp only []
  split_ifs
  · rfl
  · rfl

/-- Only bits change, and every new one is that of a slot of eight bytes that holds a pointer. -/
def MarksPointers (base : ℕ) (ptrSlots : List PtrSlot) (e e' : ElementPayload) : Prop :=
  e'.rawData = e.rawData ∧ e'.relocTable.length = e.relocTable.length ∧
    ∀ i, Flagged e' i → Flagged e i ∨ (∃ slot ∈ ptrSlots, base + slot.offset = 8 * i ∧
      slot.size = 8) ∧ 8 * i + 8 ≤ e.rawData.length ∧ slotWord e.rawData i ≠ 0

theorem marksPointers_refl (base : ℕ) (ptrSlots : List PtrSlot) (e : ElementPayload) :
    MarksPointers base ptrSlots e e := ⟨rfl, rfl, fun _ h => .inl h⟩

theorem marksPointers_verify (base : ℕ) (slot : PtrSlot) (e : ElementPayload) :
    MarksPointers base [slot] e (runFrom (verifyAndMarkPtrIfNonnull base slot) e).2 := by
  rw [verifyAndMarkPtrIfNonnull, runFrom_bind, runFrom_get]
  simp only []
  split_ifs with hsize halign hpast hnull hrange
  any_goals exact marksPointers_refl base [slot] e
  refine ⟨rfl, List.length_set, fun i hi => ?_⟩
  rw [not_not] at hsize halign
  by_cases heq : (base + slot.offset) / 8 = i
  · subst heq
    exact .inr ⟨⟨slot, List.mem_singleton_self _, by omega, hsize⟩, by omega, hnull⟩
  · exact .inl (by simpa [Flagged, List.getElem?_set, heq] using hi)

theorem marksPointers_forM (base : ℕ) (ptrSlots : List PtrSlot) (e : ElementPayload) :
    MarksPointers base ptrSlots e (runFrom (ptrSlots.forM (verifyAndMarkPtrIfNonnull base)) e).2 := by
  induction ptrSlots generalizing e with
  | nil => exact marksPointers_refl base [] e
  | cons slot ptrSlots ih =>
    have hforM : (slot :: ptrSlots).forM (verifyAndMarkPtrIfNonnull base) =
        (verifyAndMarkPtrIfNonnull base slot >>= fun _ =>
          ptrSlots.forM (verifyAndMarkPtrIfNonnull base)) := rfl
    obtain ⟨hdata, hlength, hflags⟩ := marksPointers_verify base slot e
    rw [hforM, runFrom_bind]
    rcases hrun : runFrom (verifyAndMarkPtrIfNonnull base slot) e with ⟨_ | _, t⟩
    · rw [hrun] at hdata hlength hflags
      refine ⟨hdata, hlength, fun i hi => (hflags i hi).imp_right ?_⟩
      exact fun h => ⟨by simpa using .inl (by simpa using h.1), h.2⟩
    · obtain ⟨hdata', hlength', hflags'⟩ := ih t
      rw [hrun] at hdata hlength hflags
      rw [hdata] at hdata' hflags'
      refine ⟨hdata', hlength'.trans hlength, fun i hi => ?_⟩
      rcases hflags' i hi with hi | ⟨⟨s, hs, hplace⟩, h⟩
      · refine (hflags i hi).imp_right ?_
        exact fun h => ⟨by simpa using .inl (by simpa using h.1), h.2⟩
      · exact .inr ⟨⟨s, List.mem_cons_of_mem _ hs, hplace⟩, h⟩

theorem appended_filled (h : e.relocTable.length = e.slots)
    (data : List UInt8) (source : ℕ → Prop) : Appended source e (e.inserted data).filled := by
  have hslots := slots_inserted data e
  refine ⟨?_, fun i hi => .inl ?_⟩
  · show (e.relocTable ++ List.replicate _ false).length = (e.inserted data).slots
    rw [List.length_append, List.length_replicate, inserted]
    exact Nat.add_sub_cancel' (h ▸ hslots)
  · change (e.relocTable ++ List.replicate _ false)[i]? = some true at hi
    rw [List.getElem?_append] at hi
    split_ifs at hi with hlt
    · exact hi
    · cases List.eq_of_mem_replicate (List.mem_of_getElem? hi)

theorem appended_pushValue (h : e.relocTable.length = e.slots)
    (data : List UInt8) (source : ℕ → Prop) :
    Appended source e (runFrom (pushValue data) e).2 := by
  have happended := appended_filled h data source
  simpa [pushValue, runFrom_bind, state_checkSize] using happended

theorem appended_pushValueWithPtr (h : e.relocTable.length = e.slots)
    (data : List UInt8) (ptrSlots : List PtrSlot) :
    Appended (fun i => Receives e i (.pushValueWithPtr data ptrSlots)) e
      (runFrom (pushValueWithPtr data ptrSlots) e).2 := by
  have hfilled := appended_filled h data fun _ => False
  have hmarked := marksPointers_forM e.rawData.length ptrSlots (e.inserted data).filled
  have hlast : (runFrom (pushValueWithPtr data ptrSlots) e).2 = (runFrom (ptrSlots.forM
      (verifyAndMarkPtrIfNonnull e.rawData.length)) (e.inserted data).filled).2 := by
    simp only [pushValueWithPtr, runFrom_bind, runFrom_get, runFrom_modify]
    rcases runFrom (ptrSlots.forM (verifyAndMarkPtrIfNonnull e.rawData.length))
      (e.inserted data).filled with ⟨_ | _, t⟩
    · rfl
    · exact state_checkSize t
  obtain ⟨hdata, hlength, hflags⟩ := hmarked
  rw [hlast]
  refine ⟨?_, fun i hi => ?_⟩
  · rw [hlength, hfilled.oneBit, slots, slots, hdata]
  · exact (hflags i hi).imp_left fun hi => (hfilled.flags i hi).resolve_right id

theorem appended_pushBlob (h : e.relocTable.length = e.slots)
    (isNull : Bool) (data : List UInt8) (relocationBit : UInt8) :
    Appended (fun i => StartsRelocated e i (.pushBlob isNull data relocationBit)) e
      (runFrom (pushBlob isNull data relocationBit) e).2 := by
  have hslots := slots_inserted data e
  rw [pushBlob]
  split_ifs with hnull
  · exact ⟨h, fun i hi => .inl hi⟩
  simp only [runFrom_bind, runFrom_get, runFrom_modify, state_checkSize]
  have hbits : (List.range ((e.inserted data).slots - e.slots)).flatMap
        (fun _ => insertedBits relocationBit 1) =
      List.replicate ((e.inserted data).slots - e.slots) (relocationBit.toNat.testBit 0) := by
    have hone : insertedBits relocationBit 1 = [relocationBit.toNat.testBit 0] := rfl
    rw [hone, ← List.map_eq_flatMap, List.map_const', List.length_range]
  rw [hbits]
  refine ⟨?_, fun i hi => ?_⟩
  · show (e.relocTable ++ List.replicate _ _).length = (e.inserted data).slots
    rw [List.length_append, List.length_replicate, h]
    exact Nat.add_sub_cancel' hslots
  · change (e.relocTable ++ List.replicate _ _)[i]? = some true at hi
    rw [List.getElem?_append] at hi
    split_ifs at hi with hlt
    · exact .inl hi
    · obtain ⟨hplace, hodd⟩ := List.getElem?_eq_some_iff.mp hi
      rw [List.getElem_replicate, Nat.testBit_zero, decide_eq_true_eq] at hodd
      rw [List.length_replicate, h] at hplace
      refine .inr ⟨hodd, by omega, ?_⟩
      simp only [slots, inserted] at hplace
      omega

theorem appended_call (h : e.relocTable.length = e.slots)
    (call : ElementCall) :
    Appended (fun i => Receives e i call ∨ StartsRelocated e i call) e
      (runFrom call.method e).2 := by
  cases call with
  | pushValue data => exact appended_pushValue h data _
  | pushValueWithPtr data ptrSlots =>
    have happended := appended_pushValueWithPtr h data ptrSlots
    exact ⟨happended.oneBit, fun i hi => (happended.flags i hi).imp_right .inl⟩
  | pushBlob isNull data relocationBit =>
    have happended := appended_pushBlob h isNull data relocationBit
    exact ⟨happended.oneBit, fun i hi => (happended.flags i hi).imp_right .inr⟩

/-! ## A run of calls -/

theorem payloadAfter_concat (name type : String) (calls : List ElementCall) (call : ElementCall) :
    payloadAfter name type (calls ++ [call]) =
      (runFrom call.method (payloadAfter name type calls)).2 := by
  rw [payloadAfter, List.foldl_append]
  rfl

theorem oneBit_payloadAfter (name type : String) (calls : List ElementCall) :
    (payloadAfter name type calls).relocTable.length = (payloadAfter name type calls).slots := by
  induction calls using List.reverseRecOn with
  | nil => simp [payloadAfter, slots]
  | append_singleton calls call ih =>
    rw [payloadAfter_concat]
    exact (appended_call ih call).oneBit

theorem flags_payloadAfter (name type : String) (calls : List ElementCall) :
    FlagsComeFrom (fun e i call => Receives e i call ∨ StartsRelocated e i call) name type
      calls := by
  induction calls using List.reverseRecOn with
  | nil => exact fun i hi => absurd hi (by simp [payloadAfter, Flagged])
  | append_singleton calls call ih =>
    intro i hi
    rw [payloadAfter_concat] at hi
    have hbefore := oneBit_payloadAfter name type calls
    rcases (appended_call hbefore call).flags i hi with hi | hsource
    · obtain ⟨before, c, after, heq, hsource⟩ := ih i hi
      exact ⟨before, c, after ++ [call], by rw [heq]; simp, hsource⟩
    · exact ⟨calls, call, [], rfl, hsource⟩

/-! ## The adjustment -/

theorem getElem?_slotBytes (raw : List UInt8) (j : ℕ) :
    (slotBytes raw (j / 8))[j % 8]? = raw[j]? := by
  rw [slotBytes, List.getElem?_take_of_lt (Nat.mod_lt j (by omega)), List.getElem?_drop,
    Nat.div_add_mod]

theorem eq_of_slotBytes {raw raw' : List UInt8} (h : ∀ i, slotBytes raw i = slotBytes raw' i) :
    raw = raw' := by
  refine List.ext_getElem? fun j => ?_
  rw [← getElem?_slotBytes, h, getElem?_slotBytes]

theorem slotWord_of_wordBytes {raw : List UInt8} {i : ℕ} {w : Word}
    (h : slotBytes raw i = wordBytes w) : slotWord raw i = w := by
  rw [slotWord, h, ofLittleEndian_wordBytes, BitVec.ofNat_toNat, BitVec.setWidth_eq]

theorem slotBytes_append {front rest : List UInt8} (h : front.length = 8) (i : ℕ) :
    slotBytes (front ++ rest) 0 = front ∧
      slotBytes (front ++ rest) (i + 1) = slotBytes rest i := by
  constructor
  · rw [slotBytes, Nat.mul_zero, List.drop_zero, ← h, List.take_left]
  · rw [slotBytes, Nat.mul_succ, Nat.add_comm, ← List.drop_drop, ← h, List.drop_left, h]
    rfl

theorem length_adjustFrom (d : Word) (table : List Bool) (raw : List UInt8) :
    (adjustFrom d table raw).length = raw.length := by
  fun_induction adjustFrom d table raw with
  | case1 flag table raw hshort => rfl
  | case2 flag table raw hlong ih =>
    have hfront : (if flag ∧ slotWord raw 0 ≠ 0 then wordBytes (slotWord raw 0 + d)
        else raw.take 8).length = 8 := by
      split_ifs
      · exact length_wordBytes _
      · exact List.length_take_of_le (by omega)
    rw [List.length_append, hfront, ih, List.length_drop]
    omega
  | case3 raw => rfl

theorem slotBytes_adjustFrom (d : Word) (table : List Bool) (raw : List UInt8) (i : ℕ) :
    slotBytes (adjustFrom d table raw) i =
      if table[i]? = some true ∧ 8 * i + 8 ≤ raw.length ∧ slotWord raw i ≠ 0 then
        wordBytes (slotWord raw i + d) else slotBytes raw i := by
  fun_induction adjustFrom d table raw generalizing i with
  | case1 flag table raw hshort => rw [if_neg (by omega)]
  | case2 flag table raw hlong ih =>
    set front := if flag ∧ slotWord raw 0 ≠ 0 then wordBytes (slotWord raw 0 + d)
      else raw.take 8 with hdef
    have hfront : front.length = 8 := by
      rw [hdef]
      split_ifs
      · exact length_wordBytes _
      · exact List.length_take_of_le (by omega)
    have hraw : raw.take 8 ++ raw.drop 8 = raw := List.take_append_drop 8 raw
    have htake : (raw.take 8).length = 8 := List.length_take_of_le (by omega)
    cases i with
    | zero =>
      rw [(slotBytes_append hfront 0).1, hdef, List.getElem?_cons_zero]
      simp only [Option.some.injEq, show 8 * 0 + 8 ≤ raw.length by omega, true_and]
      rfl
    | succ i =>
      have hnext : slotBytes raw (i + 1) = slotBytes (raw.drop 8) i := by
        rw [← (slotBytes_append htake i).2, hraw]
      have hword : slotWord raw (i + 1) = slotWord (raw.drop 8) i := by
        rw [slotWord, hnext, slotWord]
      have hlength : 8 * (i + 1) + 8 ≤ raw.length ↔ 8 * i + 8 ≤ (raw.drop 8).length := by
        rw [List.length_drop]
        omega
      rw [(slotBytes_append hfront i).2, ih, hnext, hword, List.getElem?_cons_succ]
      simp only [hlength]
  | case3 raw => rw [if_neg (by simp)]

section Adjusting

variable (e : ElementPayload)

theorem addsExactly : AddsExactly (Adjusted e) e := by
  intro d
  exact ⟨length_adjustFrom d e.relocTable e.rawData, slotBytes_adjustFrom d e.relocTable e.rawData⟩

theorem slotWord_adjustOffsets (d : Word) (i : ℕ) :
    slotWord (e.adjustOffsets d).rawData i =
      if Adjusted e i then slotWord e.rawData i + d else slotWord e.rawData i := by
  have hbytes := (addsExactly e d).2 i
  split_ifs at hbytes ⊢
  · exact slotWord_of_wordBytes hbytes
  · rw [slotWord, hbytes, slotWord]

theorem adjusted_adjustOffsets (a : Word) (i : ℕ) :
    Adjusted (e.adjustOffsets a) i ↔ Adjusted e i ∧ slotWord e.rawData i + a ≠ 0 := by
  have hlength := (addsExactly e a).1
  have hword := slotWord_adjustOffsets e a i
  by_cases hi : Adjusted e i
  · rw [if_pos hi] at hword
    rw [Adjusted, hlength, hword, and_iff_right hi]
    exact ⟨fun h => h.2.2, fun h => ⟨hi.1, hi.2.1, h⟩⟩
  · rw [if_neg hi] at hword
    rw [Adjusted, hlength, hword]
    exact ⟨fun h => absurd h hi, fun h => absurd h.1 hi⟩

theorem slotBytes_twice (a b : Word) (i : ℕ) :
    slotBytes ((e.adjustOffsets a).adjustOffsets b).rawData i =
        slotBytes (e.adjustOffsets (a + b)).rawData i ↔
      (Adjusted e i → slotWord e.rawData i + a = 0 → b = 0) := by
  have hfirst := (addsExactly e a).2 i
  have hsum := (addsExactly e (a + b)).2 i
  have hsecond := (addsExactly (e.adjustOffsets a) b).2 i
  rw [hsecond, hsum, hfirst, slotWord_adjustOffsets]
  simp only [adjusted_adjustOffsets]
  by_cases hi : Adjusted e i
  · simp only [hi, true_and, if_true, forall_const]
    by_cases hnull : slotWord e.rawData i + a = 0
    · have hzero : slotWord e.rawData i + (a + b) = b := by rw [← BitVec.add_assoc, hnull]; simp
      rw [if_neg (not_not.mpr hnull), hnull, hzero, forall_prop_of_true rfl]
      constructor
      · intro h
        have hvalue := congrArg ofLittleEndian h
        rw [ofLittleEndian_wordBytes, ofLittleEndian_wordBytes] at hvalue
        exact (BitVec.eq_of_toNat_eq hvalue).symm
      · rintro rfl
        rfl
    · rw [if_pos hnull, BitVec.add_assoc]
      exact iff_of_true rfl fun h => absurd h hnull
  · simp [hi]

theorem addsUp_iff (a b : Word) :
    (e.adjustOffsets a).adjustOffsets b = e.adjustOffsets (a + b) ↔
      b = 0 ∨ ∀ i, Adjusted e i → slotWord e.rawData i + a ≠ 0 := by
  have hdata : (e.adjustOffsets a).adjustOffsets b = e.adjustOffsets (a + b) ↔
      ∀ i, slotBytes ((e.adjustOffsets a).adjustOffsets b).rawData i =
        slotBytes (e.adjustOffsets (a + b)).rawData i := by
    constructor
    · intro h i
      rw [h]
    · intro h
      have hraw := eq_of_slotBytes h
      show ({ e with rawData := _ } : ElementPayload) = { e with rawData := _ }
      exact congrArg (fun raw => ({ e with rawData := raw } : ElementPayload)) hraw
  rw [hdata]
  simp only [slotBytes_twice]
  by_cases hb : b = 0
  · simp [hb]
  · simp only [hb, false_or, imp_false]

end Adjusting

/-- The bits of an element after any calls, and its adjustments: one bit for each started word,
each set by a pointer or by a blob that is to be relocated, and two adjustments are one of their
sum exactly when the second is zero or the first makes no pointer null.
SRCLINE: ProgramBinaryElement.hpp:134-174 -/
theorem flagsSlots (name type : String) (calls : List ElementCall) :
    FlagsSlots name type calls :=
  ⟨oneBit_payloadAfter name type calls, flags_payloadAfter name type calls, addsExactly _,
    addsUp_iff _⟩

/-- A blob of eight zero bytes that is to be relocated sets the bit of a slot that never held a
pointer. -/
theorem not_flagsPointers_blob : ¬ ∀ name type calls, FlagsPointers name type calls := by
  intro h
  obtain ⟨before, call, after, hcalls, hreceives⟩ :=
    (h "" "" [.pushBlob false (List.replicate 8 0) 1]).flags 0 (by decide)
  obtain ⟨-, hcall⟩ := List.append_eq_singleton_iff.mp hcalls.symm |>.resolve_right (by simp)
  cases hcall
  exact hreceives

end Soot.Analysis
