import Soot.Analysis.Loading

/-!
# Unloading inverts loading

A file that was loaded, with the header word that holds the size of the text not relocated, is
mapped back to its original bytes: the unloader finds the same bitmap and goes through the same
slots. The bitmap of the targets has one bit for eight bytes: it knows the slots that are
pointed at, and no more.
-/

set_option autoImplicit false

namespace Soot.Analysis

open Soot.Program Soot.Computation Soot.Model

variable {A : Allocation} {b : Bytes} {s t : LoadState}

/-! ## The image -/

theorem image_after_text (hslots : SlotsAccepted A b) {i : ℕ} (hi : textSize b ≤ i) :
    image A b i = b i := by
  rw [← imageUpTo_all]
  exact imageUpTo_after_text hslots hi

theorem image_of_not_relocated {i : ℕ} (h : ¬ relocated b (i / 8)) : image A b i = b i := if_neg h

theorem textSize_image (hheader : flagged b 1 = false) : textSize (image A b) = textSize b := by
  apply Bytes.read_congr
  intro i hlo hhi
  have hslot : i / 8 = 1 := by
    simp only [headerTextSize] at hlo hhi
    omega
  apply image_of_not_relocated
  rw [hslot]
  intro h
  rw [h.2] at hheader
  cases hheader

theorem tableSize_image (hslots : SlotsAccepted A b) :
    (image A b).read (textSize b) 4 = tableSize b := by
  apply Bytes.read_congr
  intro i hlo hhi
  exact image_after_text hslots hlo

theorem image_slot {slot : ℕ} (h : relocated b slot) :
    (image A b).read (slot * 8) 8 = (A.at (slotWord b slot)).toNat := by
  have hwrite : ∀ i, slot * 8 ≤ i → i < slot * 8 + 8 →
      image A b i = Bytes.write b (slot * 8) 8 (A.at (slotWord b slot)).toNat i := by
    intro i hlo hhi
    have hslot : i / 8 = slot := by omega
    rw [Bytes.write_of_mem ⟨hlo, hhi⟩]
    unfold image
    rw [if_pos (by rw [hslot]; exact h), hslot]
    congr 3
    omega
  rw [Bytes.read_congr hwrite, Bytes.read_write]
  exact Nat.mod_eq_of_lt (A.at (slotWord b slot)).isLt

/-! ## The unloading loop -/

/-- The copy after the slots below `k` have been mapped back. -/
def restoredUpTo (A : Allocation) (b : Bytes) (k : ℕ) : Bytes := fun i =>
  if i / 8 < k then b i else image A b i

theorem restoredUpTo_zero (A : Allocation) (b : Bytes) : restoredUpTo A b 0 = image A b := by
  funext i
  simp [restoredUpTo]

theorem restoredUpTo_all {k : ℕ} (hk : directBytes b * 8 ≤ k) : restoredUpTo A b k = b := by
  funext i
  unfold restoredUpTo
  split
  · rfl
  · apply image_of_not_relocated
    intro h
    have hlt := h.1
    omega

theorem restoredUpTo_succ_of_not {k : ℕ} (h : ¬ relocated b k) :
    restoredUpTo A b (k + 1) = restoredUpTo A b k := by
  funext i
  unfold restoredUpTo
  by_cases hi : i / 8 = k
  · rw [if_pos (by omega), if_neg (by omega), image_of_not_relocated (by rw [hi]; exact h)]
  · have hiff : i / 8 < k + 1 ↔ i / 8 < k := by omega
    simp only [hiff]

theorem at_sub_base {o : ℕ} (h : o < 2 ^ 64) :
    (BitVec.ofNat 64 (A.at o).toNat - A.base).toNat = o := by
  rw [BitVec.ofNat_toNat, BitVec.setWidth_eq]
  exact index_at h

theorem restoredUpTo_succ {k : ℕ} (h : relocated b k) :
    restoredUpTo A b (k + 1) =
      (restoredUpTo A b k).write (k * 8) 8
        (BitVec.ofNat 64 ((restoredUpTo A b k).read (k * 8) 8) - A.base).toNat := by
  have hread : (restoredUpTo A b k).read (k * 8) 8 = (A.at (slotWord b k)).toNat := by
    rw [← image_slot h]
    apply Bytes.read_congr
    intro i hlo hhi
    exact if_neg (by omega)
  have hword : slotWord b k < 2 ^ 64 := Bytes.read_lt b _ 8
  rw [hread, at_sub_base hword]
  funext i
  by_cases hi : i / 8 = k
  · rw [Bytes.write_of_mem ⟨by omega, by omega⟩]
    unfold restoredUpTo
    rw [if_pos (by omega)]
    exact Bytes.byte_eq b (by omega) (by omega)
  · rw [Bytes.write_of_not_mem (by omega)]
    have hiff : i / 8 < k + 1 ↔ i / 8 < k := by omega
    simp only [restoredUpTo, hiff]

section Loop

variable {file : BinaryFile} (hacc : HeaderAccepted A b) (hslots : SlotsAccepted A b)
  (hrel : Relocated A b s) (hfile : file.relocTable = A.at (textSize b + 4))

include hacc hslots hrel hfile

theorem unmapSlot_direct {k : ℕ} (hk : k < directBytes b * 8) :
    unmapSlot A file k (restoredUpTo A b k) s = .ok (restoredUpTo A b (k + 1), s) := by
  have htable := hacc.table
  have hsmall : k / 8 < 2 ^ 31 ∧ k / 8 < tableSize b := by
    unfold directBytes at hk
    omega
  have hbyte : tableByte A file.relocTable (k / 8) s =
      .ok ((b (textSize b + 4 + k / 8)).toNat, s) := by
    rw [hfile, tableByte_direct hsmall.1 (by omega), hrel.bytes,
      image_after_text hslots (by omega)]
  unfold unmapSlot
  rw [bind_of_ok hbyte]
  by_cases hflag : flagged b k = true
  · have hbit : (b (textSize b + 4 + k / 8)).toNat.testBit (k % 8) = true := hflag
    have hin : k * 8 + 8 ≤ A.size := by
      have h := (hslots k hk hflag).1
      omega
    simp only [hbit, if_true, if_pos hin]
    rw [restoredUpTo_succ ⟨hk, hflag⟩]
    rfl
  · have hbit : (b (textSize b + 4 + k / 8)).toNat.testBit (k % 8) = false := by
      simpa [flagged] using hflag
    simp only [hbit]
    rw [restoredUpTo_succ_of_not (fun h => hflag h.2)]
    rfl

theorem unmapFrom_direct {k n : ℕ} (hkn : k + n ≤ directBytes b * 8) :
    unmapFrom A file k n (restoredUpTo A b k) s = .ok (restoredUpTo A b (k + n), s) := by
  induction n generalizing k with
  | zero => rfl
  | succ n ih =>
    have hstep := unmapSlot_direct hacc hslots hrel hfile (k := k) (by omega)
    have hrest := ih (k := k + 1) (by omega)
    rw [Nat.add_right_comm] at hrest
    exact (bind_of_ok hstep).trans hrest

omit hslots in
theorem unmapFrom_wrapped {k n : ℕ} (hclear : WrappedClear A b) (hin : 2 ^ 31 ≤ textSize b + 4)
    (hk : 2 ^ 34 ≤ k) (hend : k + n ≤ tableSize b * 8) (copy : Bytes) :
    unmapFrom A file k n copy s = .ok (copy, s) := by
  induction n generalizing k with
  | zero => rfl
  | succ n ih =>
    have htable := hacc.table
    have hhigh := tableSize_lt b
    have hbyte : tableByte A file.relocTable (k / 8) s = .ok (0, s) := by
      rw [hfile, tableByte_wrapped (by omega) (by omega) (by omega) (by omega), hrel.bytes,
        hclear (k / 8) (by omega) (by omega)]
      rfl
    have hstep : unmapSlot A file k copy s = .ok (copy, s) := by
      unfold unmapSlot
      rw [bind_of_ok hbyte]
      simp only [Nat.zero_testBit]
      rfl
    exact (bind_of_ok hstep).trans (ih (by omega) (by omega))

end Loop

theorem unmapFrom_add (file : BinaryFile) (k m n : ℕ) (copy : Bytes) :
    unmapFrom A file k (m + n) copy =
      unmapFrom A file k m copy >>= fun copy' => unmapFrom A file (k + m) n copy' := by
  induction m generalizing k copy with
  | zero =>
    rw [Nat.zero_add]
    rfl
  | succ m ih =>
    rw [Nat.succ_add, unmapFrom, unmapFrom, bind_assoc]
    congr 1
    funext copy'
    rw [ih, show k + 1 + m = k + (m + 1) by omega]

theorem getUnmapped_eq {file : BinaryFile} (hacc : HeaderAccepted A b)
    (htab : TableInside A b) (hslots : SlotsAccepted A b) (hclear : WrappedClear A b)
    (hrel : Relocated A b s) (hheader : flagged b 1 = false)
    (hfile : file.relocTable = A.at (textSize b + 4)) :
    getUnmapped A file s = .ok (b, s) := by
  have h32 : 0x20 ≤ A.size := hacc.room
  have htable := hacc.table
  have htext : textSize s.bytes = textSize b := by
    rw [hrel.bytes, textSize_image hheader]
  have hload : loadHeader A headerTextSize s = .ok (textSize b, s) := by
    unfold loadHeader
    rw [load_at (by simp only [headerTextSize]; omega)]
    exact congrArg (fun n => Except.ok (n, s)) htext
  have hrun : getUnmapped A file s = unmapFrom A file 0 (tableSize b * 8) (image A b) s := by
    have hin : textSize b + 4 ≤ A.size := by omega
    unfold getUnmapped
    refine (bind_of_ok (a := s) (t := s) rfl).trans ((bind_of_ok hload).trans ?_)
    simp only [if_pos hin, hrel.bytes, tableSize_image hslots]
  rw [hrun, ← restoredUpTo_zero]
  by_cases hlarge : 2 ^ 31 < tableSize b
  swap
  · have hdirect : directBytes b = tableSize b := by
      unfold directBytes
      omega
    rw [unmapFrom_direct hacc hslots hrel hfile (by omega), Nat.zero_add,
      restoredUpTo_all (by omega)]
  have hdirect : directBytes b = 2 ^ 31 := by
    unfold directBytes
    omega
  obtain ⟨g, hg⟩ : ∃ g, g = 2 ^ 34 := ⟨_, rfl⟩
  obtain ⟨m, hm⟩ : ∃ m, tableSize b * 8 = g + m := ⟨tableSize b * 8 - g, by omega⟩
  rw [hm, unmapFrom_add,
    bind_of_ok (unmapFrom_direct hacc hslots hrel hfile (k := 0) (n := g) (by omega)),
    Nat.zero_add, restoredUpTo_all (by omega)]
  exact unmapFrom_wrapped hacc hrel hfile hclear (htab hlarge hslots) (by omega) (by omega) b

/-- **Unloading inverts loading**, for every accepted file and every address, unless the header
word with the size of the text is itself relocated; and the addresses the loader knows to be
pointed at are, as far as its bitmap goes, those whose slot is the slot of a target.
SRCLINE: BinaryFile.cpp:244-404 -/
theorem getUnmapped_fromBuffer (A : Allocation) (b : Bytes) (file : BinaryFile) (t : LoadState)
    (hload : fromBuffer A (unloaded b) = .ok (file, t)) (hheader : flagged b 1 = false) :
    getUnmapped A file t = .ok (b, t) ∧
      ∀ o < A.size, o / 64 < b.read (textSize b) 4 →
        (getsPointedAt A t (A.at o) = true ↔
          ∃ slot, relocated b slot ∧ slotWord b slot / 8 = o / 8) := by
  have hsize := A.object
  have hreloc := relocTable_of_fromBuffer hload
  rcases fromBuffer_outcome A b with ⟨p, n, hrun, -, -⟩ | ⟨⟨e, hrun⟩, -⟩ |
    ⟨file', t', hrun, hacc, htable, hslots, hclear, -, -, hrel⟩
  · cases hload.symm.trans hrun
  · cases hload.symm.trans hrun
  cases hload.symm.trans hrun
  have htab := hacc.table
  have htext : textSize t.bytes = textSize b := by
    rw [hrel.bytes, textSize_image hheader]
  rw [htext, if_pos (by omega)] at hreloc
  refine ⟨getUnmapped_eq hacc htable hslots hclear hrel hheader hreloc, ?_⟩
  intro o ho _
  unfold getsPointedAt
  rw [index_at (by omega), hrel.pointedAt]

/-- A file without entries whose entry table pointer is relocated and has an odd target. -/
def oddTarget : Bytes :=
  Bytes.ofList [0x30, 0x30, 0x43, 0x44, 1, 0, 0, 0, 40, 0, 0, 0, 40, 0, 0, 0,
    0, 0, 0, 0, 0, 0, 0, 0, 33, 0, 0, 0, 0, 0, 0, 0, 0, 0, 0, 0, 0, 0, 0, 0, 1, 0, 0, 0, 8]

theorem getUnmapped_oddTarget : ∃ file t,
    fromBuffer (sampleAllocation 45 (by decide)) (unloaded oddTarget) = .ok (file, t) ∧
      getUnmapped (sampleAllocation 45 (by decide)) file t = .ok (oddTarget, t) := by
  have hok : (fromBuffer (sampleAllocation 45 (by decide)) (unloaded oddTarget)).isOk = true := by
    with_unfolding_all decide
  have hheader : flagged oddTarget 1 = false := by with_unfolding_all decide
  cases hload : fromBuffer (sampleAllocation 45 (by decide)) (unloaded oddTarget) with
  | error e =>
    rw [hload] at hok
    cases hok
  | ok p => exact ⟨p.1, p.2, rfl, (getUnmapped_fromBuffer _ oddTarget p.1 p.2 hload hheader).1⟩

/-- INTERNAL: the address before the target of the only relocated slot is recorded as pointed
at. -/
theorem oddTarget_records_slot : ∃ file t,
    fromBuffer (sampleAllocation 45 (by decide)) (unloaded oddTarget) = .ok (file, t) ∧
      getsPointedAt (sampleAllocation 45 (by decide)) t
        ((sampleAllocation 45 (by decide)).at 32) = true ∧
      ¬ ∃ slot, relocated oddTarget slot ∧ slotWord oddTarget slot = 32 := by
  refine ⟨_, _, rfl, rfl, ?_⟩
  rintro ⟨slot, hrel, hword⟩
  have hbits : directBytes oddTarget * 8 = 8 := by with_unfolding_all decide
  have hall : ∀ slot < 8, relocated oddTarget slot → slotWord oddTarget slot ≠ 32 := by
    with_unfolding_all decide
  exact hall slot (hbits ▸ hrel.1) hrel hword

end Soot.Analysis
