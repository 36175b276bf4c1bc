import Soot.Analysis.SidTables
import Soot.Model.MemoryRegion

/-!
# Exports that are read back

The records of an export are read as its bytes exactly when no address needs more than 16 bits,
and a file ends with its only end record exactly when the last of the calls that it holds, and no
earlier one, writes the marker.
-/

set_option autoImplicit false

namespace Soot.Analysis

open Soot.Computation Soot.Program Soot.Model
open HexRecord SidTable

variable {e : HexExport}

/-! ## Lists with a marked end -/

theorem onlyLast_append {α : Type} {p : α → Prop} {l k : List α} (hk : k ≠ []) :
    OnlyLast p (l ++ k) ↔ (∀ a ∈ l, ¬ p a) ∧ OnlyLast p k := by
  induction l with
  | nil => simp
  | cons a l ih =>
    obtain ⟨b, t, hbt⟩ := List.exists_cons_of_ne_nil (List.append_ne_nil_of_right_ne_nil l hk)
    rw [List.cons_append, hbt, OnlyLast, ← hbt, ih, List.forall_mem_cons, and_assoc]

theorem not_onlyLast {α : Type} {p : α → Prop} {l : List α} (h : ∀ a ∈ l, ¬ p a) :
    ¬ OnlyLast p l := by
  fun_induction OnlyLast p l with
  | case1 => exact id
  | case2 a => exact h a List.mem_cons_self
  | case3 a b l ih => exact fun hlast => ih (fun c hc => h c (List.mem_cons_of_mem a hc)) hlast.2

/-! ## A record is read -/

theorem ofHexDigit_hexDigit {d : ℕ} (h : d < 16) : ofHexDigit (hexDigit d) = some d := by
  have hall : ∀ d : Fin 16, ofHexDigit (hexDigit d) = some d.val := by decide
  exact hall ⟨d, h⟩

theorem readByte_hexByte (b : UInt8) (rest : Text) :
    readByte (hexByte b ++ rest) = some (b, rest) := by
  have hb := b.toNat_lt
  have hvalue : 16 * (b.toNat / 16) + b.toNat % 16 = b.toNat := Nat.div_add_mod _ _
  simp only [hexByte, List.cons_append, List.nil_append, readByte,
    ofHexDigit_hexDigit (show b.toNat / 16 < 16 by omega),
    ofHexDigit_hexDigit (show b.toNat % 16 < 16 by omega), Option.bind_eq_bind, Option.bind_some,
    hvalue]
  simp

theorem checksum_spec (bytes : List UInt8) : bytes.foldl (· + ·) 0 + checksum bytes = 0 := by
  generalize hsum : bytes.foldl (· + ·) 0 = sum
  rw [checksum, hsum]
  have hbits : (sum + (~~~ sum + 1)).toBitVec = 0#8 := by
    have hone : (1 : UInt8).toBitVec = 1#8 := rfl
    rw [UInt8.toBitVec_add, UInt8.toBitVec_add, UInt8.toBitVec_not, hone, BitVec.not_eq_neg_add]
    bv_omega
  exact UInt8.toBitVec_inj.mp hbits

theorem spells_formatHexRecord (addr : UInt16) (type : UInt8) (data : List UInt8)
    (h : data.length < 256) :
    Spells (formatHexRecord addr type data) [⟨addr.toNat, type, data⟩] := by
  refine spells_record fun rest => ?_
  have hlength : (UInt8.ofNat data.length).toNat = data.length := by simp; omega
  have haddr : 256 * (addr >>> 8).toUInt8.toNat + addr.toUInt8.toNat = addr.toNat := by
    have hlt := addr.toNat_lt
    rw [UInt16.toNat_toUInt8, UInt16.toNat_toUInt8, UInt16.toNat_shiftRight]
    simp only [UInt16.reduceToNat, Nat.reduceMod, Nat.shiftRight_eq_div_pow]
    omega
  have hsum := checksum_spec ([UInt8.ofNat data.length, (addr >>> 8).toUInt8,
    addr.toUInt8, type] ++ data)
  have hdata := fun rest => readBytes_append readByte_hexByte (l := data) rest
  simp only [formatHexRecord, HexRecord.read, List.cons_append, List.nil_append, List.flatMap_cons,
    List.append_assoc, List.head?_cons, List.tail_cons, readByte_hexByte, Option.bind_eq_bind,
    Option.bind_some, hlength, hdata] at hsum ⊢
  simp only [hsum, haddr, guard, if_true]
  rfl

/-! ## The records of an export -/

/-- The records that the loop writes from an offset on. -/
def rows (e : HexExport) (i : ℕ) : List HexRecord :=
  if i ≤ e.actualEnd then
    ⟨(e.origin + i) % 65536, 0, (e.region.data.drop i).take (min 16 (e.actualEnd - i + 1))⟩ ::
      rows e (i + 16)
  else []
termination_by e.actualEnd + 1 - i

/-- The record of the end of the file. -/
def endRecord : HexRecord := ⟨0, 1, []⟩

/-- All records of a call. -/
def hexRecords (e : HexExport) : List HexRecord :=
  rows e e.startOffset ++ if e.marks then [endRecord] else []

theorem type_of_mem_rows {i : ℕ} {r : HexRecord} (h : r ∈ rows e i) :
    r.type = 0 := by
  fun_induction rows e i with
  | case1 i hi ih => exact (List.mem_cons.mp h).elim (fun heq => by rw [heq]) ih
  | case2 i hi => cases h

theorem spells_rows (e : HexExport) (i : ℕ) : Spells (e.dataRecords i) (rows e i) := by
  fun_induction rows e i with
  | case1 i hi ih =>
    have hrow := spells_formatHexRecord (UInt16.ofNat (e.origin + i)) 0
      ((e.region.data.drop i).take (min 16 (e.actualEnd - i + 1))) (by simp)
    rw [HexExport.dataRecords, if_pos hi]
    rw [UInt16.toNat_ofNat'] at hrow
    exact hrow.append ih
  | case2 i hi =>
    rw [HexExport.dataRecords, if_neg hi]
    exact spells_nil

theorem spells_fullContent (e : HexExport) : Spells e.fullContent (hexRecords e) := by
  refine (spells_rows e e.startOffset).append ?_
  cases e.marks with
  | false => exact spells_nil
  | true =>
    have hend : text ":00000001FF\n" = formatHexRecord 0 1 [] := by with_unfolding_all decide
    rw [if_pos rfl, if_pos rfl, hend]
    exact spells_formatHexRecord 0 1 [] (by simp)

theorem placed_rows_iff (wraps : Bool) (he : e.actualEnd < e.region.data.length)
    (i : ℕ) :
    placed wraps 0 (rows e i) =
        ((e.region.data.drop i).take (e.actualEnd + 1 - i)).zipIdx (e.origin + i) ↔
      (i ≤ e.actualEnd → e.origin + (if wraps then e.actualEnd
        else i + 16 * ((e.actualEnd - i) / 16)) < 65536) := by
  fun_induction rows e i with
  | case1 i hi ih =>
    set chunk := (e.region.data.drop i).take (min 16 (e.actualEnd - i + 1)) with hchunk
    have hlength : chunk.length = min 16 (e.actualEnd - i + 1) := by simp [hchunk]; omega
    have hne : chunk ≠ [] := by
      rw [← List.length_pos_iff, hlength]
      omega
    have hsplit : ((e.region.data.drop i).take (e.actualEnd + 1 - i)).zipIdx (e.origin + i) =
        chunk.zipIdx (e.origin + i) ++
          ((e.region.data.drop (i + 16)).take (e.actualEnd + 1 - (i + 16))).zipIdx
            (e.origin + (i + 16)) := by
      rcases Nat.lt_or_ge e.actualEnd (i + 16) with hlast | hmore
      · rw [hchunk, show min 16 (e.actualEnd - i + 1) = e.actualEnd + 1 - i by omega,
          show e.actualEnd + 1 - (i + 16) = 0 by omega]
        simp
      · have hsum : e.actualEnd + 1 - i = 16 + (e.actualEnd + 1 - (i + 16)) := by omega
        have hsixteen : min 16 (e.actualEnd - i + 1) = 16 := by omega
        rw [hsum, List.take_add, List.drop_drop, List.zipIdx_append, hchunk, hsixteen,
          ← hsixteen, ← hchunk, hlength, hsixteen, Nat.add_assoc]
    have hrow := row_iff wraps hne (e.origin + i)
    have hparts : ∀ {a b c d : List (UInt8 × ℕ)}, a.length = c.length →
        (a ++ b = c ++ d ↔ a = c ∧ b = d) := fun h =>
      ⟨fun heq => List.append_inj heq h, fun heq => by rw [heq.1, heq.2]⟩
    rw [hsplit, placed, if_pos rfl, hparts (by simp), ih, hrow, hlength]
    cases wraps <;> simp <;> omega
  | case2 i hi =>
    simp [placed, hi, show e.actualEnd + 1 - i = 0 by omega]

/-! ## One export -/

theorem actualEnd_lt (he : e.Accepted) : e.actualEnd < e.region.data.length := by
  have hpos := he.1
  rw [HexExport.actualEnd]
  split <;> omega

theorem readsBack_iff {wraps : Bool} (he : e.Accepted) :
    ReadsBack wraps e ↔ highestAddress wraps e < 65536 := by
  have hdecode := (spells_fullContent e).decode_eq
  have himage : placed wraps 0 (hexRecords e) = placed wraps 0 (rows e e.startOffset) := by
    rw [hexRecords, placed_append_of_data fun r => type_of_mem_rows]
    cases e.marks <;> simp [placed, endRecord]
  have hrows := placed_rows_iff wraps (actualEnd_lt he) e.startOffset
  rw [forall_prop_of_true he.2] at hrows
  rw [highestAddress, ← hrows, ← himage]
  constructor
  · rintro ⟨rs, hrs, heq⟩
    cases hdecode.symm.trans hrs
    exact heq
  · exact fun h => ⟨hexRecords e, hdecode, h⟩

/-! ## A file of exports -/

theorem fileAfter_eq (exports : List HexExport) :
    fileAfter exports = (keptExports exports).flatMap HexExport.fullContent := by
  induction exports using List.reverseRecOn with
  | nil => rfl
  | append_singleton exports e ih =>
    simp only [fileAfter, keptExports, List.foldl_append, List.foldl_cons, List.foldl_nil] at ih ⊢
    rw [exportIntelHexFile, ih]
    by_cases he : e.Accepted <;> cases happend : e.append <;> simp [he]

theorem accepted_of_mem_keptExports {exports : List HexExport} (h : e ∈ keptExports exports) :
    e.Accepted := by
  induction exports using List.reverseRecOn with
  | nil => cases h
  | append_singleton exports d ih =>
    simp only [keptExports, List.foldl_append, List.foldl_cons, List.foldl_nil] at ih h
    by_cases hd : d.Accepted
    · cases happend : d.append <;> simp [hd, happend] at h
      · exact h ▸ hd
      · exact h.elim ih fun heq => heq ▸ hd
    · exact ih (by simpa [hd] using h)

theorem spells_flatMap (l : List HexExport) :
    Spells (l.flatMap HexExport.fullContent) (l.flatMap hexRecords) := by
  induction l with
  | nil => exact spells_nil
  | cons e l ih => exact (spells_fullContent e).append ih

theorem records_ne_nil (he : e.Accepted) : hexRecords e ≠ [] := by
  rw [hexRecords, rows, if_pos he.2]
  exact List.cons_ne_nil _ _

theorem no_end_iff (e : HexExport) : (∀ r ∈ hexRecords e, ¬ r.type = 1) ↔ ¬ e.marks = true := by
  have hrows : ∀ r ∈ rows e e.startOffset, ¬ r.type = 1 := by
    intro r hr
    rw [type_of_mem_rows hr]
    decide
  rw [hexRecords, List.forall_mem_append, and_iff_right hrows]
  cases e.marks <;> simp [endRecord]

theorem onlyLast_records {l : List HexExport} (hl : ∀ e ∈ l, e.Accepted) :
    OnlyLast (·.type = 1) (l.flatMap hexRecords) ↔ OnlyLast (·.marks = true) l := by
  induction l with
  | nil => rfl
  | cons e l ih =>
    cases l with
    | nil =>
      rw [List.flatMap_cons, List.flatMap_nil, List.append_nil, OnlyLast]
      by_cases hmarks : e.marks = true
      · have hnone := fun r (hr : r ∈ rows e e.startOffset) => type_of_mem_rows hr
        rw [hexRecords, if_pos hmarks, onlyLast_append (List.cons_ne_nil _ _)]
        exact iff_of_true ⟨fun r hr => by rw [hnone r hr]; decide, rfl⟩ hmarks
      · exact iff_of_false (not_onlyLast ((no_end_iff e).mpr hmarks)) hmarks
    | cons d l =>
      have hrest : (d :: l).flatMap hexRecords ≠ [] := by
        simp [records_ne_nil (hl d (by simp))]
      rw [List.flatMap_cons, onlyLast_append hrest, no_end_iff,
        ih fun e he => hl e (List.mem_cons_of_mem _ he), OnlyLast]

/-- What accepted calls write to a new file is read back, with the one end record of the file in
its last place, exactly when no address needs more than 16 bits and, of the calls that the file
holds, the last one alone writes the marker.
SRCLINE: MemoryRegion.cpp:94-158 -/
theorem exportsRegions_iff (wraps : Bool) (exports : List HexExport) :
    ExportsRegions wraps exports ↔
      (∀ e ∈ exports, e.Accepted → highestAddress wraps e < 65536) ∧
        ((∃ e ∈ exports, e.Accepted) → OnlyLast (·.marks = true) (keptExports exports)) := by
  have hfile := (spells_flatMap (keptExports exports)).decode_eq
  rw [← fileAfter_eq] at hfile
  have hends : (∃ rs, decode (fileAfter exports) = some rs ∧ OnlyLast (·.type = 1) rs) ↔
      OnlyLast (·.marks = true) (keptExports exports) := by
    rw [hfile, ← onlyLast_records fun e => accepted_of_mem_keptExports]
    simp
  rw [ExportsRegions, hends]
  exact and_congr_left' (forall₂_congr fun e _ => forall_congr' readsBack_iff)

/-- One byte of a region that begins at 64 KiB is read at address zero. -/
theorem not_exportsRegions_high : ¬ ∀ wraps exports, ExportsRegions wraps exports := by
  intro h
  let region : MemoryRegion := ⟨[0x5A], 0x10000⟩
  have haccepted : (region.export false).Accepted := by decide
  have hread := (h false [region.export false]).1 _ List.mem_cons_self haccepted
  rw [readsBack_iff haccepted] at hread
  exact absurd hread (by decide)

end Soot.Analysis
