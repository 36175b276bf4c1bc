import Mathlib.Data.List.GetD
import Soot.Analysis.Script.Archive
import Soot.Analysis.SidBase

/-!
# What a saved table of string ids brings back

The binary file is the header, the entries in the order of their ids and the strings in the same
order, so each entry is found at its place, and its offset leads to its string. It brings back what
C strings can hold. A line of the text file brings back an id of 32 bits and a name without blanks
at its ends.
-/

set_option autoImplicit false

namespace Soot.Analysis

open Soot.Computation Soot.Program Soot.Model
open DataSegment (cString)
open Script (littleEndian ofLittleEndian)
open Soot.Program.SidTable

variable {table : SidTable}

/-! ## The binary file -/

theorem length_wordBytes (w : Word) : (wordBytes w).length = 8 := Script.length_littleEndian 8 _

theorem ofLittleEndian_wordBytes (w : Word) : ofLittleEndian (wordBytes w) = w.toNat := by
  rw [wordBytes, Script.ofLittleEndian_littleEndian, Nat.mod_eq_of_lt]
  exact w.isLt

theorem readWord_written (before after : Text) (w : Word) {place : ℕ}
    (hplace : place = before.length) :
    readWord (before ++ (wordBytes w ++ after)) place = .ok w := by
  subst hplace
  have hlength := length_wordBytes w
  rw [readWord_eq (by simp only [List.length_append]; omega), List.drop_left,
    List.take_append_of_le_length (by omega), List.take_of_length_le (by omega),
    ofLittleEndian_wordBytes, BitVec.ofNat_toNat, BitVec.setWidth_eq]

theorem length_stringPool (l : SidTable) :
    (stringPool l).length = (l.map fun e => e.2.length + 1).sum := by
  simp [stringPool, List.length_flatMap]

theorem length_entriesFrom (offset : Word) (l : SidTable) :
    (entriesFrom offset l).length = l.length := by
  induction l generalizing offset with
  | nil => rfl
  | cons e l ih => rw [entriesFrom, List.length_cons, List.length_cons, ih]

theorem entriesFrom_append (offset : Word) (l l' : SidTable) :
    entriesFrom offset (l ++ l') = entriesFrom offset l ++
      entriesFrom (offset + BitVec.ofNat 64 (stringPool l).length) l' := by
  induction l generalizing offset with
  | nil => simp [entriesFrom, stringPool]
  | cons e l ih =>
    have hpool : (stringPool (e :: l)).length = e.2.length + 1 + (stringPool l).length := by
      simp only [length_stringPool, List.map_cons, List.sum_cons]
    have hoffset : offset + BitVec.ofNat 64 (stringPool (e :: l)).length =
        offset + BitVec.ofNat 64 (e.2.length + 1) + BitVec.ofNat 64 (stringPool l).length := by
      rw [hpool, BitVec.ofNat_add (e.2.length + 1), BitVec.add_assoc]
    rw [List.cons_append, entriesFrom, entriesFrom, ih, hoffset]
    rfl

/-- The bytes of the entries. -/
def entryBytes (entries : List SidBaseEntry) : Text :=
  entries.flatMap fun e => wordBytes e.hash ++ wordBytes e.offset

theorem length_entryBytes (entries : List SidBaseEntry) :
    (entryBytes entries).length = 16 * entries.length := by
  induction entries with
  | nil => rfl
  | cons e entries ih =>
    have hcons : entryBytes (e :: entries) =
        wordBytes e.hash ++ wordBytes e.offset ++ entryBytes entries := rfl
    rw [hcons, List.length_append, List.length_append, ih, length_wordBytes, length_wordBytes,
      List.length_cons]
    omega

/-- The file of names that are in order. -/
def fileOf (sorted : SidTable) : Text :=
  wordBytes (BitVec.ofNat 64 sorted.length) ++
    entryBytes (entriesFrom (8 + BitVec.ofNat 64 (sorted.length * 16)) sorted) ++ stringPool sorted

theorem saveDconstructSidbase_eq (table : SidTable) :
    table.saveDconstructSidbase = fileOf table.sortedById := by
  simp only [saveDconstructSidbase, fileOf, length_entriesFrom]
  rfl

theorem length_fileOf (sorted : SidTable) : (fileOf sorted).length = fileSize sorted := by
  rw [fileOf, List.length_append, List.length_append, length_wordBytes, length_entryBytes,
    length_entriesFrom, length_stringPool, fileSize]

/-- Where the string of a name begins. -/
def namePlace (sorted : SidTable) (idx : ℕ) : ℕ :=
  8 + 16 * sorted.length + (stringPool (sorted.take idx)).length

theorem fileOf_entry {sorted : SidTable} {idx : ℕ}
    (hidx : idx < sorted.length) :
    entryHash (fileOf sorted) idx = .ok sorted[idx].1 ∧
      entryOffset (fileOf sorted) idx = .ok (BitVec.ofNat 64 (namePlace sorted idx)) ∧
      (fileOf sorted).drop (namePlace sorted idx) =
        sorted[idx].2 ++ 0 :: stringPool (sorted.drop (idx + 1)) := by
  have hsplit : sorted = sorted.take idx ++ sorted[idx] :: sorted.drop (idx + 1) := by
    rw [List.getElem_cons_drop, List.take_append_drop]
  have htake : (sorted.take idx).length = idx := List.length_take_of_le (by omega)
  -- The parts of the file around the entry.
  have hstart : (8 : Word) + BitVec.ofNat 64 (sorted.length * 16) =
      BitVec.ofNat 64 (8 + 16 * sorted.length) := by
    rw [Nat.mul_comm, BitVec.ofNat_add]
    rfl
  have hoffset : BitVec.ofNat 64 (8 + 16 * sorted.length) +
      BitVec.ofNat 64 (stringPool (sorted.take idx)).length =
        BitVec.ofNat 64 (namePlace sorted idx) := (BitVec.ofNat_add _ _).symm
  have hnames : ∀ offset : Word, entriesFrom offset sorted =
      entriesFrom offset (sorted.take idx) ++
        entriesFrom (offset + BitVec.ofNat 64 (stringPool (sorted.take idx)).length)
          (sorted[idx] :: sorted.drop (idx + 1)) := fun offset => by
    rw [← entriesFrom_append, ← hsplit]
  obtain ⟨before, after, hentries, hbefore⟩ : ∃ before after,
      entryBytes (entriesFrom (8 + BitVec.ofNat 64 (sorted.length * 16)) sorted) =
        before ++ (wordBytes sorted[idx].1 ++
          (wordBytes (BitVec.ofNat 64 (namePlace sorted idx)) ++ after)) ∧
      before.length = 16 * idx := by
    refine ⟨entryBytes (entriesFrom (BitVec.ofNat 64 (8 + 16 * sorted.length)) (sorted.take idx)),
      entryBytes (entriesFrom (BitVec.ofNat 64 (namePlace sorted idx) +
        BitVec.ofNat 64 (sorted[idx].2.length + 1)) (sorted.drop (idx + 1))), ?_, ?_⟩
    · rw [hstart, hnames, hoffset, entryBytes, List.flatMap_append]
      simp only [entriesFrom, List.flatMap_cons, List.append_assoc, entryBytes]
    · rw [length_entryBytes, length_entriesFrom, htake]
  have hpool : stringPool sorted = stringPool (sorted.take idx) ++
      (sorted[idx].2 ++ 0 :: stringPool (sorted.drop (idx + 1))) := by
    have happend : stringPool (sorted.take idx ++ sorted[idx] :: sorted.drop (idx + 1)) =
        stringPool (sorted.take idx) ++
          (sorted[idx].2 ++ 0 :: stringPool (sorted.drop (idx + 1))) := by
      simp only [stringPool, List.flatMap_append, List.flatMap_cons, List.append_assoc,
        List.singleton_append]
    rwa [← hsplit] at happend
  have hheader := length_wordBytes (BitVec.ofNat 64 sorted.length)
  have hfile : fileOf sorted = (wordBytes (BitVec.ofNat 64 sorted.length) ++ before) ++
      (wordBytes sorted[idx].1 ++
        (wordBytes (BitVec.ofNat 64 (namePlace sorted idx)) ++ (after ++ stringPool sorted))) := by
    rw [fileOf, hentries]
    simp only [List.append_assoc]
  refine ⟨?_, ?_, ?_⟩
  · rw [entryHash, hfile]
    refine readWord_written _ _ _ ?_
    rw [List.length_append, hheader, hbefore]
  · rw [entryOffset, hfile, ← List.append_assoc]
    refine readWord_written _ _ _ ?_
    rw [List.length_append, List.length_append, hheader, hbefore, length_wordBytes]
  · rw [fileOf, hpool, ← List.append_assoc]
    apply List.drop_left'
    rw [List.length_append, List.length_append, hheader, length_entryBytes, length_entriesFrom,
      namePlace]

/-! ## What is read from it -/

/-- The id at a place of a list. -/
def keyAt (l : SidTable) (idx : ℕ) : Word := (l.getD idx (0, [])).1

theorem keyAt_eq {l : SidTable} {idx : ℕ} (h : idx < l.length) : keyAt l idx = l[idx].1 := by
  rw [keyAt, List.getD_eq_getElem _ _ h]

theorem perm_sortedById (table : SidTable) : (sortedById table).Perm table :=
  List.mergeSort_perm table _

theorem sortedById_lt (h : IsTable table) {i j : ℕ} (hij : i < j)
    (hj : j < (sortedById table).length) :
    keyAt (sortedById table) i < keyAt (sortedById table) j := by
  have hle : (sortedById table).Pairwise fun a b => a.1 ≤ b.1 := by
    have hsorted := @List.pairwise_mergeSort _ (fun a b : Word × Text => decide (a.1 ≤ b.1))
      (fun a b c hab hbc => by
        simp only [decide_eq_true_eq] at hab hbc ⊢
        exact BitVec.le_trans hab hbc)
      (fun a b => by
        simp only [Bool.or_eq_true, decide_eq_true_eq]
        exact BitVec.le_total a.1 b.1) table
    exact hsorted.imp fun hab => of_decide_eq_true hab
  have honce : ((sortedById table).map Prod.fst).Nodup :=
    ((perm_sortedById table).map Prod.fst).nodup_iff.mpr h.once
  have hne : (sortedById table).Pairwise fun a b => a.1 ≠ b.1 := List.pairwise_map.mp honce
  rw [keyAt_eq (by omega), keyAt_eq hj]
  exact Nat.lt_of_le_of_ne (List.pairwise_iff_getElem.mp hle i j _ hj hij) fun heq =>
    List.pairwise_iff_getElem.mp hne i j _ hj hij (BitVec.eq_of_toNat_eq heq)

theorem fileSize_sortedById (table : SidTable) : fileSize (sortedById table) = fileSize table := by
  have hperm := perm_sortedById table
  rw [fileSize, fileSize, hperm.length_eq, (hperm.map _).sum_nat]

theorem namedEntries_fileOf (l : SidTable) :
    namedEntries (fileOf l) = BitVec.ofNat 64 l.length := by
  rw [namedEntries, fileOf, List.append_assoc,
    List.take_append_of_le_length (by rw [length_wordBytes]),
    List.take_of_length_le (by rw [length_wordBytes]), ofLittleEndian_wordBytes,
    BitVec.ofNat_toNat, BitVec.setWidth_eq]

theorem refused_fileOf {l : SidTable} (hfits : fileSize l < 2 ^ 64) :
    Refused (fileOf l) ↔ l = [] := by
  have hsize : 8 + 16 * l.length ≤ fileSize l := Nat.le_add_right _ _
  have hnum : (BitVec.ofNat 64 l.length).toNat = l.length := by
    rw [BitVec.toNat_ofNat, Nat.mod_eq_of_lt]
    omega
  have htable : (8 + BitVec.ofNat 64 l.length * 16).toNat = 8 + 16 * l.length := by
    have hentries : (BitVec.ofNat 64 l.length * 16).toNat = 16 * l.length := by
      rw [BitVec.toNat_mul, hnum, Nat.mul_comm]
      exact Nat.mod_eq_of_lt (by simp; omega)
    rw [BitVec.toNat_add, hentries]
    exact Nat.mod_eq_of_lt (by simp; omega)
  rw [Refused, namedEntries_fileOf, length_fileOf, htable]
  constructor
  · rintro (hsmall | hzero | hlarge)
    · omega
    · rw [← List.length_eq_zero_iff, ← hnum, hzero]
      rfl
    · omega
  · rintro rfl
    exact .inr (.inl rfl)

theorem refused_saved_nil : Refused (saveDconstructSidbase []) := by
  rw [saveDconstructSidbase_eq, sortedById, List.mergeSort_nil]
  exact (refused_fileOf (by decide)).mpr rfl

theorem exists_saved (h : IsTable table) (hsome : table ≠ []) (path : Text) :
    ∃ base, SidBase.fromBinary path (.content table.saveDconstructSidbase) = .ok (.ok base) ∧
      base.sidBytes = fileOf (sortedById table) ∧
      base.numEntries.toNat = (sortedById table).length ∧
      Entries base (keyAt (sortedById table)) fun idx =>
        BitVec.ofNat 64 (namePlace (sortedById table) idx) := by
  have hfits : fileSize (sortedById table) < 2 ^ 64 := by
    rw [fileSize_sortedById]
    exact h.fits
  have hsorted : sortedById table ≠ [] := fun hnil =>
    hsome (List.Perm.eq_nil (hnil ▸ (perm_sortedById table).symm))
  rw [saveDconstructSidbase_eq]
  generalize sortedById table = l at hfits hsorted
  have hsize : 8 + 16 * l.length ≤ fileSize l := Nat.le_add_right _ _
  have hnum : (namedEntries (fileOf l)).toNat = l.length := by
    rw [namedEntries_fileOf, BitVec.toNat_ofNat, Nat.mod_eq_of_lt]
    omega
  obtain ⟨base, key, hread, hbytes, hcount, hentries⟩ :=
    exists_entries path (mt (refused_fileOf hfits).mp hsorted)
      (by rw [hnum, length_fileOf]; exact hsize)
  have hlength : base.numEntries.toNat = l.length := by rw [hcount, hnum]
  refine ⟨base, hread, hbytes, hlength, hentries.some, fun idx hidx => ?_, fun idx hidx => ?_⟩
  · rw [hbytes, keyAt_eq (hlength ▸ hidx)]
    exact (fileOf_entry (hlength ▸ hidx)).1
  · rw [hbytes]
    exact (fileOf_entry (hlength ▸ hidx)).2.1

theorem cStringAt_saved {l : SidTable} (hfits : fileSize l < 2 ^ 64) {idx : ℕ}
    (hidx : idx < l.length) :
    cStringAt (fileOf l) (BitVec.ofNat 64 (namePlace l idx)).toNat =
      .ok (cString l[idx].2) := by
  have hplace : (BitVec.ofNat 64 (namePlace l idx)).toNat = namePlace l idx := by
    have hpool : (stringPool (l.take idx)).length ≤ (stringPool l).length := by
      conv_rhs => rw [← List.take_append_drop idx l]
      rw [stringPool, stringPool, List.flatMap_append, List.length_append]
      exact Nat.le_add_right _ _
    have hsize : fileSize l = 8 + 16 * l.length + (stringPool l).length := by
      rw [fileSize, length_stringPool]
    rw [BitVec.toNat_ofNat, Nat.mod_eq_of_lt]
    rw [namePlace]
    omega
  have hstring : cString (l[idx].2 ++ 0 :: stringPool (l.drop (idx + 1))) = cString l[idx].2 := by
    rw [cString, List.takeWhile_append, cString]
    split_ifs with hwhole
    · rw [List.takeWhile_cons_of_neg (by simp), List.append_nil]
      exact (List.IsPrefix.eq_of_length (List.takeWhile_prefix _) hwhole).symm
    · rfl
  rw [hplace, cStringAt, (fileOf_entry hidx).2.2, if_pos (by simp), hstring]

theorem cString_eq_self_iff {name : Text} : cString name = name ↔ 0 ∉ name := by
  rw [cString, List.takeWhile_eq_self_iff]
  constructor
  · exact fun h hzero => absurd (h 0 hzero) (by decide)
  · intro h b hb
    simpa using fun hzero : b = 0 => h (hzero ▸ hb)

theorem zero_not_mem_cString (name : Text) : 0 ∉ cString name := fun h =>
  absurd (List.mem_takeWhile_imp h) (by decide)

theorem lookup_sortedById (h : IsTable table) (id : Word) :
    (sortedById table).lookup id = table.lookup id :=
  lookup_congr (((perm_sortedById table).map Prod.fst).nodup_iff.mpr h.once) h.once
    (fun _ => (perm_sortedById table).mem_iff) id

theorem searchString_saved (h : IsTable table) (hsome : table ≠ [])
    (path : Text) :
    ∃ base, SidBase.fromBinary path (.content table.saveDconstructSidbase) = .ok (.ok base) ∧
      ∀ id, base.searchString id = .ok ((table.lookup id).map cString) := by
  obtain ⟨base, hread, hbytes, hnum, hentries⟩ := exists_saved h hsome path
  have hfits : fileSize (sortedById table) < 2 ^ 64 := by
    rw [fileSize_sortedById]
    exact h.fits
  refine ⟨base, hread, fun id => ?_⟩
  obtain ⟨found, hsearch, hsound, hcomplete⟩ := search_spec hentries id
  have honce : ((sortedById table).map Prod.fst).Nodup :=
    ((perm_sortedById table).map Prod.fst).nodup_iff.mpr h.once
  rw [← lookup_sortedById h, SidBase.searchString, hsearch]
  cases found with
  | none =>
    have hnone : (sortedById table).lookup id = none := by
      rw [List.lookup_eq_none_iff]
      intro e he
      obtain ⟨idx, hidx, rfl⟩ := List.getElem_of_mem he
      have hkey := hcomplete (fun i j hij hj => sortedById_lt h hij (hnum ▸ hj)) rfl idx
        (hnum.symm ▸ hidx)
      rw [keyAt_eq hidx] at hkey
      exact bne_iff_ne.mpr (Ne.symm hkey)
    rw [hnone]
    rfl
  | some o =>
    obtain ⟨idx, hidx, hkey, rfl⟩ := hsound o rfl
    rw [hnum] at hidx
    rw [keyAt_eq hidx] at hkey
    have hlookup : (sortedById table).lookup id = some (sortedById table)[idx].2 := by
      rw [lookup_eq_some_iff_mem honce, ← hkey]
      exact List.getElem_mem hidx
    have hstring := cStringAt_saved hfits hidx
    rw [← hbytes] at hstring
    simp only [bind, Except.bind, hstring, hlookup]
    rfl

theorem searchable_iff (h : IsTable table) (path : Text) :
    Searchable path table ↔ table ≠ [] ∧ ∀ e ∈ table, 0 ∉ e.2 := by
  have hlookup : ∀ e ∈ table, table.lookup e.1 = some e.2 := fun e he =>
    (lookup_eq_some_iff_mem h.once).mpr he
  constructor
  · rintro ⟨base, hread, hsearch⟩
    have hsome : table ≠ [] := by
      rintro rfl
      exact (of_fromBinary hread).1 refused_saved_nil
    refine ⟨hsome, fun e he => ?_⟩
    obtain ⟨base', hread', hsearch'⟩ := searchString_saved h hsome path
    obtain rfl : base' = base := by
      rw [hread] at hread'
      exact (Except.ok.inj (Except.ok.inj hread')).symm
    have hanswer := (hsearch' e.1).symm.trans (hsearch e.1)
    rw [hlookup e he] at hanswer
    exact cString_eq_self_iff.mp (Option.some.inj (Except.ok.inj hanswer))
  · rintro ⟨hsome, hnames⟩
    obtain ⟨base, hread, hsearch⟩ := searchString_saved h hsome path
    refine ⟨base, hread, fun id => ?_⟩
    rw [hsearch]
    cases hid : table.lookup id with
    | none => rfl
    | some name =>
      have hmem := (lookup_eq_some_iff_mem h.once).mp hid
      rw [Option.map_some, cString_eq_self_iff.mpr (hnames _ hmem)]

theorem loadDconstructSidbase_saved (h : IsTable table) (hsome : table ≠ [])
    (path : Text) (prior : SidTable) :
    loadDconstructSidbase path (.content table.saveDconstructSidbase) prior =
      .ok (true, ((((sortedById table).map fun e => (e.1, cString e.2)).filter
        fun e => e.2 ≠ []).foldl assign [])) := by
  obtain ⟨base, hread, hbytes, hnum, hentries⟩ := exists_saved h hsome path
  have hfits : fileSize (sortedById table) < 2 ^ 64 := by
    rw [fileSize_sortedById]
    exact h.fits
  have hload := loadEntries_eq hentries
    (fun idx => cString ((sortedById table).getD idx (0, [])).2) fun idx hidx => by
      rw [hnum] at hidx
      rw [hbytes, cStringAt_saved hfits hidx, List.getD_eq_getElem _ _ hidx]
  have hlist : ((List.range base.numEntries.toNat).map fun idx =>
      (keyAt (sortedById table) idx, cString ((sortedById table).getD idx (0, [])).2)) =
        (sortedById table).map fun e => (e.1, cString e.2) := by
    rw [hnum]
    apply List.ext_getElem (by simp)
    intro i hi hi'
    rw [List.length_map] at hi'
    simp [keyAt, List.getElem?_eq_getElem hi']
  rw [hlist] at hload
  simp only [loadDconstructSidbase, hread, bind, Except.bind, hload]
  rfl

theorem restoredFromBinary_iff (h : IsTable table) (path : Text) :
    RestoredFromBinary path table ↔ table ≠ [] ∧ ∀ e ∈ table, e.2 ≠ [] ∧ 0 ∉ e.2 := by
  have hperm := perm_sortedById table
  constructor
  · intro hrestored
    have hsome : table ≠ [] := by
      rintro rfl
      obtain ⟨loaded, restored, hload, hsame⟩ := hrestored [(0, [])]
      obtain ⟨message, hrefused⟩ := fromBinary_refused path refused_saved_nil
      rw [loadDconstructSidbase, hrefused] at hload
      cases hload
      exact absurd (hsame 0) (by decide)
    refine ⟨hsome, fun e he => ?_⟩
    obtain ⟨loaded, restored, hload, hsame⟩ := hrestored []
    rw [loadDconstructSidbase_saved h hsome] at hload
    cases hload
    have hmem := mem_of_lookup_eq_some
      ((hsame e.1).trans ((lookup_eq_some_iff_mem h.once).mpr he))
    obtain ⟨hmapped, hname⟩ := List.mem_filter.mp
      ((mem_of_mem_foldl_assign hmem).resolve_right List.not_mem_nil)
    obtain ⟨e', -, heq⟩ := List.mem_map.mp hmapped
    refine ⟨by simpa using hname, ?_⟩
    rw [← (Prod.mk.inj heq).2]
    exact zero_not_mem_cString e'.2
  · rintro ⟨hsome, hnames⟩ prior
    refine ⟨_, _, loadDconstructSidbase_saved h hsome path prior, fun id => ?_⟩
    have hmap : ((sortedById table).map fun e => (e.1, cString e.2)) = sortedById table := by
      conv_rhs => rw [← List.map_id (sortedById table)]
      apply List.map_congr_left
      intro e he
      rw [cString_eq_self_iff.mpr (hnames e (hperm.mem_iff.mp he)).2]
      rfl
    have hfilter : (sortedById table).filter (fun e => e.2 ≠ []) = sortedById table :=
      List.filter_eq_self.mpr fun e he => by
        simpa using (hnames e (hperm.mem_iff.mp he)).1
    rw [hmap, hfilter, lookup_foldl_assign ((hperm.map Prod.fst).nodup_iff.mpr h.once),
      lookup_sortedById h]

/-! ## The text file -/

theorem not_mem_of_mem_splitOn {c : UInt8} {s line : Text} (h : line ∈ s.splitOn c) :
    c ∉ line := by
  induction s generalizing line with
  | nil =>
    rw [List.splitOn_nil, List.mem_singleton] at h
    subst h
    exact List.not_mem_nil
  | cons b s ih =>
    rw [List.splitOn_cons_eq_if_modifyHead] at h
    obtain ⟨first, rest, hs⟩ := List.exists_cons_of_ne_nil (List.splitOn_ne_nil c s)
    rw [hs] at h ih
    by_cases hb : b = c
    · rw [if_pos (beq_iff_eq.mpr hb)] at h
      rcases List.mem_cons.mp h with rfl | h
      · exact List.not_mem_nil
      · exact ih h
    · rw [if_neg (by simpa using hb), List.modifyHead_cons] at h
      rcases List.mem_cons.mp h with rfl | h
      · rw [List.mem_cons, not_or]
        exact ⟨Ne.symm hb, ih List.mem_cons_self⟩
      · exact ih (List.mem_cons_of_mem _ h)

theorem splitOn_lines {α : Type} (line : α → Text) {l : List α}
    (h : ∀ a ∈ l, byte '\n' ∉ line a) :
    (l.flatMap fun a => line a ++ [byte '\n']).splitOn (byte '\n') = l.map line ++ [[]] := by
  induction l with
  | nil => exact List.splitOn_nil _
  | cons a l ih =>
    rw [List.flatMap_cons, List.append_assoc, List.singleton_append,
      List.splitOn_append_cons_self_of_not_mem (h a List.mem_cons_self),
      ih fun a ha => h a (List.mem_cons_of_mem _ ha)]
    rfl

/-! ### Hexadecimal numbers -/

theorem hexDigit_spec {d : ℕ} (h : d < 16) :
    hexDigitValue (hexDigit d) = d ∧ isHexDigit (hexDigit d) = true := by
  have hall : ∀ d : Fin 16, hexDigitValue (hexDigit d) = d ∧ isHexDigit (hexDigit d) = true := by
    decide
  exact hall ⟨d, h⟩

theorem foldl_hex8 (id : Word) :
    (hex8 id).foldl (fun n b => 16 * n + hexDigitValue b) 0 = id.toNat := by
  have hzeros : ∀ (k : ℕ) (s : Text),
      (List.replicate k (byte '0') ++ s).foldl (fun n b => 16 * n + hexDigitValue b) 0 =
        s.foldl (fun n b => 16 * n + hexDigitValue b) 0 := by
    intro k s
    induction k with
    | zero => rfl
    | succ k ih => exact ih
  have hdigits : ∀ l : List ℕ, (∀ d ∈ l, d < 16) →
      l.foldr (fun d n => 16 * n + hexDigitValue (hexDigit d)) 0 = Nat.ofDigits 16 l := by
    intro l
    induction l with
    | nil => exact fun _ => rfl
    | cons d l ih =>
      intro hl
      rw [List.foldr_cons, ih fun d hd => hl d (List.mem_cons_of_mem _ hd),
        (hexDigit_spec (hl d List.mem_cons_self)).1, Nat.ofDigits_cons, Nat.add_comm]
  rw [hex8, List.leftpad, hzeros, List.foldl_map, List.foldl_reverse,
    hdigits _ fun d hd => Nat.digits_lt_base (by decide) hd, Nat.ofDigits_digits]

theorem hex8_ne_nil (id : Word) : hex8 id ≠ [] := by
  intro h
  have hlength := congrArg List.length h
  rw [hex8, List.length_leftpad] at hlength
  simp at hlength

theorem isHexDigit_of_mem_hex8 {id : Word} {b : UInt8} (h : b ∈ hex8 id) :
    isHexDigit b = true := by
  rcases List.mem_append.mp h with h | h
  · rw [List.eq_of_mem_replicate h]
    decide
  · obtain ⟨d, hd, rfl⟩ := List.mem_map.mp h
    exact (hexDigit_spec (Nat.digits_lt_base (by decide) (List.mem_reverse.mp hd))).2

theorem isBlank_of_isHexDigit {b : UInt8} (h : isHexDigit b = true) : isBlank b = false := by
  by_contra hblank
  simp only [isBlank, Bool.not_eq_false, Bool.or_eq_true, decide_eq_true_eq] at hblank
  rcases hblank with ((rfl | rfl) | rfl) | rfl <;> exact absurd h (by decide)

/-! ### Lines -/

/-- A text with no blank at its ends. -/
def Trimmed (s : Text) : Prop :=
  (∀ b ∈ s.head?, isBlank b = false) ∧ ∀ b ∈ s.getLast?, isBlank b = false

theorem trimmed_trim (s : Text) : Trimmed (trim s) := by
  constructor
  · intro b hb
    obtain ⟨rest, hrest⟩ : ∃ rest, trim s = b :: rest := List.head?_eq_some_iff.mp hb
    have hbegins : trim s <+: s.dropWhile isBlank := List.rdropWhile_prefix _ _
    obtain ⟨more, hmore⟩ := hbegins
    rw [hrest, List.cons_append] at hmore
    have hhead := List.head?_dropWhile_not isBlank s
    rw [← hmore] at hhead
    simpa using hhead
  · intro b hb
    have hne : trim s ≠ [] := fun hnil => by rw [hnil] at hb; cases hb
    have hlast := List.rdropWhile_last_not isBlank _ hne
    have hb' := List.getLast?_eq_some_getLast hne
    rw [Option.mem_def.mp hb] at hb'
    obtain rfl := Option.some.inj hb'
    simpa [trim] using hlast

theorem trim_of_trimmed {s : Text} (h : Trimmed s) : trim s = s := by
  cases s with
  | nil => rfl
  | cons b s =>
    have hhead : ¬ isBlank b = true := by simp [h.1 b rfl]
    rw [trim, List.dropWhile_cons_of_neg hhead, List.rdropWhile_eq_self_iff]
    intro hl
    simp [h.2 _ (List.getLast?_eq_some_getLast hl)]

theorem trim_eq_self_iff {s : Text} : trim s = s ↔ Trimmed s :=
  ⟨fun h => h ▸ trimmed_trim s, trim_of_trimmed⟩

theorem mem_of_mem_trim {s : Text} {b : UInt8} (h : b ∈ trim s) : b ∈ s :=
  (List.dropWhile_sublist _).subset ((List.rdropWhile_prefix _ _).subset h)

theorem of_readLine {line : Text} (hline : byte '\n' ∉ line) {id : Word} {name : Text}
    (h : readLine line = some (id, name)) : id.toNat < 2 ^ 32 ∧ FitsOnLine name := by
  simp only [readLine] at h
  split_ifs at h with hempty hspace hhex hvalid hname
  obtain ⟨rfl, rfl⟩ := Prod.mk.inj (Option.some.inj h)
  refine ⟨?_, hname, fun hmem => ?_, trim_of_trimmed (trimmed_trim _)⟩
  · have hle : readHex32 ((trim line).takeWhile fun b =>
        ! (b = byte ' ' || b = byte '\t')) ≤ 0xFFFFFFFF := min_le_right _ _
    rw [BitVec.toNat_ofNat]
    omega
  · exact hline (mem_of_mem_trim (List.mem_of_mem_drop (mem_of_mem_trim hmem)))

/-- The line of a name. -/
def writtenLine (e : Word × Text) : Text := hex8 e.1 ++ byte ' ' :: e.2

theorem newline_not_mem_writtenLine {e : Word × Text} (h : FitsOnLine e.2) :
    byte '\n' ∉ writtenLine e := by
  have hdigits : byte '\n' ∉ hex8 e.1 := fun hmem => by
    have hnewline : isHexDigit (byte '\n') = true := isHexDigit_of_mem_hex8 hmem
    exact absurd hnewline (by decide)
  rw [writtenLine, List.mem_append, List.mem_cons, not_or, not_or]
  exact ⟨hdigits, by decide, h.oneLine⟩

theorem readLine_written {id : Word} (hid : id.toNat < 2 ^ 32) {name : Text}
    (hname : FitsOnLine name) : readLine (hex8 id ++ byte ' ' :: name) = some (id, name) := by
  have hhead : Trimmed (hex8 id ++ byte ' ' :: name) := by
    constructor
    · intro b hb
      rw [List.head?_append_of_ne_nil _ (hex8_ne_nil id)] at hb
      exact isBlank_of_isHexDigit (isHexDigit_of_mem_hex8 (List.mem_of_mem_head? hb))
    · intro b hb
      apply (trim_eq_self_iff.mp hname.trimmed).2
      rwa [List.getLast?_append_cons, List.getLast?_cons_of_ne_nil hname.nonempty] at hb
  have hline : hex8 id ++ byte ' ' :: name ≠ [] := by simp
  have hhex : (hex8 id ++ byte ' ' :: name).takeWhile
      (fun b => ! (b = byte ' ' || b = byte '\t')) = hex8 id := by
    rw [List.takeWhile_append_of_pos, List.takeWhile_cons_of_neg (by decide), List.append_nil]
    intro b hb
    have hblank := isBlank_of_isHexDigit (isHexDigit_of_mem_hex8 hb)
    simp only [isBlank, Bool.or_eq_false_iff] at hblank
    simp [hblank.1.1]
  have hlength : (hex8 id).length ≠ (hex8 id ++ byte ' ' :: name).length := by simp
  have hrest : (hex8 id ++ byte ' ' :: name).drop ((hex8 id).length + 1) = name := by
    rw [← List.drop_drop, List.drop_left, List.drop_one, List.tail_cons]
  have hvalid : (hex8 id).all isHexDigit = true :=
    List.all_eq_true.mpr fun b hb => isHexDigit_of_mem_hex8 hb
  have hvalue : BitVec.ofNat 64 (readHex32 (hex8 id)) = id := by
    rw [readHex32, foldl_hex8, min_eq_left (by omega), BitVec.ofNat_toNat, BitVec.setWidth_eq]
  simp only [readLine, trim_of_trimmed hhead, if_neg hline, hhex, if_neg hlength, hrest,
    hname.trimmed, if_neg (hex8_ne_nil id), hvalid, if_neg hname.nonempty, hvalue]
  rfl

theorem restoredFromText_iff (h : IsTable table) :
    RestoredFromText table ↔ ∀ e ∈ table, e.1.toNat < 2 ^ 32 ∧ FitsOnLine e.2 := by
  constructor
  · intro hrestored e he
    have hmem := mem_of_lookup_eq_some
      ((hrestored [] e.1).trans ((lookup_eq_some_iff_mem h.once).mpr he))
    obtain ⟨line, hline, hread⟩ := List.mem_filterMap.mp
      ((mem_of_mem_foldl_assign hmem).resolve_right List.not_mem_nil)
    exact of_readLine (not_mem_of_mem_splitOn hline) hread
  · intro hfits prior id
    have hsplit : (saveTable table).splitOn (byte '\n') = table.map writtenLine ++ [[]] := by
      rw [saveTable]
      exact splitOn_lines writtenLine fun e he => newline_not_mem_writtenLine (hfits e he).2
    have hread : (table.map writtenLine ++ [[]]).filterMap readLine = table := by
      have hall : table.filterMap (readLine ∘ writtenLine) = table.filterMap some := by
        refine List.filterMap_congr fun e he => ?_
        rw [Function.comp_apply, writtenLine, readLine_written (hfits e he).1 (hfits e he).2]
      have hblank : [[]].filterMap readLine = [] := by decide
      rw [List.filterMap_append, List.filterMap_map, hall, List.filterMap_some, hblank,
        List.append_nil]
    have hload : (loadTable (.content table.saveTable) prior).2 = table.foldl assign [] := by
      rw [loadTable, hsplit, hread]
    rw [hload]
    exact lookup_foldl_assign h.once id

/-- Saving a table of string ids. The binary file answers the search as the table does if and only
if there are names and no name has a zero byte, it brings the table back if and only if, besides, no
name is empty; the text file brings the table back if and only if the ids have 32 bits and the names
fit on a line. SRCLINE: StringIdManager.cpp:99-286, SIDBase.cpp:9-63 -/
theorem saved_sidTable_iff (path : Text) (table : SidTable) (h : IsTable table) :
    (Searchable path table ↔ table ≠ [] ∧ ∀ e ∈ table, 0 ∉ e.2) ∧
    (RestoredFromBinary path table ↔ table ≠ [] ∧ ∀ e ∈ table, e.2 ≠ [] ∧ 0 ∉ e.2) ∧
    (RestoredFromText table ↔ ∀ e ∈ table, e.1.toNat < 2 ^ 32 ∧ FitsOnLine e.2) :=
  ⟨searchable_iff h path, restoredFromBinary_iff h path, restoredFromText_iff h⟩

theorem saved_sidTable_iff_pair :
    let table : SidTable := [(9, [115, 107, 121]), (5, [98, 108, 117, 101, 32, 115])]
    (Searchable [] table ↔ table ≠ [] ∧ ∀ e ∈ table, 0 ∉ e.2) ∧
    (RestoredFromBinary [] table ↔ table ≠ [] ∧ ∀ e ∈ table, e.2 ≠ [] ∧ 0 ∉ e.2) ∧
    (RestoredFromText table ↔ ∀ e ∈ table, e.1.toNat < 2 ^ 32 ∧ FitsOnLine e.2) :=
  saved_sidTable_iff [] [(9, [115, 107, 121]), (5, [98, 108, 117, 101, 32, 115])]
    ⟨by decide, by simp [fileSize]⟩

/-- The name `a` with its id of 64 bits, of which the text file brings 32 back. -/
theorem not_saved_sidTable :
    (loadTable (.content (SidTable.saveTable [(0xAF63DC4C8601EC8C, [97])])) []).2 =
      [(0xFFFFFFFF, [97])] ∧
    ¬ ∀ path table, IsTable table →
      Searchable path table ∧ RestoredFromBinary path table ∧ RestoredFromText table := by
  refine ⟨by with_unfolding_all decide, ?_⟩
  intro h
  have htable : IsTable [(0xAF63DC4C8601EC8C, [97])] := ⟨by decide, by simp [fileSize]⟩
  have hrestored := (h [] _ htable).2.2
  have hsmall := ((restoredFromText_iff htable).mp hrestored _ List.mem_cons_self).1
  exact absurd hsmall (by decide)

end Soot.Analysis
