import Soot.Model.SidBase

/-!
# Reading a binary table of string ids

The binary search comes to an end on every table with entries, whatever they hold: the interval
halves at each turn. On entries in the order of their ids it finds an id if and only if there is an
entry of it. The loader of a file stays inside the buffer if and only if it refuses the file, or
the entries and the strings they name lie in it.
-/

set_option autoImplicit false

namespace Soot.Analysis

open Soot.Computation Soot.Program Soot.Model
open DataSegment (cString)
open Script (littleEndian ofLittleEndian)

variable {key offset : ℕ → Word}

/-! ## Words in the buffer -/

theorem ofLittleEndian_lt (bytes : Text) : ofLittleEndian bytes < 256 ^ bytes.length := by
  induction bytes with
  | nil => exact Nat.one_pos
  | cons b bytes ih =>
    have hb := b.toNat_lt
    rw [ofLittleEndian, List.length_cons, Nat.pow_succ]
    omega

theorem readWord_eq {bytes : Text} {place : ℕ} (h : place + 8 ≤ bytes.length) :
    readWord bytes place =
      .ok (BitVec.ofNat 64 (ofLittleEndian ((bytes.drop place).take 8))) := if_pos h

theorem readWord_outside {bytes : Text} {place : ℕ} (h : bytes.length < place + 8) :
    readWord bytes place = .error .outside := if_neg (Nat.not_le.mpr h)

theorem inside_of_readWord {bytes : Text} {place : ℕ} {w : Word}
    (h : readWord bytes place = .ok w) : place + 8 ≤ bytes.length := by
  by_contra hout
  rw [readWord_outside (Nat.lt_of_not_le hout)] at h
  cases h

theorem entryOffset_eq {bytes : Text} {idx : ℕ} (h : 8 + 16 * (idx + 1) ≤ bytes.length) :
    entryOffset bytes idx = .ok (BitVec.ofNat 64 (namedOffset bytes idx)) := by
  have hplace : 8 + 16 * idx + 8 = 16 + 16 * idx := by omega
  rw [entryOffset, readWord_eq (by omega), hplace, namedOffset]

theorem toNat_namedOffset (bytes : Text) (idx : ℕ) :
    (BitVec.ofNat 64 (namedOffset bytes idx)).toNat = namedOffset bytes idx := by
  have hlt := ofLittleEndian_lt ((bytes.drop (16 + 16 * idx)).take 8)
  have hlength : ((bytes.drop (16 + 16 * idx)).take 8).length ≤ 8 := List.length_take_le 8 _
  have hpow : 256 ^ ((bytes.drop (16 + 16 * idx)).take 8).length ≤ 256 ^ 8 :=
    Nat.pow_le_pow_right (by decide) hlength
  rw [BitVec.toNat_ofNat, Nat.mod_eq_of_lt]
  exact Nat.lt_of_lt_of_le hlt hpow

/-! ## The search -/

theorem toNat_next {w : Word} (h : w.toNat + 1 < 2 ^ 64) : (w + 1).toNat = w.toNat + 1 := by
  rw [BitVec.toNat_add]
  exact Nat.mod_eq_of_lt h

theorem toNat_prev {w : Word} (h : w ≠ 0) : (w - 1).toNat = w.toNat - 1 := by
  have hpos : w.toNat ≠ 0 := fun hzero => h (BitVec.eq_of_toNat_eq hzero)
  rw [BitVec.toNat_sub_of_le (by show 1 ≤ w.toNat; omega)]
  rfl

section Search

variable {base : SidBase} {hash : Word}

/-- The ids and offsets of the entries, all of which are inside the buffer. -/
structure Entries (base : SidBase) (key offset : ℕ → Word) : Prop where
  some : 0 < base.numEntries.toNat
  hash : ∀ idx < base.numEntries.toNat, entryHash base.sidBytes idx = .ok (key idx)
  offset : ∀ idx < base.numEntries.toNat, entryOffset base.sidBytes idx = .ok (offset idx)

theorem toNat_mid {low high : Word} (h : low ≤ high) :
    (low + (high - low) / 2).toNat = low.toNat + (high.toNat - low.toNat) / 2 := by
  have hle : low.toNat ≤ high.toNat := h
  have hhigh := high.isLt
  rw [BitVec.toNat_add, BitVec.toNat_udiv, BitVec.toNat_sub_of_le h]
  exact Nat.mod_eq_of_lt (by simp; omega)

theorem searchLoop_succ (hentries : Entries base key offset)
    {low high : Word} (h : low ≤ high) (hhigh : high.toNat < base.numEntries.toNat)
    (turns : ℕ) :
    base.searchLoop hash (turns + 1) low high =
      let mid := low + (high - low) / 2
      if key mid.toNat = hash then .ok (some (offset mid.toNat))
      else if key mid.toNat < hash then base.searchLoop hash turns (mid + 1) high
      else if mid = 0 then .ok none
      else base.searchLoop hash turns low (mid - 1) := by
  have hmid : (low + (high - low) / 2).toNat < base.numEntries.toNat := by
    have hle : low.toNat ≤ high.toNat := h
    rw [toNat_mid h]
    omega
  rw [SidBase.searchLoop, if_pos h]
  simp only [hentries.hash _ hmid, hentries.offset _ hmid]
  rfl

/-- What the search of an interval gives. `turns` bounds the halvings; an id that is
there lies in the interval. The induction is on the turns. -/
theorem searchLoop_spec (hash : Word)
    (hentries : Entries base key offset) (turns : ℕ) (low high : Word)
    (hhigh : high.toNat < base.numEntries.toNat)
    (hturns : high.toNat + 1 - low.toNat < 2 ^ turns) :
    ∃ found, base.searchLoop hash (turns + 1) low high = .ok found ∧
      (∀ o, found = some o → ∃ idx < base.numEntries.toNat, key idx = hash ∧ offset idx = o) ∧
      ((∀ i j, i < j → j < base.numEntries.toNat → key i < key j) →
        (∀ idx < base.numEntries.toNat, key idx = hash → low.toNat ≤ idx ∧ idx ≤ high.toNat) →
        found = none → ∀ idx < base.numEntries.toNat, key idx ≠ hash) := by
  induction turns generalizing low high with
  | zero =>
    have hgt : ¬ low ≤ high := fun h => by
      have hle : low.toNat ≤ high.toNat := h
      omega
    refine ⟨none, by rw [SidBase.searchLoop, if_neg hgt]; rfl, (fun o h => nomatch h), ?_⟩
    intro _ hwithin _ idx hidx hkey
    have := hwithin idx hidx hkey
    exact hgt (by show low.toNat ≤ high.toNat; omega)
  | succ turns ih =>
    by_cases h : low ≤ high
    · have hle : low.toNat ≤ high.toNat := h
      have hmid := toNat_mid h
      rw [searchLoop_succ hentries h hhigh]
      generalize low + (high - low) / 2 = mid at hmid
      have hlt := high.isLt
      have hin : mid.toNat < base.numEntries.toNat := by omega
      have hpow : 2 ^ (turns + 1) = 2 * 2 ^ turns := Nat.pow_succ'
      dsimp only
      by_cases hfound : key mid.toNat = hash
      · rw [if_pos hfound]
        exact ⟨_, rfl, fun o ho => ⟨mid.toNat, hin, hfound, Option.some.inj ho⟩,
          fun _ _ hnone => nomatch hnone⟩
      rw [if_neg hfound]
      by_cases hbelow : key mid.toNat < hash
      · -- The ids up to the middle are smaller.
        have hnext : (mid + 1).toNat = mid.toNat + 1 := toNat_next (by omega)
        obtain ⟨found, hrun, hsound, hcomplete⟩ :=
          ih (mid + 1) high hhigh (by rw [hnext]; omega)
        rw [if_pos hbelow]
        refine ⟨found, hrun, hsound, fun hsorted hwithin => hcomplete hsorted ?_⟩
        intro idx hidx hkey
        refine ⟨?_, (hwithin idx hidx hkey).2⟩
        rw [hnext]
        by_contra hlow
        rcases Nat.lt_or_eq_of_le (Nat.le_of_lt_succ (Nat.lt_of_not_le hlow)) with hlt | rfl
        · have hless := hsorted idx mid.toNat hlt hin
          rw [hkey] at hless
          exact absurd (BitVec.lt_trans hless hbelow) (BitVec.lt_irrefl _)
        · exact hfound hkey
      rw [if_neg hbelow]
      by_cases hzero : mid = 0
      · -- The first entry is larger, so all are.
        rw [if_pos hzero]
        refine ⟨none, rfl, (fun o ho => nomatch ho), fun hsorted hwithin _ idx hidx hkey => ?_⟩
        subst hzero
        rcases Nat.eq_zero_or_pos idx with rfl | hpos
        · exact hfound hkey
        · have hless := hsorted _ idx hpos hidx
          rw [hkey] at hless
          exact hbelow hless
      · -- The ids from the middle on are larger.
        have hprev : (mid - 1).toNat = mid.toNat - 1 := toNat_prev hzero
        have hpos : mid.toNat ≠ 0 := fun h => hzero (BitVec.eq_of_toNat_eq h)
        obtain ⟨found, hrun, hsound, hcomplete⟩ :=
          ih low (mid - 1) (by rw [hprev]; omega) (by rw [hprev]; omega)
        rw [if_neg hzero]
        refine ⟨found, hrun, hsound, fun hsorted hwithin => hcomplete hsorted ?_⟩
        intro idx hidx hkey
        refine ⟨(hwithin idx hidx hkey).1, ?_⟩
        rw [hprev]
        by_contra hhigh'
        rcases Nat.lt_or_eq_of_le (show mid.toNat ≤ idx by omega) with hlt | hmididx
        · have hless := hsorted mid.toNat idx hlt hidx
          rw [hkey] at hless
          exact hbelow hless
        · exact hfound (hmididx ▸ hkey)
    · have hempty : ¬ low.toNat ≤ high.toNat := h
      refine ⟨none, by rw [SidBase.searchLoop, if_neg h]; rfl, (fun o ho => nomatch ho), ?_⟩
      intro _ hwithin _ idx hidx hkey
      have := hwithin idx hidx hkey
      omega

/-- The search stays inside the buffer and comes to an end, and what it finds is the
entry of the id; in entries sorted by id, it finds the entry if there is one. -/
theorem search_spec (hentries : Entries base key offset) (hash : Word) :
    ∃ found, base.search hash = .ok found ∧
      (∀ o, found = some o → ∃ idx < base.numEntries.toNat, key idx = hash ∧ offset idx = o) ∧
      ((∀ i j, i < j → j < base.numEntries.toNat → key i < key j) →
        found = none → ∀ idx < base.numEntries.toNat, key idx ≠ hash) := by
  have hsome := hentries.some
  have hnum := base.numEntries.isLt
  have hlast : (base.numEntries - 1).toNat = base.numEntries.toNat - 1 :=
    toNat_prev fun hzero => absurd hsome (by rw [hzero]; decide)
  obtain ⟨found, hrun, hsound, hcomplete⟩ :=
    searchLoop_spec hash hentries 64 0 (base.numEntries - 1)
      (by omega) (by rw [hlast]; simp; omega)
  refine ⟨found, hrun, hsound, fun hsorted hnone => hcomplete hsorted ?_ hnone⟩
  intro idx hidx _
  rw [hlast]
  exact ⟨Nat.zero_le idx, by omega⟩

end Search

/-! ## The loader -/

section Loader

variable {path bytes : Text} {base : SidBase}

theorem readWord_zero (h : 8 ≤ bytes.length) : readWord bytes 0 = .ok (namedEntries bytes) :=
  readWord_eq (by omega)

theorem fromBinary_refused (path : Text) (h : Refused bytes) :
    ∃ message, SidBase.fromBinary path (.content bytes) = .ok (.error message) := by
  by_cases hsize : bytes.length < 8
  · exact ⟨_, if_pos hsize⟩
  have hread := readWord_zero (Nat.le_of_not_lt hsize)
  by_cases hzero : namedEntries bytes = 0
  · refine ⟨text "sidbase has zero entries: " ++ path, ?_⟩
    simp only [SidBase.fromBinary, if_neg hsize, hread]
    exact if_pos hzero
  · have hlarge := (h.resolve_left hsize).resolve_left hzero
    refine ⟨text "sidbase table exceeds file size: " ++ path, ?_⟩
    simp only [SidBase.fromBinary, if_neg hsize, hread]
    exact (if_neg hzero).trans (if_pos hlarge)

theorem fromBinary_read (path : Text) (h : ¬ Refused bytes) :
    SidBase.fromBinary path (.content bytes) = (do
      let lowest ← entryHash bytes 0
      let highest ← entryHash bytes (namedEntries bytes - 1).toNat
      return .ok ⟨namedEntries bytes, bytes, lowest, highest⟩) := by
  obtain ⟨hsize, hzero, hlarge⟩ : ¬ bytes.length < 8 ∧ namedEntries bytes ≠ 0 ∧
      ¬ bytes.length < (8 + namedEntries bytes * 16).toNat := by
    simpa [Refused] using h
  have hread := readWord_zero (Nat.le_of_not_lt hsize)
  simp only [SidBase.fromBinary, if_neg hsize, hread]
  exact (if_neg hzero).trans (if_neg hlarge)

theorem of_fromBinary (h : SidBase.fromBinary path (.content bytes) = .ok (.ok base)) :
    ¬ Refused bytes ∧ base.sidBytes = bytes ∧ base.numEntries = namedEntries bytes := by
  have hrefused : ¬ Refused bytes := fun hrefused => by
    obtain ⟨message, herror⟩ := fromBinary_refused path hrefused
    rw [h] at herror
    cases herror
  rw [fromBinary_read _ hrefused] at h
  cases hlow : entryHash bytes 0 with
  | error e => rw [hlow] at h; cases h
  | ok lowest =>
    cases hhigh : entryHash bytes (namedEntries bytes - 1).toNat with
    | error e => rw [hlow, hhigh] at h; cases h
    | ok highest =>
      rw [hlow, hhigh] at h
      cases h
      exact ⟨hrefused, rfl, rfl⟩

theorem namedEntries_pos (h : ¬ Refused bytes) :
    0 < (namedEntries bytes).toNat ∧
      (namedEntries bytes - 1).toNat = (namedEntries bytes).toNat - 1 := by
  have hzero : namedEntries bytes ≠ 0 := fun hzero => h (.inr (.inl hzero))
  exact ⟨Nat.pos_of_ne_zero fun h => hzero (BitVec.eq_of_toNat_eq h), toNat_prev hzero⟩

theorem exists_entries (path : Text) (hrefused : ¬ Refused bytes)
    (hinside : 8 + 16 * (namedEntries bytes).toNat ≤ bytes.length) :
    ∃ base key, SidBase.fromBinary path (.content bytes) = .ok (.ok base) ∧
      base.sidBytes = bytes ∧ base.numEntries = namedEntries bytes ∧
      Entries base key fun idx => BitVec.ofNat 64 (namedOffset bytes idx) := by
  obtain ⟨hpos, hlast⟩ := namedEntries_pos hrefused
  have hhash : ∀ idx < (namedEntries bytes).toNat, entryHash bytes idx =
      .ok (BitVec.ofNat 64 (ofLittleEndian ((bytes.drop (8 + 16 * idx)).take 8))) :=
    fun idx hidx => readWord_eq (by omega)
  have hread := fromBinary_read path hrefused
  rw [hhash 0 hpos, hhash _ (by omega : (namedEntries bytes - 1).toNat < _)] at hread
  have hoffset : ∀ idx < (namedEntries bytes).toNat,
      entryOffset bytes idx = .ok (BitVec.ofNat 64 (namedOffset bytes idx)) :=
    fun idx hidx => entryOffset_eq (by omega)
  exact ⟨_, _, hread, rfl, rfl, hpos, hhash, hoffset⟩

theorem loadEntry_eq (hentries : Entries base key offset) {idx : ℕ}
    (hidx : idx < base.numEntries.toNat) {name : Text}
    (hname : cStringAt base.sidBytes (offset idx).toNat = .ok name) (table : SidTable) :
    SidTable.loadEntry base table idx =
      .ok (if name = [] then table else assign table (key idx, name)) := by
  simp only [SidTable.loadEntry, bind, Except.bind, hentries.offset idx hidx,
    hentries.hash idx hidx, hname]
  split_ifs <;> rfl

theorem loadEntries_eq (hentries : Entries base key offset)
    (name : ℕ → Text)
    (hnames : ∀ idx < base.numEntries.toNat,
      cStringAt base.sidBytes (offset idx).toNat = .ok (name idx)) :
    SidTable.loadEntries base =
      .ok ((((List.range base.numEntries.toNat).map fun idx => (key idx, name idx)).filter
        fun e => e.2 ≠ []).foldl assign []) := by
  have hloop : ∀ (l : List ℕ), (∀ idx ∈ l, idx < base.numEntries.toNat) → ∀ table : SidTable,
      l.foldlM (SidTable.loadEntry base) table =
        .ok (((l.map fun idx => (key idx, name idx)).filter fun e => e.2 ≠ []).foldl
          assign table) := by
    intro l
    induction l with
    | nil => exact fun _ _ => rfl
    | cons idx l ih =>
      intro hl table
      have hidx := hl idx List.mem_cons_self
      have hrest := ih fun i hi => hl i (List.mem_cons_of_mem idx hi)
      rw [List.foldlM_cons, loadEntry_eq hentries hidx (hnames idx hidx)]
      by_cases hname : name idx = []
      · rw [if_pos hname]
        refine (hrest table).trans ?_
        rw [List.map_cons, List.filter_cons_of_neg (by simpa using hname)]
      · rw [if_neg hname]
        refine (hrest _).trans ?_
        rw [List.map_cons, List.filter_cons_of_pos (by simpa using hname), List.foldl_cons]
  exact hloop _ (fun idx hidx => List.mem_range.mp hidx) []

theorem ok_of_foldlM {α β : Type} {f : β → α → Except BufferFault β} {l : List α} {b b' : β}
    (h : l.foldlM f b = .ok b') : ∀ a ∈ l, ∃ c c', f c a = .ok c' := by
  induction l generalizing b with
  | nil => exact fun a ha => nomatch ha
  | cons a l ih =>
    rw [List.foldlM_cons] at h
    cases hstep : f b a with
    | error e => rw [hstep] at h; cases h
    | ok c =>
      rw [hstep] at h
      intro a' ha'
      rcases List.mem_cons.mp ha' with rfl | ha'
      · exact ⟨b, c, hstep⟩
      · exact ih h a' ha'

theorem string_of_loadEntries {table : SidTable} (h : SidTable.loadEntries base = .ok table)
    {idx : ℕ} (hidx : idx < base.numEntries.toNat)
    (hinside : 8 + 16 * (idx + 1) ≤ base.sidBytes.length) :
    0 ∈ base.sidBytes.drop (namedOffset base.sidBytes idx) := by
  obtain ⟨c, c', hstep⟩ := ok_of_foldlM h idx (List.mem_range.mpr hidx)
  by_contra hnone
  have houtside : cStringAt base.sidBytes
      (BitVec.ofNat 64 (namedOffset base.sidBytes idx)).toNat = .error .outside := by
    rw [toNat_namedOffset]
    exact if_neg hnone
  simp only [SidTable.loadEntry, entryOffset_eq hinside, bind, Except.bind, houtside] at hstep
  cases hstep

/-- The binary loader. It refuses a file or stays inside the buffer if and only if the checks of the
header refuse it, or all the entries it names are in it and a string begins and ends in it where
each of them says. SRCLINE: SIDBase.cpp:9-63, StringIdManager.cpp:259-286 -/
theorem staysInFile_iff (path bytes : Text) :
    StaysInFile path bytes ↔ Refused bytes ∨ LaidOutInside bytes := by
  constructor
  · rintro (⟨message, herror⟩ | ⟨base, hread, hinside⟩)
    · by_contra hnot
      obtain ⟨hrefused, -⟩ := not_or.mp hnot
      rw [fromBinary_read _ hrefused] at herror
      cases hlow : entryHash bytes 0 with
      | error e => rw [hlow] at herror; cases herror
      | ok lowest =>
        cases hhigh : entryHash bytes (namedEntries bytes - 1).toNat with
        | error e => rw [hlow, hhigh] at herror; cases herror
        | ok highest => rw [hlow, hhigh] at herror; cases herror
    · right
      obtain ⟨hrefused, hbytes, hnum⟩ := of_fromBinary hread
      have hpos := (namedEntries_pos hrefused).1
      obtain ⟨entry, -, hoffset⟩ := hinside.entries (base.numEntries.toNat - 1) (by
        rw [hnum]
        omega)
      have hlast := inside_of_readWord hoffset
      rw [hnum, hbytes] at hlast
      obtain ⟨table, hload⟩ := hinside.strings
      refine ⟨by omega, fun idx hidx => ?_⟩
      rw [← hbytes]
      exact string_of_loadEntries hload (by rwa [hnum]) (by rw [hbytes]; omega)
  · rintro (hrefused | ⟨hentries, hstrings⟩)
    · exact .inl (fromBinary_refused _ hrefused)
    by_cases hrefused : Refused bytes
    · exact .inl (fromBinary_refused _ hrefused)
    right
    obtain ⟨base, key, hread, hbytes, hnum, hinside⟩ :=
      exists_entries path hrefused hentries
    refine ⟨base, hread, ?_, ?_, ?_⟩
    · exact fun idx hidx =>
        ⟨⟨key idx, BitVec.ofNat 64 (namedOffset bytes idx)⟩, hinside.hash idx hidx,
          hinside.offset idx hidx⟩
    · intro hash
      obtain ⟨found, hfound, -⟩ := search_spec hinside hash
      exact ⟨found, hfound⟩
    · have hnames : ∀ idx < base.numEntries.toNat,
          cStringAt base.sidBytes (BitVec.ofNat 64 (namedOffset bytes idx)).toNat =
            .ok (cString (bytes.drop (namedOffset bytes idx))) := by
        intro idx hidx
        rw [toNat_namedOffset, hbytes]
        exact if_pos (hstrings idx (by rwa [← hnum]))
      exact ⟨_, loadEntries_eq hinside _ hnames⟩

end Loader

/-- One entry, whose string would begin at byte 1000 of a file of 24 bytes. -/
theorem not_staysInFile_of_offset : ¬ ∀ path bytes, StaysInFile path bytes := by
  intro h
  rcases h [] ([1, 0, 0, 0, 0, 0, 0, 0] ++ [5, 0, 0, 0, 0, 0, 0, 0] ++ [232, 3, 0, 0, 0, 0, 0, 0])
    with ⟨message, herror⟩ | ⟨base, hread, hinside⟩
  · cases herror
  · cases hread
    obtain ⟨table, hload⟩ := hinside.strings
    cases hload

end Soot.Analysis
