import Soot.Model.Script.Archive

/-!
# Which memory buffers their archives give back

Each part of a buffer is transferred by its pair of functions, except that the offsets of
relocations and labels come back as numbers of 32 bits and labels without their objects. A buffer
therefore comes back if it is the buffer that its parts are transferred to.
-/

set_option autoImplicit false

namespace Soot.Analysis.Script

open Soot.Computation Soot.Computation.Archived Soot.Program.Script Soot.Model.Script

/-! ## Bytes -/

theorem transfers_putBytes (v : List UInt8) : Transfers (putBytes v) (getBytes v.length) v := by
  refine ⟨v, ?_, ?_⟩
  · intro before room after hroom
    rw [putBytes]
    by_cases hv : v = []
    · rw [if_pos hv]
      subst hv
      rw [List.length_eq_zero_iff.mp hroom]
      rfl
    · have hdrop : (before ++ (room ++ after)).drop (before.length + v.length) = after := by
        rw [← hroom, List.drop_append, List.drop_append, List.drop_eq_nil_of_le (by omega)]
        simp
      rw [if_neg hv, if_neg (by simp only [List.length_append]; omega)]
      simp only [List.append_assoc, List.take_left, hdrop]
  · intro before after
    rw [getBytes]
    by_cases hv : v.length = 0
    · rw [if_pos hv, List.length_eq_zero_iff.mp hv]
      rfl
    · rw [if_neg hv, if_neg (by simp only [List.length_append]; omega)]
      simp only [List.append_assoc, List.drop_left, List.take_left]

theorem length_littleEndian (size v : ℕ) : (littleEndian size v).length = size := by
  induction size generalizing v with
  | zero => rfl
  | succ size ih => rw [littleEndian, List.length_cons, ih]

theorem ofLittleEndian_littleEndian (size v : ℕ) :
    ofLittleEndian (littleEndian size v) = v % 256 ^ size := by
  induction size generalizing v with
  | zero => rw [littleEndian, ofLittleEndian, Nat.pow_zero, Nat.mod_one]
  | succ size ih =>
    have hbyte : (UInt8.ofNat v).toNat = v % 256 := by simp
    rw [littleEndian, ofLittleEndian, hbyte, ih, Nat.pow_succ, Nat.mul_comm (256 ^ size),
      Nat.mod_mul]

theorem transfers_putWord (size v : ℕ) :
    Transfers (putWord size v) (getWord size) (v % 256 ^ size) := by
  have hbytes := transfers_putBytes (littleEndian size v)
  rw [length_littleEndian] at hbytes
  have hmap := hbytes.map ofLittleEndian
  rwa [ofLittleEndian_littleEndian] at hmap

theorem transfers_putByte (b : UInt8) : Transfers (putByte b) getByte b :=
  (transfers_putBytes [b]).map fun l => l.headD 0

/-! ## Indices -/

theorem firstByte_facts : ∀ sign ∈ [(0 : UInt8), 0x40], ∀ n : Fin 64,
    ((UInt8.ofNat n ||| sign) &&& 0x80 = 0 ∧ (UInt8.ofNat n ||| sign ||| 0x80) &&& 0x80 ≠ 0) ∧
      (UInt8.ofNat n ||| sign) &&& 0x40 = sign ∧ (UInt8.ofNat n ||| sign ||| 0x80) &&& 0x40 = sign ∧
      ((UInt8.ofNat n ||| sign) &&& 0x3f).toNat = n ∧
      ((UInt8.ofNat n ||| sign ||| 0x80) &&& 0x3f).toNat = n := by
  decide +kernel

theorem laterByte_facts : ∀ n : Fin 128,
    (UInt8.ofNat n &&& 0x80 = 0 ∧ (UInt8.ofNat n ||| 0x80) &&& 0x80 ≠ 0) ∧
      (UInt8.ofNat n &&& 0x7f).toNat = n ∧ ((UInt8.ofNat n ||| 0x80) &&& 0x7f).toNat = n := by
  decide +kernel

theorem join_bits (idx s : ℕ) :
    idx % 2 ^ s ||| ((idx >>> s &&& 0x7f) <<< s) = idx % 2 ^ (s + 7) := by
  have hand : idx >>> s &&& 0x7f = idx / 2 ^ s % 128 := by
    rw [Nat.shiftRight_eq_div_pow]
    exact Nat.and_two_pow_sub_one_eq_mod _ 7
  have hlow : idx % 2 ^ s < 2 ^ s := Nat.mod_lt _ (Nat.two_pow_pos s)
  rw [hand, Nat.or_comm, ← Nat.shiftLeft_add_eq_or_of_lt hlow, Nat.shiftLeft_eq, Nat.pow_add,
    show (2 : ℕ) ^ 7 = 128 by rfl, Nat.mod_mul, Nat.add_comm, Nat.mul_comm (2 ^ s)]

theorem laterByte (idx s : ℕ) :
    let n := idx >>> s &&& 0x7f
    (UInt8.ofNat n &&& 0x80 = 0 ∧ (UInt8.ofNat n ||| 0x80) &&& 0x80 ≠ 0) ∧
      (UInt8.ofNat n &&& 0x7f).toNat = n ∧ ((UInt8.ofNat n ||| 0x80) &&& 0x7f).toNat = n := by
  have hlt : idx >>> s &&& 0x7f < 128 := Nat.lt_of_le_of_lt Nat.and_le_right (by decide)
  exact laterByte_facts ⟨_, hlt⟩

theorem transfers_putIndexRest {idx : ℕ} (hidx : idx < 2 ^ 31) :
    Transfers (putIndexRest idx) (getIndexRest (idx % 2 ^ 6)) idx := by
  obtain ⟨⟨hlast₂, hmore₂⟩, hval₂, hvalMore₂⟩ := laterByte idx 6
  obtain ⟨⟨hlast₃, hmore₃⟩, hval₃, hvalMore₃⟩ := laterByte idx 13
  obtain ⟨⟨hlast₄, hmore₄⟩, hval₄, hvalMore₄⟩ := laterByte idx 20
  rw [putIndexRest, getIndexRest]
  split_ifs with h₂ h₃ h₄
  · refine (transfers_putByte _).bind ?_
    simp only [hmore₂, if_false, hvalMore₂, join_bits]
    refine (transfers_putByte _).bind ?_
    simp only [hmore₃, if_false, hvalMore₃, join_bits]
    refine (transfers_putByte _).bind ?_
    simp only [hmore₄, if_false, hvalMore₄, join_bits]
    have hbyte : (UInt8.ofNat (idx >>> 27)).toNat = idx >>> 27 &&& 0x7f := by
      have hsmall : idx >>> 27 < 128 := by
        rw [Nat.shiftRight_eq_div_pow]
        omega
      have hand : idx >>> 27 &&& 0x7f = idx >>> 27 % 128 := Nat.and_two_pow_sub_one_eq_mod _ 7
      rw [hand, Nat.mod_eq_of_lt hsmall]
      exact Nat.mod_eq_of_lt (by omega)
    have hmap := (transfers_putByte (UInt8.ofNat (idx >>> 27))).map fun b =>
      idx % 2 ^ 27 ||| (b.toNat <<< 27)
    rw [hbyte, join_bits, Nat.mod_eq_of_lt (show idx < 2 ^ (27 + 7) by omega)] at hmap
    exact hmap
  · refine (transfers_putByte _).bind ?_
    simp only [hmore₂, if_false, hvalMore₂, join_bits]
    refine (transfers_putByte _).bind ?_
    simp only [hmore₃, if_false, hvalMore₃, join_bits]
    refine (transfers_putByte _).last ?_
    simp only [hlast₄, if_true, hval₄, join_bits]
    rw [Nat.mod_eq_of_lt (show idx < 2 ^ (20 + 7) by omega)]
  · refine (transfers_putByte _).bind ?_
    simp only [hmore₂, if_false, hvalMore₂, join_bits]
    refine (transfers_putByte _).last ?_
    simp only [hlast₃, if_true, hval₃, join_bits]
    rw [Nat.mod_eq_of_lt (show idx < 2 ^ (13 + 7) by omega)]
  · refine (transfers_putByte _).last ?_
    simp only [hlast₂, if_true, hval₂, join_bits]
    rw [Nat.mod_eq_of_lt (show idx < 2 ^ (6 + 7) by omega)]

theorem ofNat_natAbs (value : BitVec 32) :
    (if value.toInt < 0 then -BitVec.ofNat 32 value.toInt.natAbs
      else BitVec.ofNat 32 value.toInt.natAbs) = value := by
  have hmsb := BitVec.toInt_eq_toNat_cond value
  have hlt := value.isLt
  apply BitVec.eq_of_toNat_eq
  split_ifs with hneg
  · rw [BitVec.toNat_neg, BitVec.toNat_ofNat]
    split at hmsb <;> omega
  · rw [BitVec.toNat_ofNat]
    split at hmsb <;> omega

theorem natAbs_lt {value : BitVec 32} (h : value ≠ BitVec.intMin 32) :
    value.toInt.natAbs < 2 ^ 31 := by
  have hne : value.toNat ≠ 2 ^ 31 := fun heq => h (BitVec.eq_of_toNat_eq heq)
  have hmsb := BitVec.toInt_eq_toNat_cond value
  have hlt := value.isLt
  split at hmsb <;> omega

theorem transfers_magnitude {idx : ℕ} (hidx : idx < 2 ^ 31) (sign : UInt8)
    (hsign : sign ∈ [(0 : UInt8), 0x40]) :
    Transfers (if 0x3f < idx then do
        putByte (UInt8.ofNat (idx &&& 0x3f) ||| sign ||| 0x80)
        putIndexRest idx
      else putByte (UInt8.ofNat (idx &&& 0x3f) ||| sign)) getIndex
      (if sign ≠ 0 then -BitVec.ofNat 32 idx else BitVec.ofNat 32 idx) := by
  have hand : idx &&& 0x3f = idx % 2 ^ 6 := Nat.and_two_pow_sub_one_eq_mod _ 6
  have hlt : idx % 2 ^ 6 < 64 := Nat.mod_lt _ (by decide)
  obtain ⟨⟨hlast, hmore⟩, hneg, hnegMore, hval, hvalMore⟩ := firstByte_facts sign hsign ⟨_, hlt⟩
  rw [hand, getIndex]
  by_cases hlong : 0x3f < idx
  · rw [if_pos hlong]
    refine (transfers_putByte _).bind ?_
    rw [if_neg hmore, hnegMore, hvalMore]
    exact (transfers_putIndexRest hidx).last rfl
  · rw [if_neg hlong]
    refine (transfers_putByte _).last ?_
    rw [if_pos hlast, hneg, hval, pure_bind]
    simp only [Nat.mod_eq_of_lt (show idx < 2 ^ 6 by omega)]

theorem transfers_putIndex {value : BitVec 32} (h : value ≠ BitVec.intMin 32) :
    Transfers (putIndex value) getIndex value := by
  have hmagnitude := transfers_magnitude (natAbs_lt h) (if value.toInt < 0 then 0x40 else 0)
    (by split <;> decide)
  have hsign : (if value.toInt < 0 then 0x40 else 0 : UInt8) ≠ 0 ↔ value.toInt < 0 := by
    split_ifs with hneg <;> simp [hneg]
  rw [putIndex, if_neg h]
  simp only [hsign] at hmagnitude
  rw [ofNat_natAbs] at hmagnitude
  exact hmagnitude

theorem not_writes_intMin (bytes : List UInt8) : ¬ Writes (putIndex (BitVec.intMin 32)) bytes := by
  intro h
  have hwritten := h [] (List.replicate bytes.length 0) [] List.length_replicate
  rw [putIndex, if_pos rfl] at hwritten
  cases hwritten

/-- An index is coded so that it is read back, without taking a byte of what follows, if and only
if it is not the least one. SRCLINE: Archive.cpp:176-266 -/
theorem indexCoded_iff (value : BitVec 32) : IndexCoded value ↔ value ≠ BitVec.intMin 32 := by
  constructor
  · rintro ⟨⟨bytes, hwrites, -⟩, -⟩ rfl
    exact not_writes_intMin bytes hwrites
  · intro hvalue
    refine ⟨transfers_putIndex hvalue, fun other hother bytes bytes' hwrites hwrites' => ?_⟩
    have hother' : other ≠ BitVec.intMin 32 := by
      rintro rfl
      exact not_writes_intMin bytes' hwrites'
    obtain ⟨written, hwritten, hreads⟩ := transfers_putIndex hvalue
    obtain ⟨written', hwritten', hreads'⟩ := transfers_putIndex hother'
    obtain rfl := hwrites.unique hwritten
    obtain rfl := hwrites'.unique hwritten'
    exact ⟨fun hbegins => hother (hreads.prefix_free hreads' hbegins).symm,
      fun hbegins => hother (hreads'.prefix_free hreads hbegins)⟩

/-- The least integer, whose negation is no integer of 32 bits. -/
theorem not_indexCoded_intMin : ¬ ∀ value, IndexCoded value := by
  intro h
  obtain ⟨bytes, hwrites, -⟩ := (h (BitVec.intMin 32)).transfers
  exact not_writes_intMin bytes hwrites

theorem transfers_putCount {count : ℕ} (h : count < 2 ^ 31) :
    Transfers (putCount count) getCount count := by
  have hvalue : (BitVec.ofNat 32 count).toNat = count := by
    rw [BitVec.toNat_ofNat]
    omega
  have hint : (BitVec.ofNat 32 count).toInt = count := by
    rw [BitVec.toInt_eq_toNat_cond, hvalue, if_pos (by omega)]
  have hmin : BitVec.ofNat 32 count ≠ BitVec.intMin 32 := by
    intro hmin
    have hnat := congrArg BitVec.toNat hmin
    rw [hvalue] at hnat
    rw [hnat] at h
    exact absurd h (by decide)
  refine (transfers_putIndex hmin).last ?_
  rw [hint, if_neg (by omega), hvalue]

theorem transfers_putName {name : Text} (h : name.length < 2 ^ 31) :
    Transfers (putName name) getName name :=
  (transfers_putCount h).bind (transfers_putBytes name)

/-! ## Parts of a buffer -/

theorem transfers_putCrc (value : BitVec 32) :
    Transfers (putCrc (typeConfig false) value) (getCrc (typeConfig false)) value := by
  have hword := (transfers_putWord 4 value.toNat).map (BitVec.ofNat 32)
  have hvalue : BitVec.ofNat 32 (value.toNat % 256 ^ 4) = value := by
    have hlt := value.isLt
    apply BitVec.eq_of_toNat_eq
    rw [BitVec.toNat_ofNat]
    omega
  rw [hvalue] at hword
  exact hword

/-- The low half of a pointer. -/
def carriedPointer (value : BitVec 64) : BitVec 64 := BitVec.ofNat 64 (value.toNat % 256 ^ 4)

theorem transfers_putPointer (value : BitVec 64) :
    Transfers (putPointer (typeConfig false) value) (getPointer (typeConfig false))
      (carriedPointer value) :=
  (transfers_putWord 4 value.toNat).map (BitVec.ofNat 64)

theorem transfers_region (base : BitVec 32) {data : List UInt8} (h : data.length < 2 ^ 31) :
    Transfers (writeRegion base data) readRegion (base, data) := by
  have hbase : BitVec.ofNat 32 (base.toNat % 256 ^ 4) = base := by
    have hlt := base.isLt
    apply BitVec.eq_of_toNat_eq
    rw [BitVec.toNat_ofNat]
    omega
  refine (transfers_putIndex (by decide)).bind ?_
  refine (transfers_putCount h).bind ?_
  refine (transfers_putWord 4 base.toNat).bind ?_
  refine (transfers_putBytes data).last ?_
  rw [hbase]

theorem transfers_symbols {symbols : List Text} (h : symbols.length < 2 ^ 31)
    (hnames : ∀ name ∈ symbols, name.length < 2 ^ 31) :
    Transfers (writeSymbols (typeConfig false) symbols) (readSymbols (typeConfig false))
      symbols := by
  have heach := Transfers.each symbols fun name hname => transfers_putName (hnames name hname)
  rw [List.map_id'] at heach
  exact (transfers_putCrc _).bind ((transfers_putCount h).bind heach)

/-- What a relocation comes back as. -/
def carriedRelocation (r : Relocation) : Relocation :=
  { r with offset := (r.offset.setWidth 32).signExtend 64 }

theorem transfers_relocs {relocs : List Relocation} (h : relocs.length < 2 ^ 31)
    (hnames : ∀ r ∈ relocs, r.targetName.length < 2 ^ 31)
    (hoffsets : ∀ r ∈ relocs, r.offset.setWidth 32 ≠ BitVec.intMin 32) :
    Transfers (writeRelocs (typeConfig false) relocs) (readRelocs (typeConfig false))
      (relocs.map carriedRelocation) := by
  have heach : ∀ r ∈ relocs, Transfers (writeRelocation r) readRelocation
      (carriedRelocation r) := by
    intro r hr
    refine (transfers_putIndex (hoffsets r hr)).bind ?_
    refine (transfers_putByte r.type).bind ?_
    exact (transfers_putName (hnames r hr)).map _
  exact (transfers_putCrc _).bind ((transfers_putCount h).bind (Transfers.each relocs heach))

/-- What a label comes back as. -/
def carriedLabel (l : MemoryLabel) : MemoryLabel :=
  ⟨l.name, carriedPointer l.offset, .emptyList, .emptyList⟩

/-- What the labels come back as. -/
def carriedLabels (t : LabelTable) : LabelTable where
  labels := t.labels.map carriedLabel
  distinct := by
    rw [List.map_map]
    exact t.distinct

theorem map_eq_self_iff {α : Type} {f : α → α} {l : List α} :
    l.map f = l ↔ ∀ a ∈ l, f a = a := by
  induction l with
  | nil => simp
  | cons a l ih => simp [ih]

theorem LabelTable_ext {t t' : LabelTable} (h : t.labels = t'.labels) : t = t' := by
  cases t
  cases t'
  cases h
  rfl

theorem insert_all {labels : List MemoryLabel} {t : LabelTable}
    (h : ((t.labels ++ labels).map (·.name)).Nodup) :
    (labels.foldl LabelTable.insert t).labels = t.labels ++ labels := by
  induction labels generalizing t with
  | nil => simp
  | cons l labels ih =>
    have hkept : (t.insert l).labels = t.labels ++ [l] := by
      have hfilter : t.labels.filter (·.name ≠ l.name) = t.labels := by
        apply List.filter_eq_self.mpr
        intro m hm
        rw [List.map_append, List.nodup_append] at h
        have hne := h.2.2 m.name (List.mem_map_of_mem hm) l.name
          (List.mem_map_of_mem List.mem_cons_self)
        simpa using hne
      change t.labels.filter (·.name ≠ l.name) ++ [l] = _
      rw [hfilter]
    rw [List.foldl_cons, ih, hkept, List.append_assoc]
    · rfl
    · rwa [hkept, List.append_assoc]

theorem transfers_labels {t : LabelTable} (h : t.labels.length < 2 ^ 31)
    (hnames : ∀ l ∈ t.labels, l.name.length < 2 ^ 31) :
    Transfers (writeLabels (typeConfig false) t) (readLabels (typeConfig false))
      (carriedLabels t) := by
  have heach : ∀ l ∈ t.labels, Transfers (writeLabel (typeConfig false) l)
      (readLabel (typeConfig false)) (carriedLabel l) := by
    intro l hl
    refine (transfers_putCrc _).bind ?_
    refine (transfers_putIndex (by decide)).bind ?_
    refine (transfers_putName (hnames l hl)).bind ?_
    exact (transfers_putPointer l.offset).map _
  refine (transfers_putCrc _).bind ?_
  refine (transfers_putIndex (by decide)).bind ?_
  refine (transfers_putCount h).bind ?_
  refine (Transfers.each t.labels heach).last ?_
  congr 1
  apply LabelTable_ext
  exact insert_all (carriedLabels t).distinct

/-- What a buffer comes back as. -/
def carriedBuffer (b : MemoryBuffer) : MemoryBuffer where
  base := b.base
  data := b.data
  symbols := b.symbols
  relocs := b.relocs.map carriedRelocation
  labels := carriedLabels b.labels

theorem transfers_buffer {b : MemoryBuffer} (h : Small b)
    (hoffsets : ∀ r ∈ b.relocs, r.offset.setWidth 32 ≠ BitVec.intMin 32) :
    Transfers (writeBuffer (typeConfig false) b) (readBuffer (typeConfig false))
      (carriedBuffer b) := by
  refine (transfers_region b.base h.data).bind ?_
  refine (transfers_symbols h.symbols h.symbolNames).bind ?_
  refine (transfers_relocs h.relocs h.targetNames hoffsets).bind ?_
  exact (transfers_labels h.labels h.labelNames).map _

/-! ## Buffers that are not written -/

theorem fails_registered (b : MemoryBuffer) : Fails (writeBuffer (typeConfig true) b) := by
  have hcrc : ∀ value, Fails (putCrc (typeConfig true) value) := fun _ _ => ⟨_, rfl⟩
  exact Fails.after _ fun _ => ((hcrc _).bind _).bind _

theorem fails_relocation {b : MemoryBuffer} {r : Relocation} (hr : r ∈ b.relocs)
    (hoffset : r.offset.setWidth 32 = BitVec.intMin 32) :
    Fails (writeBuffer (typeConfig false) b) := by
  have hindex : Fails (putIndex (r.offset.setWidth 32)) := by
    intro c
    rw [putIndex, if_pos hoffset]
    exact ⟨_, rfl⟩
  have hrelocs : Fails (writeRelocs (typeConfig false) b.relocs) :=
    Fails.after _ fun _ => Fails.after _ fun _ => Fails.each hr (hindex.bind _)
  exact Fails.after _ fun _ => Fails.after _ fun _ => hrelocs.bind _

/-! ## Round trips -/

theorem toNat_signExtend (v : BitVec 32) : (v.signExtend 64).toNat =
    if v.toNat < 2 ^ 31 then v.toNat else v.toNat + (2 ^ 64 - 2 ^ 32) := by
  have hlt := v.isLt
  have hint := BitVec.toInt_eq_toNat_cond v
  rw [BitVec.signExtend, BitVec.toNat_ofInt]
  split_ifs with hsign
  · rw [if_pos (by omega)] at hint
    omega
  · rw [if_neg (by omega)] at hint
    omega

theorem signExtend_setWidth_eq_iff (offset : BitVec 64) :
    ((offset.setWidth 32).signExtend 64 = offset ∧ offset.setWidth 32 ≠ BitVec.intMin 32) ↔
      ShortOffset offset := by
  have hlt := offset.isLt
  have hlow : (offset.setWidth 32).toNat = offset.toNat % 2 ^ 32 := BitVec.toNat_setWidth 32 offset
  have hextend := toNat_signExtend (offset.setWidth 32)
  have hmin : (BitVec.intMin 32).toNat = 2 ^ 31 := rfl
  rw [hlow] at hextend
  rw [ShortOffset, ← BitVec.toNat_inj, Ne, ← BitVec.toNat_inj, hmin, hlow, hextend]
  split_ifs <;> omega

theorem carriedPointer_eq_iff (offset : BitVec 64) :
    carriedPointer offset = offset ↔ offset.toNat < 2 ^ 32 := by
  have hlt := offset.isLt
  constructor
  · intro h
    have hnat := congrArg BitVec.toNat h
    rw [carriedPointer, BitVec.toNat_ofNat] at hnat
    omega
  · intro h
    apply BitVec.eq_of_toNat_eq
    rw [carriedPointer, BitVec.toNat_ofNat]
    omega

theorem comesBack_of_transfers {config : TypeConfig} {b b' : MemoryBuffer}
    (h : Transfers (writeBuffer config b) (readBuffer config) b') :
    ComesBack config b ↔ b' = b := by
  obtain ⟨bytes, hwrites, hreads⟩ := h
  constructor
  · rintro ⟨room, htrip⟩
    -- a memory with room for both
    obtain ⟨written, hwritten, hread⟩ :=
      htrip (List.replicate (bytes.length + room) 0) 0 (by simp)
    have hw := hwrites [] (List.replicate bytes.length 0) (List.replicate room 0) (by simp)
    simp only [List.nil_append, List.length_nil, List.replicate_append_replicate] at hw
    have hr := hreads [] (List.replicate room 0)
    rw [hw] at hwritten
    cases hwritten
    simp only [List.nil_append, List.length_nil] at hr
    rw [hr] at hread
    cases hread
    rfl
  · rintro rfl
    refine ⟨bytes.length, fun memory position hroom => ?_⟩
    have hw := hwrites (memory.take position) ((memory.drop position).take bytes.length)
      ((memory.drop position).drop bytes.length) (by simp; omega)
    have hr := hreads (memory.take position) ((memory.drop position).drop bytes.length)
    have hposition : (memory.take position).length = position := by simp; omega
    rw [List.append_assoc, List.take_append_drop, List.take_append_drop, hposition] at hw
    rw [hposition] at hr
    exact ⟨_, hw, hr⟩

/-- A buffer goes to an archive and back exactly if the builtin types are not registered, its
relocations have short offsets, and its labels have offsets of 32 bits and no objects. -/
theorem comesBack_iff (registered : Bool) (b : MemoryBuffer) (h : Small b) :
    ComesBack (typeConfig registered) b ↔ registered = false ∧ Storable b := by
  cases registered with
  | true =>
    simp only [Bool.true_eq_false, false_and, iff_false]
    rintro ⟨room, htrip⟩
    obtain ⟨written, hwritten, -⟩ := htrip (List.replicate room 0) 0 (by simp)
    obtain ⟨e, he⟩ := fails_registered b ⟨List.replicate room 0, 0⟩
    rw [he] at hwritten
    cases hwritten
  | false =>
    simp only [true_and]
    by_cases hoffsets : ∀ r ∈ b.relocs, r.offset.setWidth 32 ≠ BitVec.intMin 32
    · rw [comesBack_of_transfers (transfers_buffer h hoffsets)]
      constructor
      · intro heq
        have hrelocs : b.relocs.map carriedRelocation = b.relocs := congrArg (·.relocs) heq
        have hlabels : b.labels.labels.map carriedLabel = b.labels.labels :=
          congrArg (·.labels.labels) heq
        rw [map_eq_self_iff] at hrelocs hlabels
        refine ⟨?_, ?_, ?_⟩
        · intro r hr
          have hoffset : (carriedRelocation r).offset = r.offset :=
            congrArg (·.offset) (hrelocs r hr)
          exact (signExtend_setWidth_eq_iff _).mp ⟨hoffset, hoffsets r hr⟩
        · intro l hl
          have hoffset : (carriedLabel l).offset = l.offset := congrArg (·.offset) (hlabels l hl)
          exact (carriedPointer_eq_iff _).mp hoffset
        · intro l hl
          have hsegment : (carriedLabel l).segment = l.segment :=
            congrArg (·.segment) (hlabels l hl)
          have hinfo : (carriedLabel l).info = l.info := congrArg (·.info) (hlabels l hl)
          exact ⟨hsegment.symm, hinfo.symm⟩
      · rintro ⟨hrelocs, hpointers, hobjects⟩
        have hsame : b.relocs.map carriedRelocation = b.relocs := by
          rw [map_eq_self_iff]
          intro r hr
          rw [carriedRelocation, ((signExtend_setWidth_eq_iff _).mpr (hrelocs r hr)).1]
        have hlabels : carriedLabels b.labels = b.labels := by
          apply LabelTable_ext
          change b.labels.labels.map carriedLabel = _
          rw [map_eq_self_iff]
          intro l hl
          obtain ⟨hsegment, hinfo⟩ := hobjects l hl
          rw [carriedLabel, (carriedPointer_eq_iff _).mpr (hpointers l hl), ← hsegment]
          nth_rewrite 2 [hsegment]
          rw [← hinfo]
        rw [carriedBuffer, hsame, hlabels]
    · simp only [not_forall, not_not] at hoffsets
      obtain ⟨r, hr, hoffset⟩ := hoffsets
      constructor
      · rintro ⟨room, htrip⟩
        obtain ⟨written, hwritten, -⟩ := htrip (List.replicate room 0) 0 (by simp)
        obtain ⟨e, he⟩ := fails_relocation hr hoffset ⟨List.replicate room 0, 0⟩
        rw [he] at hwritten
        cases hwritten
      · intro hstorable
        exact absurd hoffset ((signExtend_setWidth_eq_iff _).mpr (hstorable.relocs r hr)).2

/-- A buffer with a label and a relocation that refers to it. -/
def linkedBuffer (info : Object) : MemoryBuffer where
  base := 0x8000
  data := [0xcd, 0x00, 0x00]
  symbols := [[0x66]]
  relocs := [⟨1, 0, [0x66]⟩]
  labels := LabelTable.empty.insert ⟨[0x66], 0, .emptyList, info⟩

theorem small_linkedBuffer (info : Object) : Small (linkedBuffer info) := by
  constructor <;> simp [linkedBuffer, LabelTable.insert, LabelTable.empty]

theorem comesBack_linkedBuffer :
    Small (linkedBuffer .emptyList) ∧ ComesBack (typeConfig false) (linkedBuffer .emptyList) := by
  refine ⟨small_linkedBuffer _, (comesBack_iff false _ (small_linkedBuffer _)).mpr ⟨rfl, ?_⟩⟩
  constructor <;> simp [linkedBuffer, LabelTable.insert, LabelTable.empty, ShortOffset]

/-- The info of a label is lost. -/
theorem not_comesBack :
    ¬ ∀ (registered : Bool) (b : MemoryBuffer), Small b → ComesBack (typeConfig registered) b := by
  intro h
  have htrip := h false (linkedBuffer (.int 1)) (small_linkedBuffer _)
  have hoffsets : ∀ r ∈ (linkedBuffer (.int 1)).relocs,
      r.offset.setWidth 32 ≠ BitVec.intMin 32 := by
    intro r hr
    rw [List.mem_singleton.mp hr]
    decide
  have hcarried := transfers_buffer (small_linkedBuffer (.int 1)) hoffsets
  have heq := (comesBack_of_transfers hcarried).mp htrip
  have hinfo := congrArg (fun b : MemoryBuffer => b.labels.labels.map MemoryLabel.info) heq
  change [Object.emptyList] = [Object.int 1] at hinfo
  cases hinfo

end Soot.Analysis.Script
