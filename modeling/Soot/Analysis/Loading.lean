import Soot.Computation.StateExcept
import Soot.Model.Modules

/-!
# The loader, run on a file

What `from_buffer` does with the bytes of a file: the header is checked without leaving the
buffer, the relocation loop turns the file into its image slot by slot or refuses one, and the
entries of the image are looked at up to the entry point. An access outside the buffer happens
exactly where the model says so.
-/

set_option autoImplicit false

namespace Soot.Analysis

open Soot.Program Soot.Computation Soot.Model

variable {A : Allocation} {b : Bytes} {s t : LoadState} {α : Type}

/-! ## Primitives -/

theorem index_at {o : ℕ} (h : o < 2 ^ 64) : A.index (A.at o) = o := by
  unfold Allocation.index Allocation.at
  rw [BitVec.add_comm, BitVec.add_sub_cancel, BitVec.toNat_ofNat, Nat.mod_eq_of_lt h]

theorem load_at {o n : ℕ} (h : o + n ≤ A.size) (s : LoadState) :
    load A (A.at o) n s = .ok (s.bytes.read o n, s) := by
  have hsize := A.object
  have hidx : A.index (A.at o) = o := index_at (by omega)
  have hin : A.Inside (A.at o) n := by
    unfold Allocation.Inside
    rw [hidx]
    exact h
  simp [load, hin, hidx]

theorem store_at {o n v : ℕ} (h : o + n ≤ A.size) (s : LoadState) :
    store A (A.at o) n v s = .ok ((), { s with bytes := s.bytes.write o n v }) := by
  have hsize := A.object
  have hidx : A.index (A.at o) = o := index_at (by omega)
  have hin : A.Inside (A.at o) n := by
    unfold Allocation.Inside
    rw [hidx]
    exact h
  simp [store, hin, hidx]

theorem load_at_bind {o n : ℕ} (h : o + n ≤ A.size) (f : ℕ → LoadM α) (s : LoadState) :
    (load A (A.at o) n >>= f) s = f (s.bytes.read o n) s := bind_of_ok (load_at h s)

theorem ensure_bind (p : Prop) [Decidable p] (e : LoaderError) (f : Unit → LoadM α)
    (s : LoadState) :
    (ensure p e >>= f) s = if p then f () s else .error (.rejected e) := by
  by_cases hp : p
  · rw [if_pos hp]
    exact bind_of_ok (by simp [ensure, hp]; rfl)
  · rw [if_neg hp]
    exact bind_of_error (by simp [ensure, hp]; rfl)

theorem ensure_eq (p : Prop) [Decidable p] (e : LoaderError) (s : LoadState) :
    ensure p e s = if p then .ok ((), s) else .error (.rejected e) := by
  by_cases hp : p
  · simp [ensure, hp]
    rfl
  · simp [ensure, hp]
    rfl

/-- A computation is refused. -/
def Rejects (x : LoadM α) (s : LoadState) : Prop := ∃ e, x s = .error (.rejected e)

/-! ## The header -/

theorem checkHeader_spec (A : Allocation) (s : LoadState) :
    (HeaderAccepted A s.bytes ∧ checkHeader A s = .ok ((), s)) ∨
      (¬ HeaderAccepted A s.bytes ∧ Rejects (checkHeader A) s) := by
  unfold Rejects checkHeader
  rw [ensure_bind]
  by_cases hroom : headerSize ≤ A.size
  swap
  · rw [if_neg hroom]
    exact Or.inr ⟨fun h => hroom h.room, _, rfl⟩
  have h32 : 0x20 ≤ A.size := hroom
  rw [if_pos hroom]
  unfold loadHeader
  rw [load_at_bind (by simp only [headerMagic]; omega), ensure_bind]
  by_cases hmagic : s.bytes.read headerMagic 4 = DC_FILE_MAGIC
  swap
  · rw [if_neg hmagic]
    exact Or.inr ⟨fun h => hmagic h.magic, _, rfl⟩
  rw [if_pos hmagic, load_at_bind (by simp only [headerVersion]; omega), ensure_bind]
  by_cases hversion : s.bytes.read headerVersion 4 = DC_FILE_VERSION
  swap
  · rw [if_neg hversion]
    exact Or.inr ⟨fun h => hversion h.version, _, rfl⟩
  rw [if_pos hversion, load_at_bind (by simp only [headerTextSize]; omega), ensure_bind]
  by_cases htext : headerSize ≤ s.bytes.read headerTextSize 4
  swap
  · rw [if_neg htext]
    exact Or.inr ⟨fun h => htext h.textAfterHeader, _, rfl⟩
  rw [if_pos htext, ensure_bind]
  by_cases hfits : s.bytes.read headerTextSize 4 ≤ A.size
  swap
  · rw [if_neg hfits]
    refine Or.inr ⟨fun h => hfits ?_, _, rfl⟩
    have htable : s.bytes.read headerTextSize 4 + 4 + tableSize s.bytes ≤ A.size := h.table
    omega
  rw [if_pos hfits, load_at_bind (by simp only [headerStringsOffset]; omega), ensure_bind]
  by_cases hstrings : s.bytes.read headerStringsOffset 4 ≤ s.bytes.read headerTextSize 4
  swap
  · rw [if_neg hstrings]
    exact Or.inr ⟨fun h => hstrings h.strings, _, rfl⟩
  rw [if_pos hstrings, load_at_bind (by simp only [headerNumEntries]; omega), ensure_bind]
  by_cases hentries : s.bytes.read headerNumEntries 4 ≤ 1000000
  swap
  · rw [if_neg hentries]
    exact Or.inr ⟨fun h => hentries h.entries, _, rfl⟩
  rw [if_pos hentries, ensure_bind]
  by_cases hkeep : s.bytes.read headerTextSize 4 + 4 ≤ A.size
  swap
  · rw [if_neg hkeep]
    refine Or.inr ⟨fun h => hkeep ?_, _, rfl⟩
    have htable : s.bytes.read headerTextSize 4 + 4 + tableSize s.bytes ≤ A.size := h.table
    omega
  rw [if_pos hkeep, load_at_bind hkeep, ensure_bind]
  by_cases hzero : s.bytes.read (s.bytes.read headerTextSize 4) 4 ≠ 0
  swap
  · rw [if_neg hzero]
    exact Or.inr ⟨fun h => hzero h.tableNonempty, _, rfl⟩
  rw [if_pos hzero, ensure_eq]
  by_cases htable : s.bytes.read headerTextSize 4 + 4 +
      s.bytes.read (s.bytes.read headerTextSize 4) 4 ≤ A.size
  swap
  · rw [if_neg htable]
    exact Or.inr ⟨fun h => htable h.table, _, rfl⟩
  rw [if_pos htable]
  exact Or.inl ⟨⟨hroom, hmagic, hversion, htext, hstrings, hentries, hzero, htable⟩, rfl⟩

/-! ## The bitmap -/

theorem index_tableByte (A : Allocation) (o i : ℕ) :
    A.index (A.at o + (BitVec.ofNat 32 i).signExtend 64) =
      ((o + (BitVec.ofNat 32 i).toInt : Int) % 2 ^ 64).toNat := by
  have hsum : BitVec.ofNat 64 o + (BitVec.ofNat 32 i).signExtend 64 =
      BitVec.ofInt 64 (o + (BitVec.ofNat 32 i).toInt) := by
    rw [BitVec.ofInt_add, BitVec.ofInt_natCast]
    rfl
  unfold Allocation.index Allocation.at
  rw [BitVec.add_assoc, hsum, BitVec.add_comm, BitVec.add_sub_cancel, BitVec.toNat_ofInt]
  rfl

theorem toInt_ofNat_direct {i : ℕ} (h : i < 2 ^ 31) : (BitVec.ofNat 32 i).toInt = i := by
  have hcast : (BitVec.ofNat 32 i).toInt = (i : Int).bmod (2 ^ 32) := BitVec.toInt_ofNat' ..
  rw [hcast, Int.bmod_def]
  omega

theorem toInt_ofNat_wrapped {i : ℕ} (hlo : 2 ^ 31 ≤ i) (hhi : i < 2 ^ 32) :
    (BitVec.ofNat 32 i).toInt = i - 2 ^ 32 := by
  have hcast : (BitVec.ofNat 32 i).toInt = (i : Int).bmod (2 ^ 32) := BitVec.toInt_ofNat' ..
  rw [hcast, Int.bmod_def]
  omega

theorem read_one (b : Bytes) (o : ℕ) : b.read o 1 = (b o).toNat := by
  simp [Bytes.read]

theorem tableByte_direct {o i : ℕ} (hi : i < 2 ^ 31) (h : o + i < A.size) (s : LoadState) :
    tableByte A (A.at o) i s = .ok ((s.bytes (o + i)).toNat, s) := by
  have hsize := A.object
  have hidx : A.index (A.at o + (BitVec.ofNat 32 i).signExtend 64) = o + i := by
    rw [index_tableByte, toInt_ofNat_direct hi]
    omega
  have hin : A.Inside (A.at o + (BitVec.ofNat 32 i).signExtend 64) 1 := by
    unfold Allocation.Inside
    rw [hidx]
    omega
  simp only [tableByte, load, if_pos hin, hidx, read_one]

theorem tableByte_wrapped {o i : ℕ} (hlo : 2 ^ 31 ≤ i) (hhi : i < 2 ^ 32) (h : 2 ^ 32 ≤ o + i)
    (ho : o ≤ A.size) (s : LoadState) :
    tableByte A (A.at o) i s = .ok ((s.bytes (o + i - 2 ^ 32)).toNat, s) := by
  have hsize := A.object
  have hidx : A.index (A.at o + (BitVec.ofNat 32 i).signExtend 64) = o + i - 2 ^ 32 := by
    rw [index_tableByte, toInt_ofNat_wrapped hlo hhi]
    omega
  have hin : A.Inside (A.at o + (BitVec.ofNat 32 i).signExtend 64) 1 := by
    unfold Allocation.Inside
    rw [hidx]
    omega
  simp only [tableByte, load, if_pos hin, hidx, read_one]

theorem tableByte_fault {o i : ℕ} (hlo : 2 ^ 31 ≤ i) (hhi : i < 2 ^ 32) (h : o + i < 2 ^ 32)
    (s : LoadState) :
    tableByte A (A.at o) i s =
      .error (.fault (A.at o + (BitVec.ofNat 32 i).signExtend 64) 1) := by
  have hsize := A.object
  have hidx : A.index (A.at o + (BitVec.ofNat 32 i).signExtend 64) = 2 ^ 64 + o + i - 2 ^ 32 := by
    rw [index_tableByte, toInt_ofNat_wrapped hlo hhi]
    omega
  have hout : ¬ A.Inside (A.at o + (BitVec.ofNat 32 i).signExtend 64) 1 := by
    unfold Allocation.Inside
    rw [hidx]
    omega
  simp only [tableByte, load, if_neg hout]

/-! ## The relocation loop -/

/-- The image after the slots below `k` have been relocated. -/
def imageUpTo (A : Allocation) (b : Bytes) (k : ℕ) : Bytes := fun i =>
  if relocated b (i / 8) ∧ i / 8 < k then
    BitVec.ofNat 8 ((A.at (slotWord b (i / 8))).toNat / 256 ^ (i % 8))
  else b i

/-- The loop has relocated the slots below `k`. -/
structure Progress (A : Allocation) (b : Bytes) (k : ℕ) (s : LoadState) : Prop where
  accepted : ∀ slot < k, SlotAccepted A b slot
  bytes : s.bytes = imageUpTo A b k
  pointedAt : ∀ target, s.pointedAt target = true ↔
    ∃ slot < k, relocated b slot ∧ slotWord b slot / 8 = target

theorem imageUpTo_zero (A : Allocation) (b : Bytes) : imageUpTo A b 0 = b := by
  funext i
  simp [imageUpTo]

theorem imageUpTo_all (A : Allocation) (b : Bytes) : imageUpTo A b (directBytes b * 8) = image A b := by
  funext i
  unfold imageUpTo image
  have hiff : relocated b (i / 8) ∧ i / 8 < directBytes b * 8 ↔ relocated b (i / 8) := by
    constructor
    · intro h
      exact h.1
    · intro h
      exact ⟨h, h.1⟩
  simp only [hiff]

theorem imageUpTo_after_text {k i : ℕ} (haccepted : ∀ slot < k, SlotAccepted A b slot)
    (hi : textSize b ≤ i) : imageUpTo A b k i = b i := by
  unfold imageUpTo
  apply if_neg
  rintro ⟨⟨-, hflag⟩, hlt⟩
  have h := (haccepted _ hlt hflag).1
  omega

theorem imageUpTo_slot (A : Allocation) (b : Bytes) (k : ℕ) :
    (imageUpTo A b k).read (k * 8) 8 = slotWord b k := by
  unfold slotWord
  apply Bytes.read_congr
  intro i hlo hhi
  unfold imageUpTo
  apply if_neg
  rintro ⟨-, hlt⟩
  omega

theorem imageUpTo_succ_of_not {k : ℕ} (h : ¬ relocated b k) :
    imageUpTo A b (k + 1) = imageUpTo A b k := by
  funext i
  unfold imageUpTo
  by_cases hi : i / 8 = k
  · rw [if_neg (by rw [hi]; exact fun h' => h h'.1), if_neg (by omega)]
  · have hiff : i / 8 < k + 1 ↔ i / 8 < k := by omega
    simp only [hiff]

theorem imageUpTo_succ {k : ℕ} (h : relocated b k) :
    imageUpTo A b (k + 1) = (imageUpTo A b k).write (k * 8) 8 (A.at (slotWord b k)).toNat := by
  funext i
  by_cases hi : i / 8 = k
  · rw [Bytes.write_of_mem ⟨by omega, by omega⟩]
    unfold imageUpTo
    rw [if_pos ⟨by rw [hi]; exact h, by omega⟩, hi]
    congr 3
    omega
  · rw [Bytes.write_of_not_mem (by omega)]
    have hiff : i / 8 < k + 1 ↔ i / 8 < k := by omega
    simp only [imageUpTo, hiff]

section Loop

variable (hacc : HeaderAccepted A b)

include hacc

theorem relocateSlot_direct {k : ℕ} (hk : k < directBytes b * 8) (hs : Progress A b k s) :
    (SlotAccepted A b k ∧ ∃ t, relocateSlot A (A.at (textSize b + 4)) (textSize b) (tableSize b) k s =
        .ok ((), t) ∧ Progress A b (k + 1) t) ∨
      (¬ SlotAccepted A b k ∧
        Rejects (relocateSlot A (A.at (textSize b + 4)) (textSize b) (tableSize b) k) s) := by
  have htable := hacc.table
  have hsmall : k / 8 < 2 ^ 31 ∧ k / 8 < tableSize b := by
    unfold directBytes at hk
    omega
  have hbyte : tableByte A (A.at (textSize b + 4)) (k / 8) s =
      .ok ((b (textSize b + 4 + k / 8)).toNat, s) := by
    rw [tableByte_direct hsmall.1 (by omega), hs.bytes, imageUpTo_after_text hs.accepted (by omega)]
  unfold Rejects relocateSlot
  rw [bind_of_ok hbyte]
  by_cases hflag : flagged b k = true
  swap
  · have hclear : ((b (textSize b + 4 + k / 8)).toNat.testBit (k % 8)) = false := by
      simpa [flagged] using hflag
    have hskip : SlotAccepted A b k := fun h => absurd h hflag
    rw [hclear]
    refine Or.inl ⟨hskip, s, rfl, ?_, ?_, ?_⟩
    · intro slot hslot
      rcases Nat.lt_succ_iff_lt_or_eq.mp hslot with h | rfl
      · exact hs.accepted slot h
      · exact hskip
    · rw [imageUpTo_succ_of_not (fun h => hflag h.2)]
      exact hs.bytes
    · intro target
      rw [hs.pointedAt]
      constructor
      · rintro ⟨slot, hlt, h⟩
        exact ⟨slot, by omega, h⟩
      · rintro ⟨slot, hlt, hrel, h⟩
        have hne : slot ≠ k := by
          rintro rfl
          exact hflag hrel.2
        exact ⟨slot, by omega, hrel, h⟩
  have hbit : (b (textSize b + 4 + k / 8)).toNat.testBit (k % 8) = true := hflag
  have hrel : relocated b k := ⟨hk, hflag⟩
  simp only [hbit, if_true]
  rw [ensure_bind]
  by_cases htext : k * 8 + 8 ≤ textSize b
  swap
  · rw [if_neg htext]
    exact Or.inr ⟨fun h => htext (h hflag).1, _, rfl⟩
  have hword : s.bytes.read (k * 8) 8 = slotWord b k := by
    rw [hs.bytes, imageUpTo_slot]
  rw [if_pos htext, load_at_bind (by omega), hword, ensure_bind]
  by_cases hinside : slotWord b k < A.size
  swap
  · rw [if_neg hinside]
    exact Or.inr ⟨fun h => hinside (h hflag).2.1, _, rfl⟩
  rw [if_pos hinside, bind_of_ok (store_at (by omega) s), ensure_bind]
  by_cases hbitmap : slotWord b k / 8 < tableSize b * 8
  swap
  · rw [if_neg hbitmap]
    exact Or.inr ⟨fun h => hbitmap (h hflag).2.2, _, rfl⟩
  rw [if_pos hbitmap]
  have haccepted : SlotAccepted A b k := fun _ => ⟨htext, hinside, hbitmap⟩
  refine Or.inl ⟨haccepted, _, rfl, ?_, ?_, ?_⟩
  · intro slot hslot
    rcases Nat.lt_succ_iff_lt_or_eq.mp hslot with h | rfl
    · exact hs.accepted slot h
    · exact haccepted
  · rw [imageUpTo_succ hrel, ← hs.bytes]
  · intro target
    show Function.update s.pointedAt (slotWord b k / 8) true target = true ↔ _
    by_cases htarget : target = slotWord b k / 8
    · subst htarget
      rw [Function.update_self]
      exact ⟨fun _ => ⟨k, by omega, hrel, rfl⟩, fun _ => rfl⟩
    · rw [Function.update_of_ne htarget, hs.pointedAt]
      constructor
      · rintro ⟨slot, hlt, h⟩
        exact ⟨slot, by omega, h⟩
      · rintro ⟨slot, hlt, h, heq⟩
        have hne : slot ≠ k := by
          rintro rfl
          exact htarget heq.symm
        exact ⟨slot, by omega, h, heq⟩

theorem relocateFrom_direct {k n : ℕ} (hkn : k + n ≤ directBytes b * 8) (hs : Progress A b k s) :
    (∃ t, relocateFrom A (A.at (textSize b + 4)) (textSize b) (tableSize b) k n s = .ok ((), t) ∧
        Progress A b (k + n) t) ∨
      ((∃ slot, k ≤ slot ∧ slot < k + n ∧ ¬ SlotAccepted A b slot) ∧
        Rejects (relocateFrom A (A.at (textSize b + 4)) (textSize b) (tableSize b) k n) s) := by
  induction n generalizing k s with
  | zero => exact Or.inl ⟨s, rfl, hs⟩
  | succ n ih =>
    rcases relocateSlot_direct hacc (by omega) hs with ⟨-, t, hstep, ht⟩ | ⟨hno, e, hstep⟩
    · rcases ih (k := k + 1) (by omega) ht with ⟨u, hrest, hu⟩ | ⟨⟨slot, hlo, hhi, hno⟩, e, hrest⟩
      · refine Or.inl ⟨u, (bind_of_ok hstep).trans hrest, ?_⟩
        rwa [Nat.add_right_comm] at hu
      · exact Or.inr ⟨⟨slot, by omega, by omega, hno⟩, e, (bind_of_ok hstep).trans hrest⟩
    · exact Or.inr ⟨⟨k, Nat.le_refl k, by omega, hno⟩, e, bind_of_error hstep⟩

end Loop

theorem relocateFrom_add (table : Word) (text size k m n : ℕ) :
    relocateFrom A table text size k (m + n) =
      relocateFrom A table text size k m >>= fun _ => relocateFrom A table text size (k + m) n := by
  induction m generalizing k with
  | zero =>
    rw [Nat.zero_add]
    rfl
  | succ m ih =>
    rw [Nat.succ_add, relocateFrom, ih, relocateFrom, bind_assoc]
    rw [show k + 1 + m = k + (m + 1) by omega]

theorem relocateSlot_wrapped {k : ℕ} (htext : textSize b + 4 ≤ A.size) (hlow : textSize b < 2 ^ 32)
    (hk : 2 ^ 34 ≤ k) (hend : k / 8 < 2 ^ 32) (hin : 2 ^ 31 ≤ textSize b + 4) :
    ((s.bytes (textSize b + 4 + k / 8 - 2 ^ 32)).toNat.testBit (k % 8) = false ∧
        relocateSlot A (A.at (textSize b + 4)) (textSize b) (tableSize b) k s = .ok ((), s)) ∨
      ((s.bytes (textSize b + 4 + k / 8 - 2 ^ 32)).toNat.testBit (k % 8) = true ∧
        Rejects (relocateSlot A (A.at (textSize b + 4)) (textSize b) (tableSize b) k) s) := by
  have hbyte := tableByte_wrapped (A := A) (o := textSize b + 4) (i := k / 8) (by omega) hend
    (by omega) htext s
  unfold Rejects relocateSlot
  rw [bind_of_ok hbyte]
  cases hbit : (s.bytes (textSize b + 4 + k / 8 - 2 ^ 32)).toNat.testBit (k % 8) with
  | false => exact Or.inl ⟨rfl, rfl⟩
  | true =>
    have hpast : ¬ k * 8 + 8 ≤ textSize b := by omega
    refine Or.inr ⟨rfl, ?_⟩
    simp only [if_true]
    rw [ensure_bind, if_neg hpast]
    exact ⟨_, rfl⟩

theorem relocateFrom_wrapped {k n : ℕ} (htext : textSize b + 4 ≤ A.size)
    (hlow : textSize b < 2 ^ 32) (hk : 2 ^ 34 ≤ k) (hend : k + n ≤ 2 ^ 32 * 8)
    (hin : 2 ^ 31 ≤ textSize b + 4) :
    ((∀ slot, k ≤ slot → slot < k + n →
          (s.bytes (textSize b + 4 + slot / 8 - 2 ^ 32)).toNat.testBit (slot % 8) = false) ∧
        relocateFrom A (A.at (textSize b + 4)) (textSize b) (tableSize b) k n s = .ok ((), s)) ∨
      ((∃ slot, k ≤ slot ∧ slot < k + n ∧
          (s.bytes (textSize b + 4 + slot / 8 - 2 ^ 32)).toNat.testBit (slot % 8) = true) ∧
        Rejects (relocateFrom A (A.at (textSize b + 4)) (textSize b) (tableSize b) k n) s) := by
  induction n generalizing k with
  | zero => exact Or.inl ⟨fun slot hlo hhi => absurd hhi (by omega), rfl⟩
  | succ n ih =>
    rcases relocateSlot_wrapped (s := s) htext hlow hk (by omega) hin with
      ⟨hclear, hstep⟩ | ⟨hset, e, hstep⟩
    · rcases ih (k := k + 1) (by omega) (by omega) with
        ⟨hrest, hrun⟩ | ⟨⟨slot, hlo, hhi, hset⟩, e, hrun⟩
      · refine Or.inl ⟨?_, (bind_of_ok hstep).trans hrun⟩
        intro slot hlo hhi
        rcases Nat.eq_or_lt_of_le hlo with rfl | hlt
        · exact hclear
        · exact hrest slot hlt (by omega)
      · exact Or.inr ⟨⟨slot, by omega, by omega, hset⟩, e, (bind_of_ok hstep).trans hrun⟩
    · exact Or.inr ⟨⟨k, Nat.le_refl k, by omega, hset⟩, e, bind_of_error hstep⟩

theorem byte_eq_zero_iff (x : BitVec 8) : (∀ j < 8, x.toNat.testBit j = false) ↔ x = 0 := by
  constructor
  · intro h
    apply BitVec.eq_of_getLsbD_eq
    intro j hj
    exact (h j hj).trans (BitVec.getLsbD_zero).symm
  · rintro rfl j -
    simp

theorem textSize_lt (b : Bytes) : textSize b < 2 ^ 32 := Bytes.read_lt b _ 4

theorem tableSize_lt (b : Bytes) : tableSize b < 2 ^ 32 := Bytes.read_lt b _ 4

theorem wrappedClear_iff (hlarge : 2 ^ 31 < tableSize b) :
    WrappedClear A b ↔ ∀ slot, 2 ^ 34 ≤ slot → slot < 2 ^ 34 + (tableSize b * 8 - 2 ^ 34) →
      (image A b (textSize b + 4 + slot / 8 - 2 ^ 32)).toNat.testBit (slot % 8) = false := by
  constructor
  · intro h slot hlo hhi
    rw [h (slot / 8) (by omega) (by omega)]
    simp
  · intro h i hlo hhi
    rw [← byte_eq_zero_iff]
    intro j hj
    have hslot := h (i * 8 + j) (by omega) (by omega)
    rwa [show (i * 8 + j) / 8 = i by omega, show (i * 8 + j) % 8 = j by omega] at hslot

/-- What the relocation loop leaves behind. -/
structure Relocated (A : Allocation) (b : Bytes) (s : LoadState) : Prop where
  bytes : s.bytes = image A b
  pointedAt : ∀ target, s.pointedAt target = true ↔
    ∃ slot, relocated b slot ∧ slotWord b slot / 8 = target

theorem Progress.relocated (h : Progress A b (directBytes b * 8) s) : Relocated A b s where
  bytes := by rw [h.bytes, imageUpTo_all]
  pointedAt := by
    intro target
    rw [h.pointedAt]
    constructor
    · rintro ⟨slot, -, hrel⟩
      exact ⟨slot, hrel⟩
    · rintro ⟨slot, hrel⟩
      exact ⟨slot, hrel.1.1, hrel⟩

/-- The outcomes of the relocation loop. -/
inductive RelocationOutcome (A : Allocation) (b : Bytes) (x : LoadM Unit) (s : LoadState) : Prop
  | faults (p : Word) (n : ℕ) (h : x s = .error (.fault p n)) (htable : ¬ TableInside A b)
  | refuses (h : Rejects x s) (htable : TableInside A b)
      (hno : ¬ (SlotsAccepted A b ∧ WrappedClear A b))
  | relocates (t : LoadState) (h : x s = .ok ((), t)) (htable : TableInside A b)
      (hslots : SlotsAccepted A b) (hclear : WrappedClear A b) (hrel : Relocated A b t)

/-- **the relocation loop**: it makes the image of the file, or refuses a slot, or
leaves the buffer where the bitmap is so large that it is read from before the buffer. -/
theorem relocationOutcome (hacc : HeaderAccepted A b) :
    RelocationOutcome A b
      (relocateFrom A (A.at (textSize b + 4)) (textSize b) (tableSize b) 0 (tableSize b * 8))
      ⟨b, fun _ => false⟩ := by
  have htable := hacc.table
  have hstart : Progress A b 0 ⟨b, fun _ => false⟩ := by
    refine ⟨fun slot h => absurd h (by omega), (imageUpTo_zero A b).symm, ?_⟩
    intro target
    simp
  by_cases hlarge : 2 ^ 31 < tableSize b
  swap
  · have hdirect : directBytes b = tableSize b := by
      unfold directBytes
      omega
    have hinside : TableInside A b := fun h => absurd h hlarge
    have hclear : WrappedClear A b := fun i hlo hhi => absurd hhi (by omega)
    rcases relocateFrom_direct (n := tableSize b * 8) hacc (by omega) hstart with
      ⟨t, hrun, ht⟩ | ⟨⟨slot, -, hlt, hno⟩, hrej⟩
    · rw [Nat.zero_add, ← hdirect] at ht
      exact .relocates t hrun hinside ht.accepted hclear ht.relocated
    · refine .refuses hrej hinside fun h => hno (h.1 slot ?_)
      omega
  have hdirect : directBytes b = 2 ^ 31 := by
    unfold directBytes
    omega
  obtain ⟨g, hg⟩ : ∃ g, g = 2 ^ 34 := ⟨_, rfl⟩
  obtain ⟨m, hm⟩ : ∃ m, tableSize b * 8 = g + (m + 1) := ⟨tableSize b * 8 - g - 1, by omega⟩
  rw [hm, relocateFrom_add, Nat.zero_add]
  rcases relocateFrom_direct (n := g) hacc (by omega) hstart with
    ⟨t, hrun, ht⟩ | ⟨⟨slot, -, hlt, hno⟩, e, hrej⟩
  swap
  · have hrefused : ¬ SlotsAccepted A b := fun h => hno (h slot (by omega))
    exact .refuses ⟨e, bind_of_error hrej⟩ (fun _ h => absurd h hrefused) fun h => hrefused h.1
  rw [Nat.zero_add, show g = directBytes b * 8 by omega] at ht
  have hslots : SlotsAccepted A b := ht.accepted
  have hbytes : t.bytes = image A b := ht.relocated.bytes
  by_cases hin : 2 ^ 31 ≤ textSize b + 4
  swap
  · have hfault := tableByte_fault (A := A) (o := textSize b + 4) (i := g / 8) (by omega)
      (by omega) (by omega) t
    exact .faults _ _ ((bind_of_ok hrun).trans (bind_of_error (bind_of_error hfault)))
      fun h => hin (h hlarge hslots)
  have hinside : TableInside A b := fun _ _ => hin
  have hlow := textSize_lt b
  have hhigh := tableSize_lt b
  have hroom : textSize b + 4 ≤ A.size := by omega
  have hiff := wrappedClear_iff (A := A) hlarge
  rw [← hg, show tableSize b * 8 - g = m + 1 by omega] at hiff
  rcases relocateFrom_wrapped (A := A) (s := t) (k := g) (n := m + 1) hroom hlow (by omega)
    (by omega) hin with ⟨hclear, hrest⟩ | ⟨⟨slot, hlo, hhi, hset⟩, e, hrest⟩
  · rw [hbytes] at hclear
    exact .relocates t ((bind_of_ok hrun).trans hrest) hinside hslots (hiff.mpr hclear)
      ht.relocated
  · refine .refuses ⟨e, (bind_of_ok hrun).trans hrest⟩ hinside ?_
    rintro ⟨-, hclear⟩
    have h := hiff.mp hclear slot hlo hhi
    rw [← hbytes, hset] at h
    cases h

/-! ## The entries -/

theorem load_cases (A : Allocation) (p : Word) (n : ℕ) (s : LoadState) :
    (A.Inside p n ∧ load A p n s = .ok (s.bytes.read (A.index p) n, s)) ∨
      (¬ A.Inside p n ∧ load A p n s = .error (.fault p n)) := by
  by_cases h : A.Inside p n
  · exact Or.inl ⟨h, if_pos h⟩
  · exact Or.inr ⟨h, if_neg h⟩

/-- **the search for the entry point** never changes the file; it leaves the buffer
exactly where an entry up to the entry point does. -/
theorem findTopLevel_spec (A : Allocation) (table : Word) (i n : ℕ) (s : LoadState) :
    ((∀ j, i ≤ j → j < i + n → (∀ k, i ≤ k → k < j → ¬ IsTopLevel A s.bytes table k) →
          EntryInside A s.bytes table j) ∧
        ∃ p, findTopLevel A table i n s = .ok (p, s)) ∨
      ((∃ j, i ≤ j ∧ j < i + n ∧ (∀ k, i ≤ k → k < j → ¬ IsTopLevel A s.bytes table k) ∧
          ¬ EntryInside A s.bytes table j) ∧
        ∃ p n', findTopLevel A table i n s = .error (.fault p n')) := by
  induction n generalizing i with
  | zero => exact Or.inl ⟨fun j hlo hhi => absurd hhi (by omega), 0, rfl⟩
  | succ n ih =>
    -- an entry that is not the entry point leaves the search to the ones after it
    have hnext : EntryInside A s.bytes table i → ¬ IsTopLevel A s.bytes table i →
        findTopLevel A table i (n + 1) s = findTopLevel A table (i + 1) n s →
        ((∀ j, i ≤ j → j < i + (n + 1) → (∀ k, i ≤ k → k < j → ¬ IsTopLevel A s.bytes table k) →
            EntryInside A s.bytes table j) ∧
          ∃ p, findTopLevel A table i (n + 1) s = .ok (p, s)) ∨
        ((∃ j, i ≤ j ∧ j < i + (n + 1) ∧
            (∀ k, i ≤ k → k < j → ¬ IsTopLevel A s.bytes table k) ∧
            ¬ EntryInside A s.bytes table j) ∧
          ∃ p n', findTopLevel A table i (n + 1) s = .error (.fault p n')) := by
      intro hinside hnot hrun
      rw [hrun]
      rcases ih (i + 1) with ⟨hall, hok⟩ | ⟨⟨j, hlo, hhi, hbefore, hout⟩, hfault⟩
      · refine Or.inl ⟨?_, hok⟩
        intro j hlo hhi hbefore
        rcases Nat.eq_or_lt_of_le hlo with rfl | hlt
        · exact hinside
        · exact hall j hlt (by omega) fun k hk hkj => hbefore k (by omega) hkj
      · refine Or.inr ⟨⟨j, by omega, by omega, ?_, hout⟩, hfault⟩
        intro k hk hkj
        rcases Nat.eq_or_lt_of_le hk with rfl | hlt
        · exact hnot
        · exact hbefore k hlt hkj
    have hhere : (∀ k, i ≤ k → k < i → ¬ IsTopLevel A s.bytes table k) :=
      fun k hlo hhi => absurd hhi (by omega)
    rcases load_cases A (table + BitVec.ofNat 64 (i * entrySize) + BitVec.ofNat 64 entryNameId) 8 s with
      ⟨hname, hload⟩ | ⟨hname, hload⟩
    swap
    · exact Or.inr ⟨⟨i, Nat.le_refl i, by omega, hhere, fun h => hname h.1⟩, _, _,
        bind_of_error hload⟩
    by_cases hsid : entryField A s.bytes table i entryNameId = stringId "top-level"
    swap
    · refine hnext ⟨hname, fun h => absurd h hsid, fun h => absurd h.1 hsid⟩
        (fun h => hsid h.1) ?_
      refine (bind_of_ok hload).trans ?_
      exact congrFun (if_neg hsid) s
    rcases load_cases A (table + BitVec.ofNat 64 (i * entrySize) + BitVec.ofNat 64 entryTypeId) 8 s with
      ⟨htype, hload'⟩ | ⟨htype, hload'⟩
    swap
    · refine Or.inr ⟨⟨i, Nat.le_refl i, by omega, hhere, fun h => htype (h.2.1 hsid)⟩,
        table + BitVec.ofNat 64 (i * entrySize) + BitVec.ofNat 64 entryTypeId, 8, ?_⟩
      refine (bind_of_ok hload).trans ?_
      exact (congrFun (if_pos hsid) s).trans (bind_of_error hload')
    by_cases htid : entryField A s.bytes table i entryTypeId = stringId "script-lambda"
    swap
    · refine hnext ⟨hname, fun _ => htype, fun h => absurd h.2 htid⟩ (fun h => htid h.2) ?_
      refine (bind_of_ok hload).trans ((congrFun (if_pos hsid) s).trans ?_)
      refine (bind_of_ok hload').trans ?_
      exact congrFun (if_neg htid) s
    have hrun : findTopLevel A table i (n + 1) s =
        (load A (table + BitVec.ofNat 64 (i * entrySize) + BitVec.ofNat 64 entryPtr) 8 >>=
          fun v => pure (BitVec.ofNat 64 v)) s := by
      refine (bind_of_ok hload).trans ((congrFun (if_pos hsid) s).trans ?_)
      refine (bind_of_ok hload').trans ?_
      exact congrFun (if_pos htid) s
    rcases load_cases A (table + BitVec.ofNat 64 (i * entrySize) + BitVec.ofNat 64 entryPtr) 8 s with
      ⟨hptr, hload''⟩ | ⟨hptr, hload''⟩
    · refine Or.inl ⟨?_, _, hrun.trans (bind_of_ok hload'')⟩
      intro j hlo hhi hbefore
      rcases Nat.eq_or_lt_of_le hlo with rfl | hlt
      · exact ⟨hname, fun _ => htype, fun _ => hptr⟩
      · exact absurd ⟨hsid, htid⟩ (hbefore i (Nat.le_refl i) hlt)
    · exact Or.inr ⟨⟨i, Nat.le_refl i, by omega, hhere, fun h => hptr (h.2.2 ⟨hsid, htid⟩)⟩,
        table + BitVec.ofNat 64 (i * entrySize) + BitVec.ofNat 64 entryPtr, 8,
        hrun.trans (bind_of_error hload'')⟩

/-! ## The whole file -/

theorem entries_eq (hroom : headerSize ≤ A.size) (s : LoadState) :
    entries A s = .ok (entryTable A s.bytes, s) := by
  have h32 : 0x20 ≤ A.size := hroom
  unfold entries entryTable
  rw [load_at_bind (by simp only [headerStartOfData]; omega)]
  by_cases h : s.bytes.read headerStartOfData 8 < A.base.toNat
  · simp only [if_pos h]
    rfl
  · simp only [if_neg h]
    rfl

theorem locateTopLevel_spec (hroom : headerSize ≤ A.size) (s : LoadState) :
    (EntriesInside A s.bytes ∧ ∃ p, locateTopLevel A (numEntries s.bytes) s = .ok (p, s)) ∨
      (¬ EntriesInside A s.bytes ∧
        ∃ p n, locateTopLevel A (numEntries s.bytes) s = .error (.fault p n)) := by
  unfold locateTopLevel
  by_cases hzero : numEntries s.bytes = 0
  · rw [if_pos hzero]
    refine Or.inl ⟨?_, 0, rfl⟩
    intro i hi
    omega
  rw [if_neg hzero, bind_of_ok (entries_eq hroom s)]
  rcases findTopLevel_spec A (entryTable A s.bytes) 0 (numEntries s.bytes) s with
    ⟨hall, hok⟩ | ⟨⟨j, -, hlt, hbefore, hout⟩, hfault⟩
  · refine Or.inl ⟨?_, hok⟩
    intro i hi hbefore
    exact hall i (Nat.zero_le i) (by omega) fun k _ hk => hbefore k hk
  · refine Or.inr ⟨?_, hfault⟩
    intro h
    exact hout (h j (by omega) fun k hk => hbefore k (Nat.zero_le k) hk)

/-- What happens when a file is loaded. -/
inductive LoadOutcome (A : Allocation) (b : Bytes) (x : LoadM BinaryFile) (s : LoadState) : Prop
  | faults (p : Word) (n : ℕ) (h : x s = .error (.fault p n)) (hacc : HeaderAccepted A b)
      (hout : ¬ TableInside A b ∨ (SlotsAccepted A b ∧ WrappedClear A b ∧
        stringsOffset (image A b) ≤ A.size ∧ ¬ EntriesInside A (image A b)))
  | refuses (h : Rejects x s)
      (hno : HeaderAccepted A b → TableInside A b ∧
        ¬ (SlotsAccepted A b ∧ WrappedClear A b ∧ stringsOffset (image A b) ≤ A.size))
  | loads (file : BinaryFile) (t : LoadState) (h : x s = .ok (file, t))
      (hacc : HeaderAccepted A b) (htable : TableInside A b) (hslots : SlotsAccepted A b)
      (hclear : WrappedClear A b) (hstrings : stringsOffset (image A b) ≤ A.size)
      (hentries : EntriesInside A (image A b)) (hrel : Relocated A b t)

theorem readRelocTable_outcome (hacc : HeaderAccepted A b) (pointed : ℕ → Bool) :
    LoadOutcome A b (readRelocTable A) ⟨b, pointed⟩ := by
  have h32 : 0x20 ≤ A.size := hacc.room
  have htab := hacc.table
  have hrun : readRelocTable A ⟨b, pointed⟩ =
      (do
        relocateFrom A (A.at (textSize b + 4)) (textSize b) (tableSize b) 0 (tableSize b * 8)
        let stringsOffset ← loadHeader A headerStringsOffset
        ensure (stringsOffset ≤ A.size) (.stringsOffsetPastEnd stringsOffset A.size)
        let numEntries ← loadHeader A headerNumEntries
        let topLevel ← locateTopLevel A numEntries
        return (⟨A.at (textSize b + 4), A.at stringsOffset, topLevel⟩ : BinaryFile))
        ⟨b, fun _ => false⟩ := by
    have htext : headerTextSize + 4 ≤ A.size := by
      simp only [headerTextSize]
      omega
    have hkeep : textSize b + 4 ≤ A.size := by omega
    unfold readRelocTable loadHeader
    refine (load_at_bind htext _ _).trans ?_
    refine (ensure_bind ..).trans ((if_pos hkeep).trans ?_)
    refine (load_at_bind hkeep _ _).trans ?_
    refine (ensure_bind ..).trans ((if_pos hacc.tableNonempty).trans ?_)
    refine (ensure_bind ..).trans ((if_pos htab).trans ?_)
    rfl
  rcases relocationOutcome hacc with ⟨p, n, hreloc, hout⟩ | ⟨⟨e, hreloc⟩, htable, hno⟩ |
    ⟨t, hreloc, htable, hslots, hclear, hrel⟩
  · exact .faults p n (hrun.trans (bind_of_error hreloc)) hacc (Or.inl hout)
  · refine .refuses ⟨e, hrun.trans (bind_of_error hreloc)⟩ fun _ => ⟨htable, fun h => hno ⟨h.1, h.2.1⟩⟩
  rw [bind_of_ok hreloc] at hrun
  unfold loadHeader at hrun
  rw [load_at_bind (by simp only [headerStringsOffset]; omega), ensure_bind] at hrun
  by_cases hstrings : t.bytes.read headerStringsOffset 4 ≤ A.size
  swap
  · rw [if_neg hstrings] at hrun
    refine .refuses ⟨_, hrun⟩ fun _ => ⟨htable, fun h => hstrings ?_⟩
    rw [hrel.bytes]
    exact h.2.2
  have hstrings' : stringsOffset (image A b) ≤ A.size := by
    rw [← hrel.bytes]
    exact hstrings
  rw [if_pos hstrings, load_at_bind (by simp only [headerNumEntries]; omega)] at hrun
  rcases locateTopLevel_spec hacc.room t with ⟨hentries, p, hsearch⟩ | ⟨hentries, p, n, hsearch⟩
  · rw [hrel.bytes] at hentries
    exact .loads _ t (hrun.trans (bind_of_ok hsearch)) hacc htable hslots hclear hstrings'
      hentries hrel
  · rw [hrel.bytes] at hentries
    exact .faults p n (hrun.trans (bind_of_error hsearch)) hacc
      (Or.inr ⟨hslots, hclear, hstrings', hentries⟩)

theorem relocateTopLevel_ok (hroom : headerSize ≤ A.size) (h : EntriesInside A s.bytes) :
    ∃ p, relocateTopLevel A (numEntries s.bytes) s = .ok (p, s) := by
  unfold relocateTopLevel
  by_cases hzero : numEntries s.bytes = 0
  · rw [if_pos hzero]
    exact ⟨0, rfl⟩
  rw [if_neg hzero, bind_of_ok (entries_eq hroom s)]
  by_cases htable : entryTable A s.bytes = 0
  · simp only [if_pos htable]
    exact ⟨0, rfl⟩
  simp only [if_neg htable]
  rcases findTopLevel_spec A (entryTable A s.bytes) 0 (numEntries s.bytes) s with
    ⟨-, hok⟩ | ⟨⟨j, -, hlt, hbefore, hout⟩, -⟩
  · exact hok
  · exact absurd (h j (by omega) fun k hk => hbefore k (Nat.zero_le k) hk) hout

theorem rebuildPointers_ok (hroom : headerSize ≤ A.size) (h : EntriesInside A s.bytes) :
    ∃ file, rebuildPointers A s = .ok (file, s) ∧
      file.relocTable = if textSize s.bytes + 4 ≤ A.size then A.at (textSize s.bytes + 4) else 0 := by
  have h32 : 0x20 ≤ A.size := hroom
  have hsize : A.size ≠ 0 := by omega
  obtain ⟨p, hp⟩ := relocateTopLevel_ok hroom h
  refine ⟨⟨if textSize s.bytes + 4 ≤ A.size then A.at (textSize s.bytes + 4) else 0,
    if stringsOffset s.bytes ≤ A.size then A.at (stringsOffset s.bytes) else 0, p⟩, ?_, rfl⟩
  unfold rebuildPointers loadHeader
  rw [if_neg hsize, load_at_bind (by simp only [headerTextSize]; omega),
    load_at_bind (by simp only [headerStringsOffset]; omega),
    load_at_bind (by simp only [headerNumEntries]; omega)]
  exact bind_of_ok hp

theorem fromBuffer_outcome (A : Allocation) (b : Bytes) :
    LoadOutcome A b (fromBuffer A) (unloaded b) := by
  rcases checkHeader_spec A (unloaded b) with ⟨hacc, hcheck⟩ | ⟨hacc, e, hcheck⟩
  swap
  · exact .refuses ⟨e, bind_of_error hcheck⟩ fun h => absurd h hacc
  have hrun : fromBuffer A (unloaded b) =
      (readRelocTable A >>= fun _ => rebuildPointers A) (unloaded b) := bind_of_ok hcheck
  rcases readRelocTable_outcome hacc fun _ => false with
    ⟨p, n, hread, -, hout⟩ | ⟨⟨e, hread⟩, hno⟩ |
    ⟨file, t, hread, -, htable, hslots, hclear, hstrings, hentries, hrel⟩
  · exact .faults p n (hrun.trans (bind_of_error hread)) hacc hout
  · exact .refuses ⟨e, hrun.trans (bind_of_error hread)⟩ hno
  · obtain ⟨file', hrebuild, -⟩ := rebuildPointers_ok (s := t) hacc.room (by rwa [hrel.bytes])
    exact .loads file' t (hrun.trans ((bind_of_ok hread).trans hrebuild)) hacc htable hslots hclear
      hstrings hentries hrel

theorem relocTable_of_fromBuffer {file : BinaryFile}
    (h : fromBuffer A (unloaded b) = .ok (file, t)) :
    file.relocTable =
      if textSize t.bytes + 4 ≤ A.size then A.at (textSize t.bytes + 4) else 0 := by
  obtain ⟨⟨⟩, u, hcheck, hrest⟩ := bind_eq_ok.mp h
  obtain ⟨file', v, hread, hrebuild⟩ := bind_eq_ok.mp hrest
  rcases checkHeader_spec A (unloaded b) with ⟨hacc, hcheck'⟩ | ⟨-, e, hcheck'⟩
  swap
  · rw [hcheck] at hcheck'
    cases hcheck'
  rw [hcheck] at hcheck'
  cases hcheck'
  rcases readRelocTable_outcome hacc fun _ => false with
    ⟨p, n, hread', -, -⟩ | ⟨⟨e, hread'⟩, -⟩ | ⟨file₁, t₁, hread', -, -, -, -, -, hentries, hrel⟩
  · cases hread.symm.trans hread'
  · cases hread.symm.trans hread'
  · cases hread.symm.trans hread'
    obtain ⟨file₂, hrebuild', hreloc⟩ := rebuildPointers_ok (s := v) hacc.room (by rwa [hrel.bytes])
    rw [hrebuild] at hrebuild'
    cases hrebuild'
    exact hreloc

/-- **Where loading a file stays inside its buffer.** Of every file, at every address, loading
makes no access outside the buffer exactly when the part of the bitmap that is read from before
its place is inside, and so are the entries that are looked at once no slot was refused.
SRCLINE: BinaryFile.cpp:149-221 -/
theorem fromBuffer_inside_iff (A : Allocation) (b : Bytes) :
    (∀ p n, fromBuffer A (unloaded b) ≠ .error (.fault p n)) ↔ LoadsInside A b := by
  unfold LoadsInside
  rcases fromBuffer_outcome A b with ⟨p, n, hrun, hacc, hout⟩ | ⟨⟨e, hrun⟩, hno⟩ |
    ⟨file, t, hrun, hacc, htable, hslots, hclear, hstrings, hentries, -⟩
  · refine iff_of_false (fun h => h p n hrun) fun h => ?_
    obtain ⟨htable, hentries⟩ := h hacc
    rcases hout with hout | ⟨hslots, hclear, hstrings, hout⟩
    · exact hout htable
    · exact hout (hentries hslots hclear hstrings)
  · refine iff_of_true ?_ fun hacc => ?_
    · intro p n h
      rw [hrun] at h
      cases h
    · obtain ⟨htable, hno⟩ := hno hacc
      exact ⟨htable, fun hslots hclear hstrings => absurd ⟨hslots, hclear, hstrings⟩ hno⟩
  · refine iff_of_true ?_ fun _ => ⟨htable, fun _ _ _ => hentries⟩
    intro p n h
    rw [hrun] at h
    cases h

/-- A buffer in the middle of memory. -/
def sampleAllocation (size : ℕ) (h : size < 2 ^ 32) : Allocation :=
  ⟨0x10000, size, by decide, by
    have hbase : (0x10000 : Word).toNat = 0x10000 := by decide
    omega, by omega⟩

/-- A file of one header, whose entry count is one and whose entry table is not relocated. -/
def tableNotRelocated : Bytes :=
  Bytes.ofList [0x30, 0x30, 0x43, 0x44, 1, 0, 0, 0, 32, 0, 0, 0, 32, 0, 0, 0,
    0, 0, 0, 0, 1, 0, 0, 0, 0, 0, 0, 0, 0, 0, 0, 0, 1, 0, 0, 0, 0]

/-- INTERNAL: the entry table that was not relocated is read through a null pointer. -/
theorem fromBuffer_reads_null :
    fromBuffer (sampleAllocation 37 (by decide)) (unloaded tableNotRelocated) =
      .error (.fault 0 8) := rfl

end Soot.Analysis
