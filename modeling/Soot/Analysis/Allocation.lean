import Soot.Model.Heap

/-!
# The allocator keeps its representation

One arena first: a block that is taken was not allocated, a block that is given back is put on
the free list, and there is none only when all are allocated. Arenas lie apart in the region,
so what happens in one leaves the others as they are; from this the same for the whole heap,
for each step of the mutator and the collector, and for their runs.
-/

set_option autoImplicit false

namespace Soot.Analysis

open Soot.Program Soot.Model Soot.Computation

/-! ## One arena -/

variable {m m' : HeapWords} {start size bumped : ℕ} {a a' : Arena} {free : List ℕ}

theorem chain_congr {head : ℕ} {blocks : List ℕ} (h : Chain m head blocks)
    (hm : ∀ block ∈ blocks, m' block = m block) : Chain m' head blocks := by
  induction blocks generalizing head with
  | nil => exact h
  | cons block rest ih =>
    obtain ⟨hhead, hpos, next, hnext, hrest⟩ := h
    refine ⟨hhead, hpos, next, ?_, ih hrest fun b hb => hm b (List.mem_cons_of_mem _ hb)⟩
    rw [hm block List.mem_cons_self, hnext]

theorem isAllocated_set {j : ℕ} {value : Bool} (hj : j < a.bitmap.length) (k : ℕ) :
    (a.setAllocated j value).isAllocated k = if k = j then value else a.isAllocated k := by
  simp only [Arena.isAllocated, Arena.setAllocated, List.getD_eq_getElem?_getD,
    List.getElem?_set]
  by_cases hkj : k = j
  · simp [hkj, hj]
  · simp [hkj, Ne.symm hkj]

theorem write_same (m : HeapWords) (address : ℕ) (word : HeapWord) :
    m.write address word address = word := by simp [HeapWords.write]

theorem write_other (m : HeapWords) {address other : ℕ} (word : HeapWord)
    (h : other ≠ address) : m.write address word other = m other := by
  simp [HeapWords.write, h]

theorem isAllocated_lt {j : ℕ} (h : a.isAllocated j = true) : j < a.bitmap.length := by
  by_contra hlt
  rw [Arena.isAllocated, List.getD_eq_getElem?_getD, List.getElem?_eq_none (by omega)] at h
  cases h

theorem count_set_true {bits : List Bool} {j : ℕ} (hj : j < bits.length)
    (hbit : bits.getD j false = false) : (bits.set j true).count true = bits.count true + 1 := by
  rw [List.getD_eq_getElem?_getD, List.getElem?_eq_getElem hj, Option.getD_some] at hbit
  rw [List.count_set hj, hbit]
  rfl

theorem count_set_false {bits : List Bool} {j : ℕ} (hj : j < bits.length)
    (hbit : bits.getD j false = true) : (bits.set j false).count true + 1 = bits.count true := by
  rw [List.getD_eq_getElem?_getD, List.getElem?_eq_getElem hj, Option.getD_some] at hbit
  have hpos : 0 < bits.count true := by
    rw [List.count_pos_iff, ← hbit]
    exact List.getElem_mem hj
  rw [List.count_set hj, hbit]
  simp
  omega

end Soot.Analysis

namespace Soot.Model.ArenaHolds

open Soot.Program Soot.Analysis

variable {m m' : HeapWords} {start size bumped : ℕ} {a a' : Arena} {free : List ℕ}

theorem block_eq (h : ArenaHolds m start size a bumped free) (j : ℕ) :
    a.block j = start + j * size := by rw [Arena.block, h.dataBegin, h.blockSize]

theorem indexOf_eq (h : ArenaHolds m start size a bumped free) (hsize : 0 < size) (j : ℕ) :
    a.indexOf (start + j * size) = j := by
  rw [Arena.indexOf, h.dataBegin, h.blockSize, Nat.add_sub_cancel_left,
    Nat.mul_div_cancel _ hsize]

theorem owns_block (h : ArenaHolds m start size a bumped free) (hsize : 0 < size) {j : ℕ}
    (hj : j < a.capacity) : a.owns (start + j * size) = true := by
  have hlt : j * size < a.capacity * size := Nat.mul_lt_mul_of_pos_right hj hsize
  simp [Arena.owns, h.dataBegin, h.dataEnd, hlt]

theorem block_injective (hsize : 0 < size) {j k : ℕ} (h : start + j * size = start + k * size) :
    j = k := Nat.eq_of_mul_eq_mul_right hsize (Nat.add_left_cancel h)

theorem congr (h : ArenaHolds m start size a bumped free)
    (hm : ∀ j < a.capacity, m' (start + j * size) = m (start + j * size)) :
    ArenaHolds m' start size a bumped free := by
  refine { h with chain := ?_, live := ?_ }
  · refine chain_congr h.chain ?_
    intro block hblock
    obtain ⟨j, hj, rfl⟩ := List.mem_map.1 hblock
    have := ((h.mem_free j).1 hj).1
    have := h.bumped_le
    exact hm j (by omega)
  · intro j hj
    have := h.allocated_lt j hj
    have := h.bumped_le
    rw [hm j (by omega)]
    exact h.live j hj

theorem writeHeader (h : ArenaHolds m start size a bumped free) (hsize : 0 < size) {j : ℕ}
    (hj : a.isAllocated j = true) {header : GCHeader} (hdead : header.dead = false)
    (hcycle : header.passCycle < 16) :
    ArenaHolds (m.write (start + j * size) (.header header)) start size a bumped free := by
  refine { h with chain := ?_, live := ?_ }
  · refine chain_congr h.chain ?_
    intro block hblock
    obtain ⟨k, hk, rfl⟩ := List.mem_map.1 hblock
    refine write_other m _ fun heq => ?_
    obtain rfl := block_injective hsize heq
    rw [((h.mem_free _).1 hk).2] at hj
    cases hj
  · intro k hk
    by_cases hkj : start + k * size = start + j * size
    · rw [hkj, write_same]
      exact ⟨header, rfl, hdead, hcycle⟩
    · rw [write_other m _ hkj]
      exact h.live k hk

theorem length_free_le (h : ArenaHolds m start size a bumped free) : free.length ≤ a.capacity := by
  have hsub : free ⊆ List.range a.capacity := by
    intro j hj
    have := ((h.mem_free j).1 hj).1
    have := h.bumped_le
    exact List.mem_range.2 (by omega)
  simpa using (h.nodup.subperm hsub).length_le

theorem used_lt (h : ArenaHolds m start size a bumped free) {j : ℕ}
    (hj : a.isAllocated j = false) (hlt : j < a.capacity) : a.used < a.capacity := by
  have hj' : j < a.bitmap.length := by rw [h.bitmap]; exact hlt
  have hcount := count_set_true hj' hj
  have hle := List.count_le_length (l := a.bitmap.set j true) (a := true)
  rw [List.length_set, h.bitmap] at hle
  rw [h.used]
  omega

/-- A block is taken from the free list. -/
theorem allocate_free (h : ArenaHolds m start size a bumped free) (hsize : 0 < size)
    (hbig : a.capacity < 2 ^ 64) (hhead : a.freeHead ≠ 0) (header : GCHeader)
    (hdead : header.dead = false) (hcycle : header.passCycle < 16) :
    ∃ j rest, free = j :: rest ∧ a.freeHead = start + j * size ∧ a.isAllocated j = false ∧
      j < a.capacity ∧
      ArenaHolds (m.write (start + j * size) (.header header)) start size
        ({ a with
          freeHead := (m a.freeHead).asLink
          freeCount := (a.freeCount + (2 ^ 64 - 1)) % 2 ^ 64
          used := (a.used + 1) % 2 ^ 64 }.setAllocated (a.indexOf a.freeHead) true)
        bumped rest := by
  cases free with
  | nil => exact absurd h.chain hhead
  | cons j rest =>
    obtain ⟨hfirst, hpos, next, hnext, hrest⟩ := h.chain
    obtain ⟨hlt, hfree⟩ := (h.mem_free j).1 List.mem_cons_self
    have hcap : j < a.capacity := by have := h.bumped_le; omega
    have hj : j < a.bitmap.length := by rw [h.bitmap]; exact hcap
    have hindex : a.indexOf a.freeHead = j := by rw [hfirst]; exact h.indexOf_eq hsize j
    have hlink : (m a.freeHead).asLink = next := by rw [hfirst, hnext]; rfl
    obtain ⟨hnot, hnodup⟩ := List.nodup_cons.1 h.nodup
    have hset : ∀ k, (a.setAllocated j true).isAllocated k =
        if k = j then true else a.isAllocated k := isAllocated_set hj
    have hused := h.used_lt hfree hcap
    have hcount := h.freeCount
    rw [List.length_cons] at hcount
    have hlength := h.length_free_le
    rw [List.length_cons] at hlength
    refine ⟨j, rest, rfl, hfirst, hfree, hcap, ?_⟩
    rw [hindex, hlink]
    exact
      { dataBegin := h.dataBegin
        dataEnd := h.dataEnd
        blockSize := h.blockSize
        bitmap := by rw [← h.bitmap]; exact List.length_set
        bump := h.bump
        bumped_le := h.bumped_le
        nodup := hnodup
        allocated_lt := by
          intro k hk
          by_cases hkj : k = j
          · omega
          · refine h.allocated_lt k ?_
            rw [← hk]
            exact ((hset k).trans (if_neg hkj)).symm
        chain := by
          refine chain_congr hrest ?_
          intro block hblock
          obtain ⟨k, hk, rfl⟩ := List.mem_map.1 hblock
          refine write_other m _ fun heq => hnot ?_
          rw [← block_injective hsize heq]
          exact hk
        mem_free := by
          intro k
          have hk := h.mem_free k
          rw [List.mem_cons] at hk
          change k ∈ rest ↔ k < bumped ∧ (a.setAllocated j true).isAllocated k = false
          rw [hset k]
          by_cases hkj : k = j
          · simp [hkj, hnot]
          · simpa [hkj] using hk
        freeCount := by
          change (a.freeCount + (2 ^ 64 - 1)) % 2 ^ 64 = rest.length
          omega
        used := by
          change (a.used + 1) % 2 ^ 64 = (a.bitmap.set j true).count true
          rw [count_set_true hj hfree, ← h.used, Nat.mod_eq_of_lt (by omega)]
        live := by
          intro k hk
          by_cases hkj : k = j
          · rw [hkj, write_same]
            exact ⟨header, rfl, hdead, hcycle⟩
          · rw [write_other m _ fun heq => hkj (block_injective hsize heq)]
            refine h.live k ?_
            rw [← hk]
            exact ((hset k).trans (if_neg hkj)).symm }

theorem freeHead_eq_zero (h : ArenaHolds m start size a bumped free) (hhead : a.freeHead = 0) :
    free = [] := by
  cases free with
  | nil => rfl
  | cons j rest =>
    obtain ⟨hfirst, hpos, _⟩ := h.chain
    exact absurd (hfirst.symm.trans hhead) hpos

/-- A block that was never used is taken. -/
theorem allocate_bump (h : ArenaHolds m start size a bumped free) (hsize : 0 < size)
    (hbig : a.capacity < 2 ^ 64) (hbump : bumped < a.capacity) (header : GCHeader)
    (hdead : header.dead = false) (hcycle : header.passCycle < 16) :
    a.isAllocated bumped = false ∧
      ArenaHolds (m.write (start + bumped * size) (.header header)) start size
        ({ a with
          bump := a.bump + a.blockSize
          used := (a.used + 1) % 2 ^ 64 }.setAllocated (a.indexOf a.bump) true)
        (bumped + 1) free := by
  have hj : bumped < a.bitmap.length := by rw [h.bitmap]; exact hbump
  have hindex : a.indexOf a.bump = bumped := by rw [h.bump]; exact h.indexOf_eq hsize bumped
  have hnew : a.isAllocated bumped = false := by
    rw [← Bool.not_eq_true]
    intro hbit
    exact absurd (h.allocated_lt bumped hbit) (lt_irrefl _)
  have hset : ∀ k, (a.setAllocated bumped true).isAllocated k =
      if k = bumped then true else a.isAllocated k := isAllocated_set hj
  have hused := h.used_lt hnew hbump
  have hnot : bumped ∉ free := fun hmem => absurd ((h.mem_free bumped).1 hmem).1 (lt_irrefl _)
  refine ⟨hnew, ?_⟩
  rw [hindex]
  exact
    { dataBegin := h.dataBegin
      dataEnd := h.dataEnd
      blockSize := h.blockSize
      bitmap := by rw [← h.bitmap]; exact List.length_set
      bump := by
        change a.bump + a.blockSize = start + (bumped + 1) * size
        rw [h.bump, h.blockSize, Nat.succ_mul, Nat.add_assoc]
      bumped_le := hbump
      nodup := h.nodup
      allocated_lt := by
        intro k hk
        by_cases hkj : k = bumped
        · omega
        · have := h.allocated_lt k (by rw [← hk]; exact ((hset k).trans (if_neg hkj)).symm)
          omega
      chain := by
        refine chain_congr h.chain ?_
        intro block hblock
        obtain ⟨k, hk, rfl⟩ := List.mem_map.1 hblock
        refine write_other m _ fun heq => hnot ?_
        rw [← block_injective hsize heq]
        exact hk
      mem_free := by
        intro k
        have hk := h.mem_free k
        change k ∈ free ↔ k < bumped + 1 ∧ (a.setAllocated bumped true).isAllocated k = false
        rw [hset k]
        by_cases hkj : k = bumped
        · simp [hkj, hnot]
        · rw [hk, if_neg hkj]
          have : k < bumped + 1 ↔ k < bumped := by omega
          rw [this]
      freeCount := h.freeCount
      used := by
        change (a.used + 1) % 2 ^ 64 = (a.bitmap.set bumped true).count true
        rw [count_set_true hj hnew, ← h.used, Nat.mod_eq_of_lt (by omega)]
      live := by
        intro k hk
        by_cases hkj : k = bumped
        · rw [hkj, write_same]
          exact ⟨header, rfl, hdead, hcycle⟩
        · rw [write_other m _ fun heq => hkj (block_injective hsize heq)]
          exact h.live k (by rw [← hk]; exact ((hset k).trans (if_neg hkj)).symm) }

theorem allocate (h : ArenaHolds m start size a bumped free) (hsize : 0 < size)
    (hbig : a.capacity < 2 ^ 64) {block : ℕ} (halloc : a.allocate m = some (block, a')) :
    a'.capacity = a.capacity ∧ ∃ j, block = start + j * size ∧ j < a.capacity ∧
      a.isAllocated j = false ∧
      (∀ k, a'.isAllocated k = if k = j then true else a.isAllocated k) ∧
      ∀ header : GCHeader, header.dead = false → header.passCycle < 16 →
        ∃ bumped free, ArenaHolds (m.write block (.header header)) start size a' bumped free := by
  rw [Arena.allocate] at halloc
  by_cases hhead : a.freeHead ≠ 0
  · rw [if_pos hhead, Option.some.injEq, Prod.mk.injEq] at halloc
    obtain ⟨rfl, rfl⟩ := halloc
    obtain ⟨j, rest, _, hblock, hfree, hcap, _⟩ :=
      h.allocate_free hsize hbig hhead ⟨0, false, false, 0, 0⟩ rfl (by decide)
    have hj : j < a.bitmap.length := by rw [h.bitmap]; exact hcap
    have hindex : a.indexOf a.freeHead = j := by rw [hblock]; exact h.indexOf_eq hsize j
    refine ⟨rfl, j, hblock, hcap, hfree, ?_, ?_⟩
    · rw [hindex]
      exact isAllocated_set hj
    · intro header hdead hcycle
      obtain ⟨_, rest, _, hblock', _, _, hholds⟩ := h.allocate_free hsize hbig hhead header hdead hcycle
      rw [← hblock'] at hholds
      exact ⟨bumped, rest, hholds⟩
  · rw [if_neg hhead] at halloc
    by_cases hroom : a.bump + a.blockSize ≤ a.dataEnd
    · rw [if_pos hroom, Option.some.injEq, Prod.mk.injEq] at halloc
      obtain ⟨rfl, rfl⟩ := halloc
      rw [h.bump, h.blockSize, h.dataEnd, Nat.add_assoc, ← Nat.succ_mul,
        Nat.add_le_add_iff_left] at hroom
      have hbump : bumped < a.capacity := Nat.le_of_mul_le_mul_right hroom hsize
      have hj : bumped < a.bitmap.length := by rw [h.bitmap]; exact hbump
      have hindex : a.indexOf a.bump = bumped := by rw [h.bump]; exact h.indexOf_eq hsize bumped
      refine ⟨rfl, bumped, h.bump, hbump, ?_, ?_, ?_⟩
      · exact (h.allocate_bump hsize hbig hbump ⟨0, false, false, 0, 0⟩ rfl (by decide)).1
      · rw [hindex]
        exact isAllocated_set hj
      · intro header hdead hcycle
        have hholds := (h.allocate_bump hsize hbig hbump header hdead hcycle).2
        rw [h.bump]
        rw [h.bump] at hholds
        exact ⟨bumped + 1, free, hholds⟩
    · rw [if_neg hroom] at halloc
      cases halloc

theorem allocate_none (h : ArenaHolds m start size a bumped free)
    (halloc : a.allocate m = none) (j : ℕ) (hj : j < a.capacity) : a.isAllocated j = true := by
  rw [Arena.allocate] at halloc
  by_cases hhead : a.freeHead ≠ 0
  · rw [if_pos hhead] at halloc
    cases halloc
  rw [if_neg hhead] at halloc
  by_cases hroom : a.bump + a.blockSize ≤ a.dataEnd
  · rw [if_pos hroom] at halloc
    cases halloc
  rw [h.bump, h.blockSize, h.dataEnd, Nat.add_assoc, ← Nat.succ_mul, Nat.add_le_add_iff_left]
    at hroom
  have hbumped : ¬ bumped + 1 ≤ a.capacity := fun hle => hroom (Nat.mul_le_mul_right size hle)
  have hempty := h.freeHead_eq_zero (by simpa using hhead)
  have hmem := h.mem_free j
  rw [hempty] at hmem
  by_contra hbit
  have := hmem.2 ⟨by omega, by simpa using hbit⟩
  cases this

/-- A live block is put on the free list. -/
theorem deallocate (h : ArenaHolds m start size a bumped free) (hsize : 0 < size)
    (hstart : 0 < start) (hbig : a.capacity < 2 ^ 64) {j : ℕ} (hbit : a.isAllocated j = true) :
    a.deallocate m (start + j * size) =
      ({ a with
          freeHead := start + j * size
          freeCount := (a.freeCount + 1) % 2 ^ 64
          used := (a.used + (2 ^ 64 - 1)) % 2 ^ 64 }.setAllocated j false,
        m.write (start + j * size) (.link a.freeHead)) ∧
      ArenaHolds (a.deallocate m (start + j * size)).2 start size
        (a.deallocate m (start + j * size)).1 bumped (j :: free) := by
  have hlt := h.allocated_lt j hbit
  have hcap : j < a.capacity := by have := h.bumped_le; omega
  have hj : j < a.bitmap.length := by rw [h.bitmap]; exact hcap
  have heq : a.deallocate m (start + j * size) =
      ({ a with
          freeHead := start + j * size
          freeCount := (a.freeCount + 1) % 2 ^ 64
          used := (a.used + (2 ^ 64 - 1)) % 2 ^ 64 }.setAllocated j false,
        m.write (start + j * size) (.link a.freeHead)) := by
    rw [Arena.deallocate, if_pos (h.owns_block hsize hcap), h.indexOf_eq hsize j]
  refine ⟨heq, ?_⟩
  rw [heq]
  have hset : ∀ k, (a.setAllocated j false).isAllocated k =
      if k = j then false else a.isAllocated k := isAllocated_set hj
  have hback : ∀ k, (a.setAllocated j false).isAllocated k = true →
      k ≠ j ∧ a.isAllocated k = true := by
    intro k hk
    rw [hset k] at hk
    by_cases hkj : k = j
    · rw [if_pos hkj] at hk
      cases hk
    · rw [if_neg hkj] at hk
      exact ⟨hkj, hk⟩
  have hnot : j ∉ free := by
    intro hmem
    rw [((h.mem_free j).1 hmem).2] at hbit
    cases hbit
  have hcount := count_set_false hj hbit
  have hlength : (j :: free).length ≤ a.capacity := by
    have hsub : (j :: free) ⊆ List.range a.capacity := by
      intro k hk
      rcases List.mem_cons.1 hk with rfl | hk
      · exact List.mem_range.2 hcap
      · have := ((h.mem_free k).1 hk).1
        have := h.bumped_le
        exact List.mem_range.2 (by omega)
    have hnodup : (j :: free).Nodup := List.nodup_cons.2 ⟨hnot, h.nodup⟩
    simpa using (hnodup.subperm hsub).length_le
  have hused : a.used ≤ a.capacity := by
    rw [h.used, ← h.bitmap]
    exact List.count_le_length
  exact
    { dataBegin := h.dataBegin
      dataEnd := h.dataEnd
      blockSize := h.blockSize
      bitmap := by rw [← h.bitmap]; exact List.length_set
      bump := h.bump
      bumped_le := h.bumped_le
      nodup := List.nodup_cons.2 ⟨hnot, h.nodup⟩
      allocated_lt := fun k hk => h.allocated_lt k (hback k hk).2
      chain := by
        refine ⟨rfl, Nat.ne_of_gt (Nat.add_pos_left hstart _), a.freeHead, write_same _ _ _,
          chain_congr h.chain ?_⟩
        intro block hblock
        obtain ⟨k, hk, rfl⟩ := List.mem_map.1 hblock
        refine write_other m _ fun heq => hnot ?_
        rw [← block_injective hsize heq]
        exact hk
      mem_free := by
        intro k
        have hk := h.mem_free k
        change k ∈ j :: free ↔ k < bumped ∧ (a.setAllocated j false).isAllocated k = false
        rw [hset k, List.mem_cons, hk]
        by_cases hkj : k = j
        · simp [hkj, hlt]
        · simp [hkj]
      freeCount := by
        change (a.freeCount + 1) % 2 ^ 64 = (j :: free).length
        rw [List.length_cons] at hlength ⊢
        rw [h.freeCount, Nat.mod_eq_of_lt (by omega)]
      used := by
        change (a.used + (2 ^ 64 - 1)) % 2 ^ 64 = (a.bitmap.set j false).count true
        have := h.used
        omega
      live := by
        intro k hk
        obtain ⟨hkj, hbit'⟩ := hback k hk
        change LiveHeader (m.write (start + j * size) (.link a.freeHead) (start + k * size))
        rw [write_other m _ fun heq => hkj (block_injective hsize heq)]
        exact h.live k hbit' }

end Soot.Model.ArenaHolds

/-! ## All arenas -/

namespace Soot.Analysis

open Soot.Program Soot.Model Soot.Computation

variable {m m' : HeapWords} {s s' : ArenaManager} {entry : ℕ × Arena} {i : ℕ}

theorem arenaSize_eq : ArenaManager.arenaSize = 1048576 := rfl

theorem classSize_spec {index : ℕ} (h : index < sizeClasses.length) :
    16 ≤ classSize index ∧ classSize index ≤ 4096 ∧ 16 ∣ classSize index ∧
      classSize index ∣ 4096 := by
  revert index
  decide

theorem arenaStart_succ (s : ArenaManager) (i : ℕ) :
    arenaStart s (i + 1) = arenaStart s i + ArenaManager.arenaSize := by
  rw [arenaStart, arenaStart, Nat.succ_mul, Nat.add_assoc]

theorem arenaStart_mono {j : ℕ} (h : i ≤ j) : arenaStart s i ≤ arenaStart s j :=
  Nat.add_le_add_left (Nat.mul_le_mul_right _ h) _

theorem lt_length_of_getElem? {α : Type} {l : List α} {x : α} (h : l[i]? = some x) :
    i < l.length := by
  by_contra hlt
  rw [List.getElem?_eq_none (by omega)] at h
  cases h

theorem ArenaAt.size_pos (h : ArenaAt s m i entry) : 0 < classSize entry.1 :=
  Nat.lt_of_lt_of_le (by decide) (classSize_spec h.1).1

theorem ArenaAt.capacity_lt (h : ArenaAt s m i entry) : entry.2.capacity < 2 ^ 64 := by
  have hcapacity := h.2.1
  rw [arenaSize_eq] at hcapacity
  have := Nat.le_mul_of_pos_right entry.2.capacity (ArenaAt.size_pos h)
  omega

theorem ArenaAt.block_eq (h : ArenaAt s m i entry) (j : ℕ) :
    entry.2.block j = arenaStart s i + j * classSize entry.1 := by
  obtain ⟨_, _, hholds⟩ := h.2.2
  exact hholds.block_eq j

theorem ArenaAt.lt_capacity (h : ArenaAt s m i entry) {j : ℕ} (hj : entry.2.isAllocated j = true) :
    j < entry.2.capacity := by
  obtain ⟨_, _, hholds⟩ := h.2.2
  rw [← hholds.bitmap]
  exact isAllocated_lt hj

theorem ArenaAt.block_range (h : ArenaAt s m i entry) {j : ℕ} (hj : j < entry.2.capacity) :
    arenaStart s i ≤ entry.2.block j ∧
      entry.2.block j + classSize entry.1 ≤ arenaStart s (i + 1) := by
  have hmul : (j + 1) * classSize entry.1 ≤ entry.2.capacity * classSize entry.1 :=
    Nat.mul_le_mul_right _ hj
  rw [h.2.1, Nat.succ_mul] at hmul
  rw [ArenaAt.block_eq h j, arenaStart_succ]
  omega

theorem HeapHolds.start_pos (h : HeapHolds s m) (hi : s.arenas[i]? = some entry) :
    0 < arenaStart s i := by
  have hlen := lt_length_of_getElem? hi
  have hmono : arenaStart s (i + 1) ≤ arenaStart s s.arenas.length := arenaStart_mono hlen
  have hbump := h.bump
  have hfits := h.fits
  have hplaced := h.placed
  rw [arenaStart_succ] at hmono
  simp only [arenaStart, arenaSize_eq] at *
  omega

theorem HeapHolds.place_unique (h : HeapHolds s m) {i' j j' : ℕ} {entry' : ℕ × Arena}
    (hi : s.arenas[i]? = some entry) (hi' : s.arenas[i']? = some entry')
    (hj : j < entry.2.capacity) (hj' : j' < entry'.2.capacity)
    (hblock : entry.2.block j = entry'.2.block j') : i = i' ∧ j = j' := by
  have hat := h.arenas i entry hi
  have hat' := h.arenas i' entry' hi'
  have hrange := ArenaAt.block_range hat hj
  have hrange' := ArenaAt.block_range hat' hj'
  have hsize := ArenaAt.size_pos hat
  have hsize' := ArenaAt.size_pos hat'
  rcases Nat.lt_trichotomy i i' with hlt | rfl | hlt
  · have hmono : arenaStart s (i + 1) ≤ arenaStart s i' := arenaStart_mono hlt
    omega
  · rw [hi, Option.some.injEq] at hi'
    subst hi'
    rw [ArenaAt.block_eq hat, ArenaAt.block_eq hat] at hblock
    exact ⟨rfl, ArenaHolds.block_injective hsize hblock⟩
  · have hmono : arenaStart s (i' + 1) ≤ arenaStart s i := arenaStart_mono hlt
    omega

theorem getElem?_setArena (s : ArenaManager) (i : ℕ) (a : Arena) (k : ℕ) :
    (s.setArena i a).arenas[k]? =
      (s.arenas[k]?).map fun entry => if k = i then (entry.1, a) else entry := by
  rw [ArenaManager.setArena, List.getElem?_modify]
  by_cases hk : i = k
  · subst hk
    simp
  · simp [hk, Ne.symm hk]

theorem HeapHolds.update (h : HeapHolds s m) {a : Arena} (hi : s.arenas[i]? = some entry)
    (hcapacity : a.capacity = entry.2.capacity)
    (hnew : ∃ bumped free,
      ArenaHolds m' (arenaStart s i) (classSize entry.1) a bumped free)
    (hframe : ∀ address, address < arenaStart s i ∨ arenaStart s (i + 1) ≤ address →
      m' address = m address) : HeapHolds (s.setArena i a) m' := by
  refine ⟨h.aligned, h.placed, ?_, h.fits, ?_⟩
  · have hbump := h.bump
    simpa [ArenaManager.setArena, arenaStart] using hbump
  · intro k entry' hk
    rw [getElem?_setArena, Option.map_eq_some_iff] at hk
    obtain ⟨old, hold, rfl⟩ := hk
    have hat := h.arenas k old hold
    by_cases hki : k = i
    · subst hki
      rw [hi, Option.some.injEq] at hold
      subst hold
      rw [if_pos rfl]
      exact ⟨hat.1, by rw [hcapacity]; exact hat.2.1, hnew⟩
    · rw [if_neg hki]
      obtain ⟨hclass, hcap, bumped, free, hholds⟩ := hat
      refine ⟨hclass, hcap, bumped, free, hholds.congr ?_⟩
      intro j hj
      have hrange := ArenaAt.block_range (h.arenas k old hold) hj
      rw [ArenaAt.block_eq (h.arenas k old hold)] at hrange
      have hpos := ArenaAt.size_pos (h.arenas k old hold)
      refine hframe _ ?_
      rcases Nat.lt_or_gt_of_ne hki with hlt | hlt
      · have hmono : arenaStart s (k + 1) ≤ arenaStart s i := arenaStart_mono hlt
        omega
      · have hmono : arenaStart s (i + 1) ≤ arenaStart s k := arenaStart_mono hlt
        omega

theorem liveBlock_setArena {a : Arena} {block : ℕ} :
    LiveBlock (s.setArena i a) block ↔
      (∃ (k : ℕ) (entry : ℕ × Arena) (j : ℕ), k ≠ i ∧ s.arenas[k]? = some entry ∧
        entry.2.isAllocated j = true ∧ block = entry.2.block j) ∨
      ∃ (entry : ℕ × Arena) (j : ℕ), s.arenas[i]? = some entry ∧ a.isAllocated j = true ∧
        block = a.block j := by
  constructor
  · rintro ⟨k, entry, j, hk, hj, rfl⟩
    rw [getElem?_setArena, Option.map_eq_some_iff] at hk
    obtain ⟨old, hold, rfl⟩ := hk
    by_cases hki : k = i
    · subst hki
      rw [if_pos rfl] at hj
      rw [if_pos rfl]
      exact .inr ⟨old, j, hold, hj, rfl⟩
    · rw [if_neg hki] at hj
      rw [if_neg hki]
      exact .inl ⟨k, old, j, hki, hold, hj, rfl⟩
  · rintro (⟨k, entry, j, hki, hk, hj, rfl⟩ | ⟨entry, j, hi, hj, rfl⟩)
    · refine ⟨k, entry, j, ?_, hj, rfl⟩
      rw [getElem?_setArena, hk, Option.map_some, if_neg hki]
    · refine ⟨i, (entry.1, a), j, ?_, hj, rfl⟩
      rw [getElem?_setArena, hi, Option.map_some, if_pos rfl]

theorem HeapHolds.allocateFrom (h : HeapHolds s m) {block : ℕ}
    (halloc : s.allocateFrom m i = some (block, s')) :
    ¬ LiveBlock s block ∧ (∀ other, LiveBlock s' other ↔ LiveBlock s other ∨ other = block) ∧
      block % 16 = 0 ∧ 0 < block ∧ s'.regionStart = s.regionStart ∧ s'.regionEnd = s.regionEnd ∧
      s.owns block = true ∧
      ∀ header : GCHeader, header.dead = false → header.passCycle < 16 →
        HeapHolds s' (m.write block (.header header)) := by
  rw [ArenaManager.allocateFrom, Option.bind_eq_some_iff] at halloc
  obtain ⟨entry, hi, halloc⟩ := halloc
  rw [Option.map_eq_some_iff] at halloc
  obtain ⟨⟨_, a⟩, harena, heq⟩ := halloc
  rw [Prod.mk.injEq] at heq
  obtain ⟨rfl, rfl⟩ := heq
  have hat := h.arenas i entry hi
  obtain ⟨hclass, _, bumped, free, hholds⟩ := hat
  have hat := h.arenas i entry hi
  have hsize := ArenaAt.size_pos hat
  obtain ⟨hcap, j, rfl, hj, hfree, hset, hwrite⟩ :=
    hholds.allocate hsize (ArenaAt.capacity_lt hat) harena
  obtain ⟨_, _, hnew⟩ := hwrite ⟨0, false, false, 0, 0⟩ rfl (by decide)
  have hblock := ArenaAt.block_eq hat j
  have hrange := ArenaAt.block_range hat hj
  have hstart := HeapHolds.start_pos h hi
  have hlen := lt_length_of_getElem? hi
  have hmono : arenaStart s (i + 1) ≤ arenaStart s s.arenas.length := arenaStart_mono hlen
  have hbump := h.bump
  have hfits := h.fits
  refine ⟨?_, ?_, ?_, by dsimp only; omega, rfl, rfl, ?_, ?_⟩
  · rintro ⟨k, other, l, hk, hl, heq⟩
    have hother := ArenaAt.lt_capacity (h.arenas k other hk) hl
    rw [← hblock] at heq
    obtain ⟨rfl, rfl⟩ := HeapHolds.place_unique h hi hk hj hother heq
    rw [hi, Option.some.injEq] at hk
    subst hk
    rw [hfree] at hl
    cases hl
  · intro other
    have hset' : ∀ k, a.block k = entry.2.block k := by
      intro k
      rw [hnew.block_eq, hholds.block_eq]
    rw [liveBlock_setArena]
    constructor
    · rintro (⟨k, old, l, _, hk, hl, rfl⟩ | ⟨old, l, hk, hl, rfl⟩)
      · exact .inl ⟨k, old, l, hk, hl, rfl⟩
      · rw [hset l] at hl
        by_cases hlj : l = j
        · right
          dsimp only
          rw [hset', hlj, hblock]
        · rw [if_neg hlj] at hl
          exact .inl ⟨i, entry, l, hi, hl, hset' l⟩
    · rintro (⟨k, old, l, hk, hl, rfl⟩ | rfl)
      · by_cases hki : k = i
        · subst hki
          rw [hi, Option.some.injEq] at hk
          subst hk
          refine .inr ⟨entry, l, hi, ?_, (hset' l).symm⟩
          rw [hset l, hl]
          simp
        · exact .inl ⟨k, old, l, hki, hk, hl, rfl⟩
      · refine .inr ⟨entry, j, hi, ?_, (hnew.block_eq j).symm⟩
        rw [hset j, if_pos rfl]
  · have haligned := h.aligned
    obtain ⟨c, hc⟩ := (classSize_spec hclass).2.2.1
    have hstart : arenaStart s i % 16 = 0 := by
      simp only [arenaStart, arenaSize_eq]
      omega
    rw [Nat.add_mod, hstart, hc, Nat.mul_left_comm, Nat.mul_mod_right]
  · have hbase : s.regionStart ≤ arenaStart s i := Nat.le_add_right _ _
    have hregion : s.regionStart ≤ arenaStart s i + j * classSize entry.1 := by omega
    have hend : arenaStart s i + j * classSize entry.1 < s.regionEnd := by omega
    simp [ArenaManager.owns, hregion, hend]
  · intro header hdead hcycle
    refine HeapHolds.update h hi hcap (hwrite header hdead hcycle) ?_
    intro address haddress
    refine write_other m _ ?_
    dsimp only
    omega

theorem newArena_holds (m : HeapWords) {start size : ℕ} (hsize : 0 < size) (hstart : size ∣ start)
    (harena : size ∣ ArenaManager.arenaSize) :
    ArenaHolds m start size (Arena.new start (start + ArenaManager.arenaSize) size size) 0 [] ∧
      (Arena.new start (start + ArenaManager.arenaSize) size size).capacity * size =
        ArenaManager.arenaSize := by
  obtain ⟨c, rfl⟩ := hstart
  obtain ⟨d, hd⟩ := harena
  have hround : (size * c + size - 1) / size * size = size * c := by
    have : (size * c + size - 1) / size = c := by
      rw [Nat.add_sub_assoc hsize, Nat.mul_add_div hsize, Nat.div_eq_of_lt (by omega), Nat.add_zero]
    rw [this, Nat.mul_comm]
  have hend : (size * c + size * d) / size * size = size * c + size * d := by
    rw [← Nat.mul_add, Nat.mul_div_cancel_left _ hsize, Nat.mul_comm]
  have hd0 : 0 < d := by
    rw [arenaSize_eq] at hd
    rcases Nat.eq_zero_or_pos d with rfl | hpos
    · cases hd
    · exact hpos
  have hpos : 0 < size * d := Nat.mul_pos hsize hd0
  have hnew : Arena.new (size * c) (size * c + ArenaManager.arenaSize) size size =
      ⟨size * c, size * c + d * size, size * c, 0, size, d, 0, 0, List.replicate d false⟩ := by
    rw [Arena.new, hd]
    simp only [hround, hend]
    rw [if_neg (by omega), Nat.add_sub_cancel_left, Nat.mul_div_cancel_left _ hsize]
  have hnone : ∀ j, (List.replicate d false).getD j false = false := by
    intro j
    rw [List.getD_eq_getElem?_getD, List.getElem?_replicate]
    split <;> rfl
  rw [hnew]
  refine ⟨?_, by rw [hd, Nat.mul_comm]⟩
  exact
    { dataBegin := rfl
      dataEnd := rfl
      blockSize := rfl
      bitmap := List.length_replicate
      bump := by simp
      bumped_le := Nat.zero_le _
      allocated_lt := by
        intro j hj
        rw [Arena.isAllocated, hnone j] at hj
        cases hj
      nodup := List.nodup_nil
      chain := rfl
      mem_free := by simp
      freeCount := rfl
      used := by simp [List.count_replicate]
      live := by
        intro j hj
        rw [Arena.isAllocated, hnone j] at hj
        cases hj }

/-- A new arena is added. -/
theorem HeapHolds.growClass (h : HeapHolds s m) {index : ℕ} (hclass : index < sizeClasses.length)
    (hgrow : s.growClass index = some s') :
    HeapHolds s' m ∧ s'.regionStart = s.regionStart ∧ s'.regionEnd = s.regionEnd ∧
      (∀ block, LiveBlock s' block ↔ LiveBlock s block) ∧
      ∃ a, s'.arenas = s.arenas ++ [(index, a)] ∧
        ∀ j < a.capacity, a.isAllocated j = false := by
  obtain ⟨hsmall, hlarge, h16, hpage⟩ := classSize_spec hclass
  have hsize : 0 < classSize index := by omega
  have hdef : sizeClasses.getD index 0 = classSize index := rfl
  rw [ArenaManager.growClass] at hgrow
  simp only [hdef, if_neg (show ¬ ArenaManager.arenaSize / 8 < classSize index by
    rw [arenaSize_eq]; omega), if_neg (show ¬ classSize index < 16 by omega)] at hgrow
  by_cases hroom : s.regionEnd - s.bump < ArenaManager.arenaSize
  · rw [if_pos hroom] at hgrow
    cases hgrow
  rw [if_neg hroom, Option.some.injEq] at hgrow
  subst hgrow
  have haligned : 4096 ∣ arenaStart s s.arenas.length := by
    have haligned := h.aligned
    refine Nat.dvd_of_mod_eq_zero ?_
    simp only [arenaStart, arenaSize_eq]
    omega
  have hdvd : classSize index ∣ ArenaManager.arenaSize :=
    Nat.dvd_trans hpage (by rw [arenaSize_eq]; decide)
  obtain ⟨hholds, hcapacity⟩ := newArena_holds m hsize (Nat.dvd_trans hpage haligned) hdvd
  have hfits := h.fits
  have hbump := h.bump
  rw [← hbump] at hholds hcapacity
  have hlast : ∀ (k : ℕ) (entry : ℕ × Arena) (a : Arena),
      (s.arenas ++ [(index, a)])[k]? = some entry →
        s.arenas[k]? = some entry ∨ k = s.arenas.length ∧ entry = (index, a) := by
    intro k entry a hk
    by_cases hlt : k < s.arenas.length
    · rw [List.getElem?_append_left hlt] at hk
      exact .inl hk
    · rw [List.getElem?_append_right (by omega)] at hk
      have hzero : k - s.arenas.length < 1 := lt_length_of_getElem? hk
      have hkey : k = s.arenas.length := by omega
      subst hkey
      simp at hk
      exact .inr ⟨rfl, hk.symm⟩
  have hnone : ∀ (j : ℕ), (Arena.new s.bump (s.bump + ArenaManager.arenaSize) (classSize index)
      (classSize index)).isAllocated j = false := by
    intro j
    rw [← Bool.not_eq_true]
    intro hj
    exact absurd (hholds.allocated_lt j hj) (Nat.not_lt_zero j)
  refine ⟨⟨h.aligned, h.placed, ?_, ?_, ?_⟩, rfl, rfl, ?_, _, rfl, fun j _ => hnone j⟩
  · rw [List.length_append, List.length_singleton, arenaStart_succ]
    change s.bump + _ = arenaStart s s.arenas.length + _
    rw [hbump]
  · change s.bump + ArenaManager.arenaSize ≤ s.regionEnd
    omega
  · intro k entry hk
    rcases hlast k entry _ hk with hold | ⟨rfl, rfl⟩
    · exact h.arenas k entry hold
    · refine ⟨hclass, hcapacity, 0, [], ?_⟩
      change ArenaHolds m (arenaStart s s.arenas.length) _ _ _ _
      rw [← hbump]
      exact hholds
  · intro block
    constructor
    · rintro ⟨k, entry, j, hk, hj, rfl⟩
      rcases hlast k entry _ hk with hold | ⟨rfl, rfl⟩
      · exact ⟨k, entry, j, hold, hj, rfl⟩
      · rw [hnone j] at hj
        cases hj
    · rintro ⟨k, entry, j, hk, hj, rfl⟩
      refine ⟨k, entry, j, ?_, hj, rfl⟩
      rw [List.getElem?_append_left (lt_length_of_getElem? hk)]
      exact hk

theorem sizeClassFor_lt {size index : ℕ} (h : sizeClassFor size = some index) :
    index < sizeClasses.length := by
  rw [sizeClassFor, List.findIdx?_eq_some_iff_getElem] at h
  exact h.1

theorem sizeClassFor_le {size index : ℕ} (h : sizeClassFor size = some index) :
    size ≤ classSize index := by
  rw [sizeClassFor, List.findIdx?_eq_some_iff_getElem] at h
  obtain ⟨hlt, hle, _⟩ := h
  rw [classSize, List.getD_eq_getElem?_getD, List.getElem?_eq_getElem hlt]
  simpa using hle

/-- A block that is handed out: it was not allocated and is what becomes so. -/
structure HandedOut (s : ArenaManager) (m : HeapWords) (block : ℕ) (s' : ArenaManager) : Prop where
  fresh : ¬ LiveBlock s block
  liveBlock : ∀ other, LiveBlock s' other ↔ LiveBlock s other ∨ other = block
  aligned : block % 16 = 0
  pos : 0 < block
  regionStart : s'.regionStart = s.regionStart
  regionEnd : s'.regionEnd = s.regionEnd
  owned : s.owns block = true
  holds : ∀ header : GCHeader, header.dead = false → header.passCycle < 16 →
    HeapHolds s' (m.write block (.header header))

theorem HeapHolds.handedOut (h : HeapHolds s m) {block : ℕ}
    (halloc : s.allocateFrom m i = some (block, s')) : HandedOut s m block s' := by
  obtain ⟨hfresh, hlive, haligned, hpos, hstart, hend, howned, hholds⟩ :=
    HeapHolds.allocateFrom h halloc
  exact ⟨hfresh, hlive, haligned, hpos, hstart, hend, howned, hholds⟩

theorem HeapHolds.lastFull (h : HeapHolds s m) {index : ℕ}
    (hnone : (s.lastOfClass index).bind (s.allocateFrom m) = none) : LastFull s index := by
  intro i entry hlast hi j hj
  rw [hlast, Option.bind_some, ArenaManager.allocateFrom, hi, Option.bind_some,
    Option.map_eq_none_iff] at hnone
  obtain ⟨_, _, hholds⟩ := (h.arenas i entry hi).2.2
  exact hholds.allocate_none hnone j hj

/-- A block is handed out, or there is none, in the last arena of the class or in a
new one. -/
theorem HeapHolds.allocate (h : HeapHolds s m) {size : ℕ} {result : Option ℕ}
    (halloc : s.allocate m size = (s', result)) :
    match result with
    | some block => HandedOut s m block s'
    | none => s' = s ∧ (4096 < size ∨ ∃ index, sizeClassFor size = some index ∧
        LastFull s index ∧ s.regionEnd - s.bump < ArenaManager.arenaSize) := by
  rw [ArenaManager.allocate] at halloc
  cases hclass : sizeClassFor size with
  | none =>
    simp only [hclass, Prod.mk.injEq] at halloc
    obtain ⟨rfl, rfl⟩ := halloc
    refine ⟨rfl, .inl ?_⟩
    rw [sizeClassFor, List.findIdx?_eq_none_iff] at hclass
    have := hclass 4096 (by decide)
    simpa using this
  | some index =>
    have hlt := sizeClassFor_lt hclass
    simp only [hclass] at halloc
    cases hlast : (s.lastOfClass index).bind (s.allocateFrom m) with
    | some taken =>
      obtain ⟨block, taken⟩ := taken
      simp only [hlast, Prod.mk.injEq] at halloc
      obtain ⟨rfl, rfl⟩ := halloc
      rw [Option.bind_eq_some_iff] at hlast
      obtain ⟨i, _, hfrom⟩ := hlast
      exact HeapHolds.handedOut h hfrom
    | none =>
      simp only [hlast] at halloc
      have hfull := HeapHolds.lastFull h hlast
      cases hgrow : s.growClass index with
      | none =>
        simp only [hgrow, Prod.mk.injEq] at halloc
        obtain ⟨rfl, rfl⟩ := halloc
        refine ⟨rfl, .inr ⟨index, rfl, hfull, ?_⟩⟩
        obtain ⟨hsmall, hlarge, _, _⟩ := classSize_spec hlt
        have hdef : sizeClasses.getD index 0 = classSize index := rfl
        rw [ArenaManager.growClass] at hgrow
        simp only [hdef, if_neg (show ¬ ArenaManager.arenaSize / 8 < classSize index by
          rw [arenaSize_eq]; omega)] at hgrow
        by_contra hroom
        rw [if_neg hroom] at hgrow
        cases hgrow
      | some grown =>
        simp only [hgrow] at halloc
        obtain ⟨hholds, hstart, hend, hlive, a, harenas, hnone⟩ := HeapHolds.growClass h hlt hgrow
        have hlength : grown.arenas.length - 1 = s.arenas.length := by rw [harenas]; simp
        have hlast : grown.arenas[s.arenas.length]? = some (index, a) := by rw [harenas]; simp
        rw [hlength] at halloc
        cases hfrom : grown.allocateFrom m s.arenas.length with
        | some taken =>
          obtain ⟨block, taken⟩ := taken
          simp only [hfrom, Prod.mk.injEq] at halloc
          obtain ⟨rfl, rfl⟩ := halloc
          have hout := HeapHolds.handedOut hholds hfrom
          exact
            { fresh := fun hblock => hout.fresh ((hlive block).2 hblock)
              liveBlock := by
                intro other
                rw [hout.liveBlock, hlive]
              aligned := hout.aligned
              pos := hout.pos
              regionStart := hout.regionStart.trans hstart
              regionEnd := hout.regionEnd.trans hend
              owned := by
                have howned := hout.owned
                rw [ArenaManager.owns, hstart, hend] at howned
                exact howned
              holds := hout.holds }
        | none =>
          -- a new arena has a block that is not allocated
          exfalso
          rw [ArenaManager.allocateFrom, hlast, Option.bind_some, Option.map_eq_none_iff] at hfrom
          have hat := hholds.arenas _ _ hlast
          obtain ⟨_, hcapacity, _, _, harena⟩ := hat
          have hpos : 0 < a.capacity := by
            rcases Nat.eq_zero_or_pos a.capacity with hzero | hpos
            · change a.capacity * _ = _ at hcapacity
              rw [hzero, Nat.zero_mul, arenaSize_eq] at hcapacity
              cases hcapacity
            · exact hpos
          have hall := harena.allocate_none hfrom 0 hpos
          rw [hnone 0 hpos] at hall
          cases hall

theorem HeapHolds.liveHeader (h : HeapHolds s m) {block : ℕ} (hlive : LiveBlock s block) :
    LiveHeader (m block) := by
  obtain ⟨i, entry, j, hi, hj, rfl⟩ := hlive
  obtain ⟨_, _, hholds⟩ := (h.arenas i entry hi).2.2
  rw [ArenaAt.block_eq (h.arenas i entry hi)]
  exact hholds.live j hj

theorem HeapHolds.writeHeader (h : HeapHolds s m) {block : ℕ} (hlive : LiveBlock s block)
    {header : GCHeader} (hdead : header.dead = false) (hcycle : header.passCycle < 16) :
    HeapHolds s (m.write block (.header header)) := by
  obtain ⟨i, entry, j, hi, hj, rfl⟩ := hlive
  have hat := h.arenas i entry hi
  have hlt := ArenaAt.lt_capacity hat hj
  refine ⟨h.aligned, h.placed, h.bump, h.fits, ?_⟩
  intro k other hk
  obtain ⟨hclass, hcap, bumped, free, hholds⟩ := h.arenas k other hk
  refine ⟨hclass, hcap, bumped, free, ?_⟩
  by_cases hki : k = i
  · subst hki
    rw [hi, Option.some.injEq] at hk
    subst hk
    rw [ArenaAt.block_eq hat]
    exact hholds.writeHeader (ArenaAt.size_pos hat) hj hdead hcycle
  · refine hholds.congr ?_
    intro l hl
    refine write_other m _ fun heq => hki ?_
    rw [← ArenaAt.block_eq (h.arenas k other hk)] at heq
    exact (HeapHolds.place_unique h hk hi hl hlt heq).1

theorem HeapHolds.owns_iff (h : HeapHolds s m) (hi : s.arenas[i]? = some entry) (address : ℕ) :
    entry.2.owns address = true ↔ arenaStart s i ≤ address ∧ address < arenaStart s (i + 1) := by
  have hat := h.arenas i entry hi
  obtain ⟨_, _, hholds⟩ := hat.2.2
  rw [Arena.owns, hholds.dataBegin, hholds.dataEnd, hat.2.1, arenaStart_succ]
  simp

theorem HeapHolds.findArena (h : HeapHolds s m) {address : ℕ} (hi : s.arenas[i]? = some entry)
    (howns : entry.2.owns address = true) : s.findArena address = some i := by
  have hlt := lt_length_of_getElem? hi
  rw [ArenaManager.findArena, List.findIdx?_eq_some_iff_getElem]
  rw [List.getElem?_eq_getElem hlt, Option.some.injEq] at hi
  refine ⟨hlt, by rw [hi]; exact howns, ?_⟩
  intro k hk
  have hlt' : k < s.arenas.length := by omega
  rw [Bool.not_eq_true]
  by_contra howns'
  rw [Bool.not_eq_false] at howns'
  have hrange := (HeapHolds.owns_iff h (List.getElem?_eq_getElem hlt') address).1 howns'
  have hrange' := (HeapHolds.owns_iff h (List.getElem?_eq_getElem hlt) address).1
    (by rw [hi]; exact howns)
  have hmono : arenaStart s (k + 1) ≤ arenaStart s i := arenaStart_mono hk
  omega

/-- A block is given back: nothing else changes. -/
structure GivenBack (s : ArenaManager) (m : HeapWords) (i j : ℕ) (entry : ℕ × Arena)
    (s' : ArenaManager) (m' : HeapWords) : Prop where
  holds : HeapHolds s' m'
  arenas : ∃ a : Arena, s' = s.setArena i a ∧ a.capacity = entry.2.capacity ∧
    (∀ k, a.block k = entry.2.block k) ∧
    ∀ k, a.isAllocated k = if k = j then false else entry.2.isAllocated k
  words : ∀ address, address ≠ entry.2.block j → m' address = m address

theorem HeapHolds.deallocate (h : HeapHolds s m) {j : ℕ} (hi : s.arenas[i]? = some entry)
    (hj : entry.2.isAllocated j = true) :
    GivenBack s m i j entry (s.deallocate m (entry.2.block j)).1
      (s.deallocate m (entry.2.block j)).2 := by
  have hat := h.arenas i entry hi
  have hlt := ArenaAt.lt_capacity hat hj
  obtain ⟨bumped, free, hholds⟩ := hat.2.2
  have hsize := ArenaAt.size_pos hat
  have hblock := ArenaAt.block_eq hat j
  have howns := hholds.owns_block hsize hlt
  rw [← hblock] at howns
  have hdef : s.deallocate m (entry.2.block j) =
      (s.setArena i (entry.2.deallocate m (entry.2.block j)).1,
        (entry.2.deallocate m (entry.2.block j)).2) := by
    simp only [ArenaManager.deallocate, HeapHolds.findArena h hi howns, hi]
  obtain ⟨heq, hfreed⟩ :=
    hholds.deallocate hsize (HeapHolds.start_pos h hi) (ArenaAt.capacity_lt hat) hj
  rw [← hblock] at heq hfreed
  have hwords : ∀ address, address ≠ entry.2.block j →
      (entry.2.deallocate m (entry.2.block j)).2 address = m address := by
    intro address haddress
    rw [heq]
    exact write_other m _ haddress
  have hcapacity : (entry.2.deallocate m (entry.2.block j)).1.capacity = entry.2.capacity := by
    rw [heq]
    rfl
  have hrange := ArenaAt.block_range hat hlt
  rw [hdef]
  refine ⟨?_, ⟨_, rfl, hcapacity, ?_, ?_⟩, hwords⟩
  · refine HeapHolds.update h hi hcapacity ⟨bumped, j :: free, hfreed⟩ ?_
    intro address haddress
    exact hwords address (by omega)
  · intro k
    rw [hfreed.block_eq, hholds.block_eq]
  · intro k
    rw [heq]
    exact isAllocated_set (by rw [hholds.bitmap]; exact hlt) k

theorem GivenBack.liveBlock {j : ℕ} (h : HeapHolds s m) (hi : s.arenas[i]? = some entry)
    (hj : entry.2.isAllocated j = true) (hback : GivenBack s m i j entry s' m') (other : ℕ) :
    LiveBlock s' other ↔ LiveBlock s other ∧ other ≠ entry.2.block j := by
  have hlt := ArenaAt.lt_capacity (h.arenas i entry hi) hj
  obtain ⟨a, rfl, _, hblock, hset⟩ := hback.arenas
  rw [liveBlock_setArena]
  constructor
  · rintro (⟨k, old, l, hki, hk, hl, rfl⟩ | ⟨old, l, hk, hl, rfl⟩)
    · refine ⟨⟨k, old, l, hk, hl, rfl⟩, fun heq => hki ?_⟩
      exact (HeapHolds.place_unique h hk hi (ArenaAt.lt_capacity (h.arenas k old hk) hl) hlt heq).1
    · rw [hset l] at hl
      by_cases hlj : l = j
      · rw [if_pos hlj] at hl
        cases hl
      · rw [if_neg hlj] at hl
        refine ⟨⟨i, entry, l, hi, hl, hblock l⟩, fun heq => hlj ?_⟩
        rw [hblock l] at heq
        have hl' := ArenaAt.lt_capacity (h.arenas i entry hi) hl
        exact (HeapHolds.place_unique h hi hi hl' hlt heq).2
  · rintro ⟨⟨k, old, l, hk, hl, rfl⟩, hne⟩
    by_cases hki : k = i
    · subst hki
      rw [hi, Option.some.injEq] at hk
      subst hk
      refine .inr ⟨entry, l, hi, ?_, (hblock l).symm⟩
      rw [hset l, if_neg fun hlj => hne (by rw [hlj]), hl]
    · exact .inl ⟨k, old, l, hki, hk, hl, rfl⟩

end Soot.Analysis
