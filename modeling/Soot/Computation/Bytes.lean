import Mathlib.Algebra.Group.Int.Defs
import Mathlib.Algebra.GroupWithZero.Nat
import Mathlib.Tactic.Common

/-!
# Byte buffers

A buffer is a function from indices to bytes. Numbers are kept in it in little-endian order;
reading and writing them is described by what happens to a stretch of bytes: a read depends
only on its stretch, a write changes only its stretch, and the bytes of a stretch are
determined by the number that is read from it.
-/

set_option autoImplicit false

namespace Soot.Computation

abbrev Bytes := ℕ → BitVec 8

namespace Bytes

/-- The little-endian number in the `n` bytes at `o`. -/
def read (b : Bytes) (o : ℕ) : ℕ → ℕ
  | 0 => 0
  | n + 1 => (b o).toNat + 256 * read b (o + 1) n

/-- Store the low `n` bytes of `v` at `o`, little-endian. -/
def write (b : Bytes) (o n v : ℕ) : Bytes := fun i =>
  if o ≤ i ∧ i < o + n then BitVec.ofNat 8 (v / 256 ^ (i - o)) else b i

def ofList (l : List (BitVec 8)) : Bytes := fun i => l.getD i 0

variable {b c : Bytes} {o n v : ℕ}

theorem read_congr (h : ∀ i, o ≤ i → i < o + n → b i = c i) : b.read o n = c.read o n := by
  induction n generalizing o with
  | zero => rfl
  | succ n ih =>
    have hhead : b o = c o := h o (Nat.le_refl o) (by omega)
    have htail : b.read (o + 1) n = c.read (o + 1) n :=
      ih fun i hlo hhi => h i (by omega) (by omega)
    simp only [read, hhead, htail]

theorem read_lt (b : Bytes) (o n : ℕ) : b.read o n < 256 ^ n := by
  induction n generalizing o with
  | zero => exact Nat.one_pos
  | succ n ih =>
    have hhead := (b o).isLt
    have htail := ih (o + 1)
    rw [read, Nat.pow_succ]
    omega

theorem byte_eq (b : Bytes) {i : ℕ} (hlo : o ≤ i) (hhi : i < o + n) :
    b i = BitVec.ofNat 8 (b.read o n / 256 ^ (i - o)) := by
  induction n generalizing o with
  | zero => omega
  | succ n ih =>
    by_cases hi : i = o
    · subst hi
      apply BitVec.eq_of_toNat_eq
      have hbyte := (b i).isLt
      simp only [read, Nat.sub_self, Nat.pow_zero, Nat.div_one, BitVec.toNat_ofNat]
      omega
    · obtain ⟨k, hk⟩ : ∃ k, i - o = k + 1 := ⟨i - o - 1, by omega⟩
      have hbyte := (b o).isLt
      have hshift : b.read o (n + 1) / 256 = b.read (o + 1) n := by
        rw [read]
        omega
      rw [ih (o := o + 1) (by omega) (by omega), hk, Nat.pow_succ, Nat.mul_comm,
        ← Nat.div_div_eq_div_mul, hshift]
      congr 3
      omega

theorem write_of_mem {i : ℕ} (h : o ≤ i ∧ i < o + n) :
    b.write o n v i = BitVec.ofNat 8 (v / 256 ^ (i - o)) := if_pos h

theorem write_of_not_mem {i : ℕ} (h : ¬ (o ≤ i ∧ i < o + n)) : b.write o n v i = b i := if_neg h

theorem read_write (b : Bytes) (o n v : ℕ) : (b.write o n v).read o n = v % 256 ^ n := by
  induction n generalizing o v b with
  | zero => simp [read, Nat.mod_one]
  | succ n ih =>
    have hhead : (b.write o (n + 1) v o).toNat = v % 256 := by
      rw [write_of_mem ⟨Nat.le_refl o, by omega⟩]
      simp
    have htail : (b.write o (n + 1) v).read (o + 1) n = (b.write (o + 1) n (v / 256)).read (o + 1) n := by
      apply read_congr
      intro i hlo hhi
      rw [write_of_mem ⟨by omega, by omega⟩, write_of_mem ⟨hlo, hhi⟩]
      obtain ⟨k, hk⟩ : ∃ k, i - o = k + 1 := ⟨i - o - 1, by omega⟩
      rw [show i - (o + 1) = k by omega, hk, Nat.pow_succ, Nat.mul_comm, Nat.div_div_eq_div_mul]
    rw [read, hhead, htail, ih, Nat.pow_succ, Nat.mul_comm (256 ^ n) 256, Nat.mod_mul]

end Bytes

end Soot.Computation
