import Mathlib.Algebra.Group.Int.Defs
import Mathlib.Algebra.GroupWithZero.Nat
import Mathlib.Tactic.Common

/-!
# Texts as bytes

A text is a list of bytes. The bytes of the decimal numeral of a number, the number that a run of
digits stands for, and signed numerals.
-/

set_option autoImplicit false

namespace Soot.Computation

/-- Bytes of a `std::string`. -/
abbrev Text := List UInt8

def text (s : String) : Text := s.toUTF8.toList

def byte (c : Char) : UInt8 := c.toUInt8

/-- `0` to `9`. -/
def isDigit (b : UInt8) : Bool := byte '0' ≤ b && b ≤ byte '9'

def digits (n : ℕ) : List UInt8 := (Nat.toDigits 10 n).map byte

def digitsValue (l : List UInt8) (before : ℕ) : ℕ :=
  l.foldl (fun n b => 10 * n + (b.toNat - 48)) before

theorem toList_loop (bs : ByteArray) (i : ℕ) (read : List UInt8) :
    ByteArray.toList.loop bs i read = read.reverse ++ bs.data.toList.drop i := by
  fun_induction ByteArray.toList.loop bs i read with
  | case1 i read h ih =>
    have hlt : i < bs.data.toList.length := h
    have hget : bs.get! i = bs.data.toList[i] := getElem!_pos bs.data i h
    rw [ih, List.reverse_cons, List.append_assoc, hget, List.singleton_append,
      List.getElem_cons_drop hlt]
  | case2 i read h =>
    have hle : bs.data.toList.length ≤ i := Nat.le_of_not_lt h
    rw [List.drop_eq_nil_of_le hle, List.append_nil]

theorem text_injective : Function.Injective text := by
  intro s t h
  unfold text ByteArray.toList at h
  rw [toList_loop, toList_loop] at h
  exact String.toByteArray_inj.mp (ByteArray.ext (Array.toList_inj.mp h))

theorem toNat_byte {c : Char} (h : c.isDigit = true) : (byte c).toNat = c.toNat := by
  rw [Char.isDigit, Bool.and_eq_true, decide_eq_true_eq, decide_eq_true_eq] at h
  have hhigh : c.toNat ≤ 57 := h.2
  show (UInt8.ofNat c.toNat).toNat = c.toNat
  rw [UInt8.toNat_ofNat']
  omega

theorem isDigit_byte {c : Char} (h : c.isDigit = true) : isDigit (byte c) = true := by
  have hbyte := toNat_byte h
  rw [Char.isDigit, Bool.and_eq_true, decide_eq_true_eq, decide_eq_true_eq] at h
  simp only [isDigit, Bool.and_eq_true, decide_eq_true_eq, UInt8.le_iff_toNat_le, hbyte]
  exact h

theorem digits_ne_nil (n : ℕ) : digits n ≠ [] := by
  simp [digits, Nat.toDigits_ne_nil]

theorem isDigit_of_mem_digits {n : ℕ} {b : UInt8} (h : b ∈ digits n) : isDigit b = true := by
  obtain ⟨c, hc, rfl⟩ := List.mem_map.mp h
  exact isDigit_byte (Nat.isDigit_of_mem_toDigits (by omega) (by omega) hc)

theorem digitsValue_digits (n : ℕ) : digitsValue (digits n) 0 = n := by
  have hfold : ∀ (l : List Char) (before : ℕ), (∀ c ∈ l, c.isDigit = true) →
      digitsValue (l.map byte) before = Nat.ofDigitChars 10 l before := by
    intro l
    induction l with
    | nil => exact fun _ _ => rfl
    | cons c l ih =>
      intro before hl
      have hc := toNat_byte (hl c List.mem_cons_self)
      rw [Nat.ofDigitChars_cons, ← ih _ fun d hd => hl d (List.mem_cons_of_mem c hd)]
      show digitsValue (l.map byte) (10 * before + ((byte c).toNat - 48)) = _
      rw [hc]
      rfl
  rw [digits, hfold _ 0 fun c hc => Nat.isDigit_of_mem_toDigits (by omega) (by omega) hc]
  exact Nat.ofDigitChars_ten_toDigits

/-! ## Signed numerals -/

def intDigits : ℤ → List UInt8
  | .ofNat n => digits n
  | .negSucc n => byte '-' :: digits (n + 1)

theorem intDigits_ne_nil (i : ℤ) : intDigits i ≠ [] := by
  cases i with
  | ofNat n => exact digits_ne_nil n
  | negSucc n => simp [intDigits]

theorem mem_intDigits {i : ℤ} {b : UInt8} (h : b ∈ intDigits i) :
    isDigit b = true ∨ b = byte '-' := by
  cases i with
  | ofNat n => exact .inl (isDigit_of_mem_digits h)
  | negSucc n =>
    rcases List.mem_cons.mp h with rfl | h
    · exact .inr rfl
    · exact .inl (isDigit_of_mem_digits h)

/-! ## Literals -/

end Soot.Computation
