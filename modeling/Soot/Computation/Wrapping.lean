import Mathlib.Data.BitVec
import Mathlib.Data.Int.Bitwise
import Mathlib.Data.Nat.ModEq

/-!
# Integers and the words that hold them

What an operation on words does to the integers that the words hold: it is the operation on the
integers, reduced to a word. A word that stands for an integer in range holds that integer, and a
quotient by a narrowed divisor is the quotient in few cases.
-/

set_option autoImplicit false

namespace Soot.Computation

variable {w : ℕ}

theorem toInt_of_eq_ofInt {n : BitVec 64} {m : ℤ} (h : n = BitVec.ofInt 64 m) (hlow : -2 ^ 63 ≤ m)
    (hhigh : m < 2 ^ 63) : n.toInt = m := by
  rw [h]
  apply BitVec.toInt_ofInt_eq_self (by omega)
  · exact hlow
  · exact hhigh

theorem getLsbD_ofInt (m : ℤ) {i : ℕ} (h : i < w) : (BitVec.ofInt w m).getLsbD i = m.testBit i := by
  cases m with
  | ofNat n =>
    change (BitVec.ofNat w n).getLsbD i = n.testBit i
    simp only [BitVec.getLsbD_ofNat, h, decide_true, Bool.true_and]
  | negSucc n =>
    rw [BitVec.ofInt_negSucc_eq_not_ofNat, BitVec.getLsbD_not]
    simp only [BitVec.getLsbD_ofNat, h, decide_true, Bool.true_and]
    rfl

section Bitwise

variable (a b : ℤ)

theorem ofInt_land : BitVec.ofInt w (a.land b) = BitVec.ofInt w a &&& BitVec.ofInt w b := by
  apply BitVec.eq_of_getLsbD_eq
  intro i hi
  rw [BitVec.getLsbD_and, getLsbD_ofInt _ hi, getLsbD_ofInt _ hi, getLsbD_ofInt _ hi,
    Int.testBit_land]

theorem ofInt_lor : BitVec.ofInt w (a.lor b) = BitVec.ofInt w a ||| BitVec.ofInt w b := by
  apply BitVec.eq_of_getLsbD_eq
  intro i hi
  rw [BitVec.getLsbD_or, getLsbD_ofInt _ hi, getLsbD_ofInt _ hi, getLsbD_ofInt _ hi,
    Int.testBit_lor]

theorem ofInt_xor : BitVec.ofInt w (a.xor b) = BitVec.ofInt w a ^^^ BitVec.ofInt w b := by
  apply BitVec.eq_of_getLsbD_eq
  intro i hi
  rw [BitVec.getLsbD_xor, getLsbD_ofInt _ hi, getLsbD_ofInt _ hi, getLsbD_ofInt _ hi,
    Int.testBit_lxor]

theorem ofInt_lnot : BitVec.ofInt w a.lnot = ~~~BitVec.ofInt w a := by
  apply BitVec.eq_of_getLsbD_eq
  intro i hi
  rw [BitVec.getLsbD_not, getLsbD_ofInt _ hi, getLsbD_ofInt _ hi, Int.testBit_lnot]
  simp [hi]

end Bitwise

theorem ofInt_sub (a b : ℤ) : BitVec.ofInt w (a - b) = BitVec.ofInt w a - BitVec.ofInt w b := by
  rw [Int.sub_eq_add_neg, BitVec.ofInt_add, BitVec.ofInt_neg, BitVec.sub_eq_add_neg]

theorem iterate_mul (a : BitVec w) (k : ℕ) :
    (fun result => result * a)^[k] 1 = BitVec.ofInt w (a.toInt ^ k) := by
  induction k with
  | zero => simp
  | succ k ih =>
    rw [Function.iterate_succ_apply', ih, pow_succ, BitVec.ofInt_mul, BitVec.ofInt_toInt]

theorem shiftLeft_eq_ofInt (a : BitVec w) (k : ℕ) :
    a <<< k = BitVec.ofInt w (a.toInt * 2 ^ k) := by
  apply BitVec.eq_of_toInt_eq
  rw [BitVec.toInt_shiftLeft, BitVec.toInt_ofInt, BitVec.toInt_eq_toNat_bmod, Int.bmod_mul_bmod,
    Nat.shiftLeft_eq]
  push_cast
  rfl

theorem sshiftRight_eq_ofInt (a : BitVec w) (k : ℕ) :
    a.sshiftRight k = BitVec.ofInt w (a.toInt / 2 ^ k) := by
  rw [← BitVec.ofInt_toInt (x := a.sshiftRight k), BitVec.toInt_sshiftRight,
    Int.shiftRight_eq_div_pow]
  norm_cast

theorem sdiv_eq_ofInt (a b : BitVec w) : a.sdiv b = BitVec.ofInt w (a.toInt.tdiv b.toInt) := by
  apply BitVec.eq_of_toInt_eq
  rw [BitVec.toInt_sdiv, BitVec.toInt_ofInt]

theorem ofInt_foldl {f : ℤ → ℤ → ℤ} {g : BitVec w → BitVec w → BitVec w}
    (h : ∀ a b, BitVec.ofInt w (f a b) = g (BitVec.ofInt w a) (BitVec.ofInt w b))
    (l : List (BitVec w)) (m : ℤ) :
    BitVec.ofInt w ((l.map BitVec.toInt).foldl f m) = l.foldl g (BitVec.ofInt w m) := by
  induction l generalizing m with
  | nil => rfl
  | cons a l ih => rw [List.map_cons, List.foldl_cons, List.foldl_cons, ih, h, BitVec.ofInt_toInt]

theorem toInt_foldl {f : ℤ → ℤ → ℤ} {g : BitVec w → BitVec w → BitVec w}
    (h : ∀ a b : BitVec w, (g a b).toInt = f a.toInt b.toInt) (l : List (BitVec w))
    (a : BitVec w) : (l.foldl g a).toInt = (l.map BitVec.toInt).foldl f a.toInt := by
  induction l generalizing a with
  | nil => rfl
  | cons b l ih => rw [List.map_cons, List.foldl_cons, List.foldl_cons, ih, h]

/-! ## Narrowed operands -/

section Narrowing

variable {m : ℕ} {x y d e : ℤ}

/-- Narrowing keeps a number or moves it by the modulus at least. -/
theorem bmod_cases (m : ℕ) (y : ℤ) : y.bmod m = y ∨ y.bmod m + m ≤ y ∨ y + m ≤ y.bmod m := by
  have hsplit := Int.bmod_add_bdiv y m
  obtain hneg | hzero | hpos : y.bdiv m ≤ -1 ∨ y.bdiv m = 0 ∨ 1 ≤ y.bdiv m := by omega
  · have hstep : (m : ℤ) * y.bdiv m ≤ m * (-1) := Int.mul_le_mul_of_nonneg_left hneg (by omega)
    omega
  · rw [hzero, Int.mul_zero, Int.add_zero] at hsplit
    exact .inl hsplit
  · have hstep : (m : ℤ) * 1 ≤ m * y.bdiv m := Int.mul_le_mul_of_nonneg_left hpos (by omega)
    omega

theorem natAbs_bmod_le (hm : 0 < m) (y : ℤ) : (y.bmod m).natAbs ≤ y.natAbs := by
  have hcases := bmod_cases m y
  have hlow := Int.le_bmod (x := y) hm
  have hhigh := Int.bmod_le (x := y) hm
  omega

/-- A number that narrowing changes, but for its sign, is at least twice as large. -/
theorem two_mul_natAbs_bmod_le (hm : 0 < m) (hsign : (y.bmod m).sign = y.sign)
    (hne : y.bmod m ≠ y) : 2 * (y.bmod m).natAbs ≤ y.natAbs := by
  have hcases := bmod_cases m y
  have hlow := Int.le_bmod (x := y) hm
  have hhigh := Int.bmod_le (x := y) hm
  have hpos : 0 < y.bmod m ↔ 0 < y := by
    rw [← Int.sign_eq_one_iff_pos, hsign, Int.sign_eq_one_iff_pos]
  omega

theorem tdiv_eq_zero (h : x.natAbs < d.natAbs) : x.tdiv d = 0 := by
  rw [← Int.natAbs_eq_zero, Int.natAbs_tdiv]
  exact Nat.div_eq_of_lt h

/-- Divisors of one quotient that is not zero have the same sign and lie close together. -/
theorem close_of_tdiv_eq (hle : d.natAbs ≤ e.natAbs) (hx : d.natAbs ≤ x.natAbs) (hd : d ≠ 0)
    (h : x.tdiv d = x.tdiv e) : d.sign = e.sign ∧ e.natAbs < 2 * d.natAbs := by
  have habs : x.natAbs / d.natAbs = x.natAbs / e.natAbs := by
    have := congrArg Int.natAbs h
    rwa [Int.natAbs_tdiv, Int.natAbs_tdiv] at this
  have hone : 1 ≤ x.natAbs / d.natAbs := (Nat.one_le_div_iff (by omega)).mpr hx
  have he : e.natAbs ≤ x.natAbs := by
    rw [habs, Nat.one_le_div_iff (by omega)] at hone
    exact hone
  constructor
  · have hsign := congrArg Int.sign h
    rw [Int.sign_tdiv, Int.sign_tdiv, if_neg (by omega), if_neg (by omega)] at hsign
    exact Int.eq_of_mul_eq_mul_left (Int.sign_eq_zero_iff_zero.not.mpr (by omega)) hsign
  · by_contra hlarge
    have hhalf : x.natAbs / e.natAbs ≤ x.natAbs / d.natAbs / 2 := by
      rw [Nat.div_div_eq_div_mul]
      exact Nat.div_le_div_left (by omega) (by omega)
    omega

/-- Narrowing a divisor keeps the quotient only if it keeps the divisor, or the quotient is zero. -/
theorem tdiv_bmod_eq_iff (hm : 0 < m) (hzero : y.bmod m ≠ 0) :
    x.tdiv (y.bmod m) = x.tdiv y ↔ y.bmod m = y ∨ x.natAbs < (y.bmod m).natAbs := by
  have hle := natAbs_bmod_le hm y
  constructor
  · intro h
    refine or_iff_not_imp_right.mpr fun hlarge => ?_
    obtain ⟨hsign, hclose⟩ := close_of_tdiv_eq hle (by omega) hzero h
    by_contra hne
    have hfar := two_mul_natAbs_bmod_le hm hsign hne
    omega
  · rintro (hsame | hsmall)
    · rw [hsame]
    · rw [tdiv_eq_zero hsmall, tdiv_eq_zero (hsmall.trans_le hle)]

theorem tmod_eq_tmod_iff :
    x.tmod d = x.tmod e ↔ x.natAbs % d.natAbs = x.natAbs % e.natAbs := by
  have hd := Int.natAbs_tmod x d
  have he := Int.natAbs_tmod x e
  obtain hx | hx := Int.le_total 0 x
  · have hdpos := Int.tmod_nonneg d hx
    have hepos := Int.tmod_nonneg e hx
    omega
  · have hdneg := Int.tmod_nonneg d (Int.neg_nonneg_of_nonpos hx)
    have heneg := Int.tmod_nonneg e (Int.neg_nonneg_of_nonpos hx)
    rw [Int.neg_tmod] at hdneg heneg
    omega

theorem mod_eq_mod_iff {n a b : ℕ} (ha : 0 < a) (hab : a ≤ b) :
    n % a = n % b ↔ n % Nat.lcm a b < a := by
  constructor
  · intro h
    have hlt : n % a < a := Nat.mod_lt n ha
    have hlcm : n ≡ n % a [MOD Nat.lcm a b] :=
      Nat.mod_lcm (Nat.mod_modEq n a).symm (h ▸ (Nat.mod_modEq n b).symm)
    have hle : a ≤ Nat.lcm a b := Nat.le_of_dvd (Nat.lcm_pos ha (by omega)) (Nat.dvd_lcm_left a b)
    rw [hlcm, Nat.mod_eq_of_lt (hlt.trans_le hle)]
    exact hlt
  · intro hlt
    rw [← Nat.mod_mod_of_dvd n (Nat.dvd_lcm_left a b),
      ← Nat.mod_mod_of_dvd n (Nat.dvd_lcm_right a b), Nat.mod_eq_of_lt hlt,
      Nat.mod_eq_of_lt (hlt.trans_le hab)]

theorem tmod_bmod_eq_iff (hm : 0 < m) (hzero : y.bmod m ≠ 0) :
    x.tmod (y.bmod m) = x.tmod y ↔
      x.natAbs % Nat.lcm (y.bmod m).natAbs y.natAbs < (y.bmod m).natAbs := by
  rw [tmod_eq_tmod_iff, mod_eq_mod_iff (by omega) (natAbs_bmod_le hm y)]

theorem bmod_eq_self_iff (hm : 0 < m) : y.bmod m = y ↔ -(m / 2) ≤ y ∧ y < (m + 1) / 2 := by
  rw [Int.bmod_eq_iff hm, Int.sub_self]
  simp

/-- A quotient by a factor of the modulus shows whether narrowing has changed the dividend. -/
theorem bmod_ediv_eq_iff {k : ℕ} (hm : 0 < m) (hk : k ∣ m) :
    x.bmod m / k = x / k ↔ x.bmod m = x := by
  obtain ⟨n, rfl⟩ := hk
  have hkpos : 0 < k := Nat.pos_of_mul_pos_right hm
  have hnpos : 0 < n := Nat.pos_of_mul_pos_left hm
  have hsplit := Int.bmod_add_bdiv x (k * n)
  constructor
  · intro h
    have hquotient : x / k = x.bmod (k * n) / k + n * x.bdiv (k * n) := by
      conv_lhs => rw [← hsplit]
      push_cast
      rw [Int.mul_assoc, Int.add_mul_ediv_left _ _ (by omega)]
    have hzero : (n : ℤ) * x.bdiv (k * n) = 0 := by omega
    rw [Int.mul_eq_zero, or_iff_right (by omega)] at hzero
    rw [hzero, Int.mul_zero, Int.add_zero] at hsplit
    exact hsplit
  · intro h
    rw [h]

theorem toInt_signExtend_truncate {v w : ℕ} (h : v ≤ w) (x : BitVec w) :
    ((x.truncate v : BitVec v).signExtend w).toInt = x.toInt.bmod (2 ^ v) := by
  rw [BitVec.toInt_signExtend_of_le h, BitVec.truncate_eq_setWidth, BitVec.toInt_setWidth,
    BitVec.toInt_eq_toNat_bmod, Int.bmod_bmod_of_dvd (Nat.pow_dvd_pow 2 h)]

end Narrowing

end Soot.Computation
