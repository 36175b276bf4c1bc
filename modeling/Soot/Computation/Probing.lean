import Mathlib.Data.Nat.Notation
import Mathlib.Logic.Function.Basic

/-!
# Linear probing

A table of slots in a circle, each empty or with a key, where a key is looked for from its home on.
A table is probed well if no key is in two slots and no slot between the home of a key and the key
is empty. Then a search that stops at the first empty slot finds every key; a key that is put into
the slot where the search for it ended keeps the table so, and taking a key out does if no other key
lies behind it.
-/

set_option autoImplicit false

namespace Soot.Computation

variable {K : Type}

def distance (n home a : ℕ) : ℕ := (a + (n - home % n)) % n

theorem distance_lt {n : ℕ} (hn : 0 < n) (home a : ℕ) : distance n home a < n :=
  Nat.mod_lt _ hn

theorem distance_slot {n i : ℕ} (home : ℕ) (hi : i < n) :
    distance n home ((home + i) % n) = i := by
  have hhome := Nat.mod_lt home (show 0 < n by omega)
  rw [distance, Nat.mod_add_mod]
  have hsum : home + i + (n - home % n) = i + n * (home / n + 1) := by
    have hdiv := Nat.div_add_mod home n
    rw [Nat.mul_add]
    omega
  rw [hsum, Nat.add_mul_mod_self_left, Nat.mod_eq_of_lt hi]

theorem slot_distance {n a : ℕ} (home : ℕ) (ha : a < n) : (home + distance n home a) % n = a := by
  have hhome := Nat.mod_lt home (show 0 < n by omega)
  rw [distance, Nat.add_mod_mod]
  have hsum : home + (a + (n - home % n)) = a + n * (home / n + 1) := by
    have hdiv := Nat.div_add_mod home n
    rw [Nat.mul_add]
    omega
  rw [hsum, Nat.add_mul_mod_self_left, Nat.mod_eq_of_lt ha]

theorem distance_strictMono {n home a b : ℕ} (hb : b < n) (hab : a < b)
    (h : home % n ≤ a ∨ b < home % n) : distance n home a < distance n home b := by
  have hhome := Nat.mod_lt home (show 0 < n by omega)
  have heq : ∀ c < n, distance n home c = if home % n ≤ c then c - home % n else
      c + n - home % n := by
    intro c hc
    rw [distance]
    split
    · rw [show c + (n - home % n) = c - home % n + n by omega, Nat.add_mod_right,
        Nat.mod_eq_of_lt (by omega)]
    · rw [Nat.mod_eq_of_lt (by omega)]
      omega
  rw [heq a (by omega), heq b hb]
  split <;> split <;> omega

structure Probed (n : ℕ) (home : K → ℕ) (keyAt : ℕ → Option K) : Prop where
  distinct : ∀ {a b : ℕ} {k : K}, a < n → b < n → keyAt a = some k → keyAt b = some k → a = b
  near : ∀ {a b : ℕ} {k : K}, a < n → b < n → keyAt b = some k →
    distance n (home k) a < distance n (home k) b → keyAt a ≠ none

namespace Probed

variable {n : ℕ} {home : K → ℕ} {keyAt : ℕ → Option K}

theorem stops (h : Probed n home keyAt) {k : K} {a i : ℕ} (ha : a < n) (hkey : keyAt a = some k)
    (hi : i < n) (hstop : keyAt ((home k + i) % n) = none ∨ keyAt ((home k + i) % n) = some k)
    (hfirst : ∀ j < i, keyAt ((home k + j) % n) ≠ some k) : (home k + i) % n = a := by
  have hn : 0 < n := by omega
  have hslot : (home k + i) % n < n := Nat.mod_lt _ hn
  obtain hnone | hsome := hstop
  · by_cases hnear : i < distance n (home k) a
    · exact absurd hnone (h.near hslot ha hkey (by rwa [distance_slot _ hi]))
    · have hfar : ¬distance n (home k) a < i := by
        intro hlt
        refine hfirst _ hlt ?_
        rw [slot_distance _ ha, hkey]
      rw [show i = distance n (home k) a by omega, slot_distance _ ha]
  · exact h.distinct hslot ha hsome hkey

theorem absent (h : Probed n home keyAt) {k : K} {i : ℕ} (hi : i < n)
    (hnone : keyAt ((home k + i) % n) = none)
    (hfirst : ∀ j < i, keyAt ((home k + j) % n) ≠ some k) {a : ℕ} (ha : a < n) :
    keyAt a ≠ some k := by
  intro hkey
  have hslot := h.stops ha hkey hi (.inl hnone) hfirst
  rw [hslot, hkey] at hnone
  cases hnone

theorem insert (h : Probed n home keyAt) {k : K} {i : ℕ} (hi : i < n)
    (hfirst : ∀ j < i, keyAt ((home k + j) % n) ≠ none)
    (habsent : ∀ a < n, keyAt a ≠ some k) :
    Probed n home (Function.update keyAt ((home k + i) % n) (some k)) where
  distinct := by
    intro a b l ha hb hka hkb
    by_cases hal : a = (home k + i) % n <;> by_cases hbl : b = (home k + i) % n
    · rw [hal, hbl]
    · rw [hal, Function.update_self] at hka
      rw [Function.update_of_ne hbl, ← hka] at hkb
      exact absurd hkb (habsent b hb)
    · rw [hbl, Function.update_self] at hkb
      rw [Function.update_of_ne hal, ← hkb] at hka
      exact absurd hka (habsent a ha)
    · rw [Function.update_of_ne hal] at hka
      rw [Function.update_of_ne hbl] at hkb
      exact h.distinct ha hb hka hkb
  near := by
    intro a b l ha hb hkb hnear
    by_cases hal : a = (home k + i) % n
    · rw [hal, Function.update_self]
      exact Option.some_ne_none k
    · rw [Function.update_of_ne hal]
      by_cases hbl : b = (home k + i) % n
      · rw [hbl, Function.update_self] at hkb
        obtain rfl := Option.some.inj hkb
        rw [hbl, distance_slot _ hi] at hnear
        have hocc := hfirst _ hnear
        rwa [slot_distance _ ha] at hocc
      · rw [Function.update_of_ne hbl] at hkb
        exact h.near ha hb hkb hnear

theorem erase (h : Probed n home keyAt) {a : ℕ}
    (hlast : ∀ {b : ℕ} {l : K}, b < n → keyAt b = some l →
      distance n (home l) b ≤ distance n (home l) a) :
    Probed n home (Function.update keyAt a none) where
  distinct := by
    intro b c l hb hc hkb hkc
    by_cases hba : b = a
    · rw [hba, Function.update_self] at hkb
      cases hkb
    by_cases hca : c = a
    · rw [hca, Function.update_self] at hkc
      cases hkc
    rw [Function.update_of_ne hba] at hkb
    rw [Function.update_of_ne hca] at hkc
    exact h.distinct hb hc hkb hkc
  near := by
    intro b c l hb hc hkc hnear
    by_cases hca : c = a
    · rw [hca, Function.update_self] at hkc
      cases hkc
    rw [Function.update_of_ne hca] at hkc
    by_cases hba : b = a
    · have hle := hlast hc hkc
      rw [hba] at hnear
      omega
    · rw [Function.update_of_ne hba]
      exact h.near hb hc hkc hnear

theorem empty (hempty : ∀ a < n, keyAt a = none) : Probed n home keyAt where
  distinct := fun ha _ hka _ => absurd hka (by rw [hempty _ ha]; exact nofun)
  near := fun _ hb hkb => absurd hkb (by rw [hempty _ hb]; exact nofun)

end Probed

end Soot.Computation
