import Mathlib.Data.List.GetD
import Soot.Model.StringUtil

/-!
# Characters of a text

A unit is decoded from the bytes after its start, so the walk over a text is a recursion on what is
left of it. It stays inside the text if and only if the units, by the lengths that their first bytes
give, fill it; and the units that are encoded are of this kind.
-/

set_option autoImplicit false

namespace Soot.Analysis

open Soot.Computation Soot.Program Soot.Model

/-- The number in the bytes of a unit. -/
def unitValue (s : Text) : ℕ := (nextUtf8Char s 0).codePoint

theorem nextUtf8Char_eq (s : Text) (i : ℕ) :
    nextUtf8Char s i = ⟨unitValue (s.drop i), i + unitLength (s.getD i 0),
      (List.range (unitLength (s.getD i 0))).map (i + ·)⟩ := by
  have hdrop : ∀ k, ((s.drop i).getD k 0) = s.getD (i + k) 0 := fun k => by
    simp [List.getD_eq_getElem?_getD, List.getElem?_drop]
  simp only [nextUtf8Char, unitValue, unitLength, hdrop, Nat.zero_add, Nat.add_zero]
  split_ifs <;> rfl

theorem unitLength_pos (lead : UInt8) : 0 < unitLength lead := by
  unfold unitLength
  split_ifs <;> decide

/-! ## Whole texts -/

theorem whole_cons_iff {lead : UInt8} {s : Text} :
    Whole (lead :: s) ↔
      unitLength lead ≤ s.length + 1 ∧ Whole ((lead :: s).drop (unitLength lead)) := by
  have hpos := unitLength_pos lead
  constructor
  · intro h
    generalize hs : lead :: s = t at h
    cases h with
    | nil => cases hs
    | unit lead' more rest long whole =>
      obtain ⟨rfl, rfl⟩ := List.cons.inj hs
      have hdrop : (lead :: (more ++ rest)).drop (unitLength lead) = rest := by
        rw [← long, List.drop_succ_cons, List.drop_left]
      rw [hdrop, List.length_append]
      exact ⟨by omega, whole⟩
  · rintro ⟨hlength, hwhole⟩
    obtain ⟨n, hn⟩ : ∃ n, unitLength lead = n + 1 := ⟨unitLength lead - 1, by omega⟩
    rw [hn, List.drop_succ_cons] at hwhole
    have hunit := Whole.unit lead (s.take n) (s.drop n)
      (by rw [List.length_take]; omega) hwhole
    rwa [List.take_append_drop] at hunit

theorem walkUtf8_end {s : Text} {i : ℕ} (h : s.length ≤ i) (turns : ℕ) :
    walkUtf8 s turns i = ([], i) := by
  cases turns with
  | zero => rfl
  | succ turns => rw [walkUtf8, if_neg (Nat.not_lt.mpr h)]

theorem walkUtf8_step {s : Text} {i : ℕ} (h : i < s.length) (turns : ℕ) :
    walkUtf8 s (turns + 1) i =
      (⟨unitValue (s.drop i), i + unitLength s[i], (List.range (unitLength s[i])).map (i + ·)⟩ ::
        (walkUtf8 s turns (i + unitLength s[i])).1,
        (walkUtf8 s turns (i + unitLength s[i])).2) := by
  have hlead : s.getD i 0 = s[i] := List.getD_eq_getElem s 0 h
  rw [walkUtf8, if_pos h, nextUtf8Char_eq, hlead]

theorem walkedInside_from (s : Text) (turns : ℕ) {i : ℕ} (hi : i ≤ s.length)
    (hturns : s.length ≤ turns + i) :
    ((∀ char ∈ (walkUtf8 s turns i).1, ∀ k ∈ char.reads, k < s.length) ∧
      (walkUtf8 s turns i).2 = s.length) ↔ Whole (s.drop i) := by
  induction turns generalizing i with
  | zero =>
    obtain rfl : i = s.length := by omega
    simp [walkUtf8, Whole.nil]
  | succ turns ih =>
    by_cases hlt : i < s.length
    · have hdrop : s.drop i = s[i] :: s.drop (i + 1) := List.drop_eq_getElem_cons hlt
      have hpos := unitLength_pos s[i]
      have hlength : (s.drop (i + 1)).length + 1 = s.length - i := by
        rw [List.length_drop]
        omega
      rw [walkUtf8_step hlt]
      conv_rhs => rw [hdrop]
      rw [whole_cons_iff, ← hdrop, List.drop_drop, hlength]
      by_cases hfits : i + unitLength s[i] ≤ s.length
      · rw [← ih hfits (by omega)]
        have hreads : ∀ k ∈ (List.range (unitLength s[i])).map (i + ·), k < s.length := by
          intro k hk
          obtain ⟨j, hj, rfl⟩ := List.mem_map.mp hk
          have := List.mem_range.mp hj
          omega
        simp only [List.forall_mem_cons]
        constructor
        · exact fun ⟨⟨_, hlater⟩, hend⟩ => ⟨by omega, hlater, hend⟩
        · exact fun ⟨_, hlater, hend⟩ => ⟨⟨hreads, hlater⟩, hend⟩
      · rw [walkUtf8_end (by omega)]
        refine iff_of_false (fun h => ?_) fun h => by omega
        have hend : i + unitLength s[i] = s.length := h.2
        omega
    · obtain rfl : i = s.length := by omega
      simp [walkUtf8, Whole.nil]

theorem walkedInside_iff (s : Text) : WalkedInside s ↔ Whole s := by
  have hwalk := walkedInside_from s s.length (Nat.zero_le _) (Nat.le_refl _)
  rw [List.drop_zero] at hwalk
  exact ⟨fun h => hwalk.mp ⟨h.reads, h.finish⟩, fun h => ⟨(hwalk.mpr h).1, (hwalk.mpr h).2⟩⟩

/-! ## Encoded code points -/

theorem lead_two : ∀ x : Fin 32, ¬ (UInt8.ofNat (0xC0 ||| x)).toNat < 0x80 ∧
    (UInt8.ofNat (0xC0 ||| x)).toNat >>> 5 = 0x6 ∧
    (UInt8.ofNat (0xC0 ||| x)).toNat &&& 0x1F = x := by
  decide

theorem lead_three : ∀ x : Fin 16,
    ¬ (UInt8.ofNat (0xE0 ||| x)).toNat < 0x80 ∧
    (UInt8.ofNat (0xE0 ||| x)).toNat >>> 5 ≠ 0x6 ∧ (UInt8.ofNat (0xE0 ||| x)).toNat >>> 4 = 0xE ∧
    (UInt8.ofNat (0xE0 ||| x)).toNat &&& 0x0F = x := by
  decide

theorem lead_four : ∀ x : Fin 8,
    ¬ (UInt8.ofNat (0xF0 ||| x)).toNat < 0x80 ∧
    (UInt8.ofNat (0xF0 ||| x)).toNat >>> 5 ≠ 0x6 ∧ (UInt8.ofNat (0xF0 ||| x)).toNat >>> 4 ≠ 0xE ∧
    (UInt8.ofNat (0xF0 ||| x)).toNat >>> 3 = 0x1E ∧
    (UInt8.ofNat (0xF0 ||| x)).toNat &&& 0x07 = x := by
  decide

theorem trail_bits : ∀ x : Fin 64, (UInt8.ofNat (0x80 ||| x)).toNat &&& 0x3F = x := by
  decide

theorem trail_and (n : ℕ) : (UInt8.ofNat (0x80 ||| (n &&& 0x3F))).toNat &&& 0x3F = n &&& 0x3F :=
  trail_bits ⟨n &&& 0x3F, Nat.lt_of_le_of_lt Nat.and_le_right (by decide)⟩

theorem join_six (n : ℕ) : (n >>> 6) <<< 6 ||| (n &&& 0x3F) = n := by
  have hlow : n &&& 0x3F = n % 2 ^ 6 := Nat.and_two_pow_sub_one_eq_mod n 6
  rw [hlow, ← Nat.shiftLeft_add_eq_or_of_lt (Nat.mod_lt n (by decide)), Nat.shiftLeft_eq,
    Nat.shiftRight_eq_div_pow]
  omega

theorem join_twelve (n : ℕ) :
    (n >>> 12) <<< 12 ||| (n >>> 6 &&& 0x3F) <<< 6 ||| (n &&& 0x3F) = n := by
  have hhigh : (n >>> 12) <<< 12 ||| (n >>> 6 &&& 0x3F) <<< 6 = (n >>> 6) <<< 6 := by
    have hsix := congrArg (· <<< 6) (join_six (n >>> 6))
    simpa only [Nat.shiftLeft_or_distrib, ← Nat.shiftRight_add, ← Nat.shiftLeft_add] using hsix
  rw [hhigh, join_six]

theorem join_eighteen (n : ℕ) :
    (n >>> 18) <<< 18 ||| (n >>> 12 &&& 0x3F) <<< 12 ||| (n >>> 6 &&& 0x3F) <<< 6 |||
      (n &&& 0x3F) = n := by
  have hhigh : (n >>> 18) <<< 18 ||| (n >>> 12 &&& 0x3F) <<< 12 ||| (n >>> 6 &&& 0x3F) <<< 6 =
      (n >>> 6) <<< 6 := by
    have htwelve := congrArg (· <<< 6) (join_twelve (n >>> 6))
    simpa only [Nat.shiftLeft_or_distrib, ← Nat.shiftRight_add, ← Nat.shiftLeft_add] using htwelve
  rw [hhigh, join_six]

theorem shiftRight_and {n k w : ℕ} (h : n < 2 ^ (k + w)) : n >>> k &&& (2 ^ w - 1) = n >>> k := by
  rw [Nat.and_two_pow_sub_one_eq_mod, Nat.mod_eq_of_lt]
  rw [Nat.shiftRight_eq_div_pow]
  exact Nat.div_lt_of_lt_mul (by rwa [← Nat.pow_add])

theorem unit_utf8Encode {cp : ℕ} (hcp : cp ≤ 0x10FFFF) (rest : Text) :
    ∃ lead more, utf8Encode cp = lead :: more ∧ more.length + 1 = unitLength lead ∧
      unitValue (utf8Encode cp ++ rest) = cp := by
  unfold utf8Encode
  split_ifs with hone htwo hthree
  · have hbyte : (UInt8.ofNat cp).toNat = cp := by
      rw [UInt8.toNat_ofNat']
      omega
    have hsmall : (UInt8.ofNat cp).toNat < 0x80 := by omega
    refine ⟨_, _, rfl, by rw [unitLength, if_pos hsmall]; rfl, ?_⟩
    simp [unitValue, nextUtf8Char, hbyte, show cp < 128 by omega]
  · have hx : cp >>> 6 &&& 0x1F = cp >>> 6 := shiftRight_and (w := 5) (by omega)
    obtain ⟨hsmall, hlead, hbits⟩ := lead_two ⟨cp >>> 6, by
      rw [Nat.shiftRight_eq_div_pow]; omega⟩
    dsimp only at hsmall hlead hbits
    rw [hx]
    refine ⟨_, _, rfl, by rw [unitLength, if_neg hsmall, if_pos hlead]; rfl, ?_⟩
    simp only [unitValue, nextUtf8Char, List.cons_append, List.getD_cons_zero,
      List.getD_cons_succ, if_neg hsmall, if_pos hlead, hbits, trail_and, Nat.zero_add]
    exact join_six cp
  · have hx : cp >>> 12 &&& 0x0F = cp >>> 12 := shiftRight_and (w := 4) (by omega)
    obtain ⟨hsmall, htwo', hlead, hbits⟩ := lead_three ⟨cp >>> 12, by
      rw [Nat.shiftRight_eq_div_pow]; omega⟩
    dsimp only at hsmall htwo' hlead hbits
    rw [hx]
    refine ⟨_, _, rfl, by rw [unitLength, if_neg hsmall, if_neg htwo', if_pos hlead]; rfl, ?_⟩
    simp only [unitValue, nextUtf8Char, List.cons_append, List.getD_cons_zero,
      List.getD_cons_succ, if_neg hsmall, if_neg htwo', if_pos hlead, hbits, trail_and,
      Nat.zero_add]
    exact join_twelve cp
  · have hx : cp >>> 18 &&& 0x07 = cp >>> 18 := shiftRight_and (w := 3) (by omega)
    obtain ⟨hsmall, htwo', hthree', hlead, hbits⟩ := lead_four ⟨cp >>> 18, by
      rw [Nat.shiftRight_eq_div_pow]; omega⟩
    dsimp only at hsmall htwo' hthree' hlead hbits
    rw [hx]
    refine ⟨_, _, rfl,
      by rw [unitLength, if_neg hsmall, if_neg htwo', if_neg hthree', if_pos hlead]; rfl, ?_⟩
    simp only [unitValue, nextUtf8Char, List.cons_append, List.getD_cons_zero,
      List.getD_cons_succ, if_neg hsmall, if_neg htwo', if_neg hthree', if_pos hlead, hbits,
      trail_and, Nat.zero_add]
    exact join_eighteen cp

theorem decoded_from (cps : List ℕ) (hcps : ∀ cp ∈ cps, cp ≤ 0x10FFFF) (first : Text)
    (turns : ℕ) (hturns : (cps.flatMap utf8Encode).length ≤ turns) :
    (walkUtf8 (first ++ cps.flatMap utf8Encode) turns first.length).1.map CharRead.codePoint =
        cps ∧
      (walkUtf8 (first ++ cps.flatMap utf8Encode) turns first.length).2 =
        (first ++ cps.flatMap utf8Encode).length := by
  induction cps generalizing first turns with
  | nil =>
    rw [List.flatMap_nil, List.append_nil, walkUtf8_end (Nat.le_refl _)]
    exact ⟨rfl, rfl⟩
  | cons cp cps ih =>
    obtain ⟨lead, more, hunit, hlong, hvalue⟩ :=
      unit_utf8Encode (hcps cp List.mem_cons_self) (cps.flatMap utf8Encode)
    have hlength : (utf8Encode cp).length = unitLength lead := by
      rw [hunit, List.length_cons, hlong]
    have hpos := unitLength_pos lead
    rw [List.flatMap_cons, List.length_append, hlength] at hturns
    obtain ⟨turns, rfl⟩ : ∃ n, turns = n + 1 := ⟨turns - 1, by omega⟩
    have htext : first ++ (cp :: cps).flatMap utf8Encode =
        (first ++ utf8Encode cp) ++ cps.flatMap utf8Encode := by
      rw [List.flatMap_cons, List.append_assoc]
    have hlt : first.length < (first ++ (cp :: cps).flatMap utf8Encode).length := by
      rw [htext, List.length_append, List.length_append, hlength]
      omega
    have hdrop : (first ++ (cp :: cps).flatMap utf8Encode).drop first.length =
        utf8Encode cp ++ cps.flatMap utf8Encode := by
      rw [List.drop_left, List.flatMap_cons]
    have hlead : (first ++ (cp :: cps).flatMap utf8Encode)[first.length] = lead := by
      have hhead := congrArg List.head? hdrop
      rw [List.drop_eq_getElem_cons hlt, hunit] at hhead
      exact Option.some.inj hhead
    have hnext : first.length + unitLength lead = (first ++ utf8Encode cp).length := by
      rw [List.length_append, hlength]
    obtain ⟨hchars, hfinish⟩ := ih (fun c hc => hcps c (List.mem_cons_of_mem cp hc))
      (first ++ utf8Encode cp) turns (by omega)
    rw [walkUtf8_step hlt, hlead, hnext, hdrop, hvalue, htext]
    exact ⟨by rw [List.map_cons, hchars], hfinish⟩

/-- The UTF-8 functions. Code points up to 0x10FFFF come back from their encoding, and the walk over
a text reads its bytes only and ends at its size if and only if the units, each as long as its first
byte says, fill it. SRCLINE: StringUtil.cpp:258-299 -/
theorem utf8_iff_whole (cps : List ℕ) (hcps : ∀ cp ∈ cps, cp ≤ 0x10FFFF) (s : Text) :
    Decoded cps ∧ (WalkedInside s ↔ Whole s) := by
  obtain ⟨hchars, hfinish⟩ := decoded_from cps hcps [] _ (Nat.le_refl _)
  exact ⟨⟨hchars, hfinish⟩, walkedInside_iff s⟩

/-- `A`, `ф` and the highest code point. -/
theorem utf8_iff_whole_three :
    Decoded [0x41, 0x444, 0x10FFFF] ∧ (WalkedInside [0xD1, 0x84] ↔ Whole [0xD1, 0x84]) :=
  utf8_iff_whole [0x41, 0x444, 0x10FFFF] (by decide) [0xD1, 0x84]

/-- The first byte of a unit of two at the end of the text. -/
theorem not_walkedInside_truncated :
    ¬ ((∀ cps : List ℕ, (∀ cp ∈ cps, cp ≤ 0x10FFFF) → Decoded cps) ∧ ∀ s, WalkedInside s) := by
  intro h
  exact absurd (h.2 [0xD1]).finish (by decide)

end Soot.Analysis
