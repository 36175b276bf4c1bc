import Mathlib.Data.List.TakeWhile
import Soot.Analysis.Script.Checks
import Soot.Model.StringUtil

/-!
# Pieces of strings

The search finds the first occurrence, so no piece holds the delimiter, and the pieces with the
delimiter between them are the string. The loop ends when an occurrence takes away a byte at least,
which an empty delimiter does not. As symbols the pieces lose what stands behind a zero byte.
-/

set_option autoImplicit false

namespace Soot.Analysis.Script

open Soot.Computation Soot.Program Soot.Program.Script Soot.Model.Script

variable {pieces : List Text}

/-! ## The search -/

theorem findText_some {d s : Text} {i : ℕ} (h : findText d s = some i) :
    (∃ rest, s = s.take i ++ (d ++ rest) ∧ rest = s.drop (i + d.length) ∧
      (s.take i).length = i) ∧ ∀ j < i, ¬ d <+: s.drop j := by
  induction s generalizing i with
  | nil =>
    by_cases hd : d = []
    · rw [findText, if_pos hd] at h
      obtain rfl := Option.some.inj h
      subst hd
      exact ⟨⟨[], rfl, rfl, rfl⟩, fun j hj => absurd hj (Nat.not_lt_zero j)⟩
    · rw [findText, if_neg hd] at h
      cases h
  | cons b s ih =>
    by_cases hd : d.isPrefixOf (b :: s) = true
    · rw [findText, if_pos hd] at h
      obtain rfl := Option.some.inj h
      obtain ⟨rest, hrest⟩ := List.isPrefixOf_iff_prefix.mp hd
      refine ⟨⟨rest, hrest.symm, ?_, rfl⟩, fun j hj => absurd hj (Nat.not_lt_zero j)⟩
      rw [Nat.zero_add, ← hrest, List.drop_left]
    · rw [findText, if_neg hd] at h
      obtain ⟨k, hk, rfl⟩ := Option.map_eq_some_iff.mp h
      obtain ⟨⟨rest, hs, hrest, hlength⟩, hfirst⟩ := ih hk
      refine ⟨⟨rest, ?_, ?_, ?_⟩, fun j hj => ?_⟩
      · rw [List.take_succ_cons, List.cons_append, ← hs]
      · rw [hrest, Nat.add_right_comm, List.drop_succ_cons]
      · rw [List.take_succ_cons, List.length_cons, hlength]
      · cases j with
        | zero => exact fun hbegins => hd (List.isPrefixOf_iff_prefix.mpr hbegins)
        | succ j => exact hfirst j (by omega)

theorem findText_none {d s : Text} (h : findText d s = none) : ¬ d <:+: s := by
  induction s with
  | nil =>
    intro hinside
    have hd : d = [] := List.infix_nil.mp hinside
    rw [findText, if_pos hd] at h
    cases h
  | cons b s ih =>
    by_cases hd : d.isPrefixOf (b :: s) = true
    · rw [findText, if_pos hd] at h
      cases h
    · rw [findText, if_neg hd, Option.map_eq_none_iff] at h
      intro hinside
      rcases List.infix_cons_iff.mp hinside with hbegins | hinside
      · exact hd (List.isPrefixOf_iff_prefix.mpr hbegins)
      · exact ih h hinside

theorem not_infix_take {d s : Text} {i : ℕ} (hd : d ≠ []) (h : findText d s = some i) :
    ¬ d <:+: s.take i := by
  rintro ⟨first, last, htake⟩
  have hlength := congrArg List.length htake
  rw [List.length_append, List.length_append, (findText_some h).1.choose_spec.2.2] at hlength
  have hpos := List.length_pos_iff.mpr hd
  refine (findText_some h).2 first.length (by omega) ⟨last ++ s.drop i, ?_⟩
  conv_rhs => rw [← List.take_append_drop i s, ← htake]
  simp

/-! ## The loop -/

theorem intercalate_cons {d p : Text} {ps : List Text} (h : ps ≠ []) :
    d.intercalate (p :: ps) = p ++ (d ++ d.intercalate ps) := by
  rw [List.intercalate_cons_of_ne_nil h, List.append_assoc]

theorem joined_singleton {d s : Text} (hne : pieces ≠ [])
    (hs : d.intercalate pieces = s) (hnone : ¬ d <:+: s) : ∃ q, pieces = [q] := by
  cases pieces with
  | nil => exact absurd rfl hne
  | cons q qs =>
    cases qs with
    | nil => exact ⟨q, rfl⟩
    | cons q' qs =>
      rw [intercalate_cons (List.cons_ne_nil q' qs)] at hs
      exact absurd ⟨q, d.intercalate (q' :: qs), by rw [← hs, List.append_assoc]⟩ hnone

theorem not_mem_intercalate {d : Text} (hd : 0 ∉ d)
    (hpieces : ∀ piece ∈ pieces, 0 ∉ piece) : 0 ∉ d.intercalate pieces := by
  induction pieces with
  | nil => simp
  | cons q qs ih =>
    by_cases hqs : qs = []
    · subst hqs
      rw [List.intercalate_singleton]
      exact hpieces q List.mem_cons_self
    · rw [intercalate_cons hqs, List.mem_append, List.mem_append, not_or, not_or]
      exact ⟨hpieces q List.mem_cons_self, hd,
        ih fun piece hpiece => hpieces piece (List.mem_cons_of_mem q hpiece)⟩

/-- A delimiter that is found in a string of pieces without zero bytes leaves such a
string behind it, and no zero byte before it. -/
theorem joinedFromCStrings_rest {d s : Text} {i : ℕ} (h : findText d s = some i)
    (hs : JoinedFromCStrings s d) :
    0 ∉ s.take i ∧ JoinedFromCStrings (s.drop (i + d.length)) d := by
  obtain ⟨⟨rest, hsplit, hrest, hlength⟩, hfirst⟩ := findText_some h
  obtain ⟨pieces, hne, hzero, hs⟩ := hs
  by_cases hd : 0 ∈ d
  · -- The first zero byte of the string stands in the first occurrence, which ends the first piece.
    obtain ⟨u, v, rfl, hu⟩ := List.eq_append_cons_of_mem hd
    have hinside : u ++ 0 :: v <:+: s := ⟨s.take i, rest, by
      rw [List.append_assoc]
      exact hsplit.symm⟩
    cases pieces with
    | nil => exact absurd rfl hne
    | cons q qs =>
      by_cases hqs : qs = []
      · subst hqs
        rw [List.intercalate_singleton] at hs
        exact absurd (hs ▸ hinside.subset hd) (hzero q List.mem_cons_self)
      rw [intercalate_cons hqs] at hs
      have hle : i ≤ q.length := by
        by_contra hlt
        refine hfirst q.length (by omega) ⟨(u ++ 0 :: v).intercalate qs, ?_⟩
        rw [← hs, List.drop_left]
      have hge : q.length ≤ i := by
        by_contra hlt
        have hbyte : s[i + u.length]? = some 0 := by
          rw [hsplit, List.append_assoc, ← List.append_assoc (s.take i),
            List.getElem?_append_right (Nat.le_of_eq (by rw [List.length_append, hlength])),
            List.length_append, hlength, Nat.sub_self]
          rfl
        have hpart : s = (q ++ u) ++ (0 :: v ++ (u ++ 0 :: v).intercalate qs) := by
          rw [← hs]
          simp
        rw [hpart, List.getElem?_append_left (by rw [List.length_append]; omega)] at hbyte
        rcases List.mem_append.mp (List.mem_of_getElem? hbyte) with hmem | hmem
        · exact hzero q List.mem_cons_self hmem
        · exact hu hmem
      obtain rfl : i = q.length := by omega
      refine ⟨?_, qs, hqs, fun piece hpiece => hzero piece (List.mem_cons_of_mem q hpiece), ?_⟩
      · rw [← hs, List.take_left]
        exact hzero q List.mem_cons_self
      · rw [← List.drop_drop, ← hs, List.drop_left, List.drop_left]
  · have hnone : 0 ∉ s := hs ▸ not_mem_intercalate hd hzero
    refine ⟨fun hmem => hnone (List.mem_of_mem_take hmem), [s.drop (i + d.length)],
      List.cons_ne_nil _ _, fun piece hpiece => ?_, List.intercalate_singleton⟩
    rw [List.mem_singleton.mp hpiece]
    exact fun hmem => hnone (List.mem_of_mem_drop hmem)

/-- The pieces of a string at a delimiter that is not empty. The induction is on the
turns, more of which are given than there are bytes. -/
theorem splitString_spec {d : Text} (hd : d ≠ []) (turns : ℕ) {s : Text}
    (hturns : s.length < turns) :
    ∃ pieces, splitString d turns s = some pieces ∧ pieces ≠ [] ∧
      (∀ piece ∈ pieces, ¬ d <:+: piece) ∧ d.intercalate pieces = s ∧
      (JoinedFromCStrings s d → ∀ piece ∈ pieces, 0 ∉ piece) := by
  induction turns generalizing s with
  | zero => exact absurd hturns (Nat.not_lt_zero _)
  | succ turns ih =>
    rw [splitString]
    cases hfind : findText d s with
    | none =>
      refine ⟨[s], rfl, List.cons_ne_nil _ _, ?_, List.intercalate_singleton, ?_⟩
      · intro piece hpiece
        rw [List.mem_singleton.mp hpiece]
        exact findText_none hfind
      · rintro ⟨qs, hne, hzero, hqs⟩ piece hpiece
        rw [List.mem_singleton.mp hpiece, ← hqs]
        exact (joined_singleton hne hqs (findText_none hfind)).elim fun q hq => by
          subst hq
          rw [List.intercalate_singleton]
          exact hzero q List.mem_cons_self
    | some i =>
      obtain ⟨⟨rest, hsplit, hrest, hlength⟩, -⟩ := findText_some hfind
      have hpos := List.length_pos_iff.mpr hd
      have hshort : (s.drop (i + d.length)).length < turns := by
        have htotal := congrArg List.length hsplit
        rw [List.length_append, List.length_append, hlength] at htotal
        rw [List.length_drop]
        omega
      obtain ⟨pieces, hpieces, hne, hno, hjoin, hzero⟩ := ih hshort
      refine ⟨s.take i :: pieces, by simp only [hpieces, Option.map_some],
        List.cons_ne_nil _ _, ?_, ?_, ?_⟩
      · intro piece hpiece
        rcases List.mem_cons.mp hpiece with rfl | hpiece
        · exact not_infix_take hd hfind
        · exact hno piece hpiece
      · rw [intercalate_cons hne, hjoin, ← hrest, ← hsplit]
      · intro hs piece hpiece
        obtain ⟨htake, hdrop⟩ := joinedFromCStrings_rest hfind hs
        rcases List.mem_cons.mp hpiece with rfl | hpiece
        · exact htake
        · exact hzero hdrop piece hpiece

theorem splitString_joins {d s : Text} {turns : ℕ}
    (h : splitString d turns s = some pieces) : pieces ≠ [] ∧ d.intercalate pieces = s := by
  induction turns generalizing s pieces with
  | zero => cases h
  | succ turns ih =>
    rw [splitString] at h
    cases hfind : findText d s with
    | none =>
      rw [hfind] at h
      obtain rfl := Option.some.inj h
      exact ⟨List.cons_ne_nil _ _, List.intercalate_singleton⟩
    | some i =>
      rw [hfind] at h
      obtain ⟨rest, hrest, rfl⟩ := Option.map_eq_some_iff.mp h
      obtain ⟨⟨last, hsplit, hlast, -⟩, -⟩ := findText_some hfind
      obtain ⟨hne, hjoin⟩ := ih hrest
      refine ⟨List.cons_ne_nil _ _, ?_⟩
      rw [intercalate_cons hne, hjoin, ← hlast, ← hsplit]

theorem splitString_nil (turns : ℕ) (s : Text) : splitString [] turns s = none := by
  induction turns with
  | zero => rfl
  | succ turns ih =>
    have hfind : findText [] s = some 0 := by cases s <;> rfl
    rw [splitString, hfind]
    simp only [List.length_nil, Nat.add_zero, List.drop_zero, ih, Option.map_none]

/-! ## The primitives -/

section Strings

variable {P : Printing} {form : Script.Object} {s d : Text}

theorem evalStringSplit_eq (P : Printing) (form : Script.Object) (turns : ℕ) (s d : Text) :
    evalStringSplit P form turns { unnamed := [.string s, .string d] } =
      match splitString d turns s with
      | none => .error .unfinished
      | some list => .ok (Script.Object.ofList (list.map toSymbol)) := by
  have hcheck : varargCheck P form { unnamed := [.string s, .string d] }
      [[text "string"], [text "string"]] = .ok () :=
    varargCheck_ok rfl (.cons (.inr (List.mem_singleton.mpr rfl))
      (.cons (.inr (List.mem_singleton.mpr rfl)) .nil))
  simp only [evalStringSplit, hcheck, bind, Except.bind]
  cases splitString d turns s <;> rfl

theorem joinLoop_symbols (P : Printing) (d : Text) (hne : pieces ≠ []) :
    joinLoop P d true (pieces.map toSymbol) =
      d.intercalate (pieces.map fun piece => piece.takeWhile (· ≠ 0)) := by
  have hrest : ∀ ps : List Text, joinLoop P d false (ps.map toSymbol) =
      ps.flatMap fun piece => d ++ piece.takeWhile (· ≠ 0) := by
    intro ps
    induction ps with
    | nil => rfl
    | cons p ps ih =>
      rw [List.map_cons, joinLoop, ih, List.flatMap_cons]
      rfl
  have hjoin : ∀ (p : Text) (ps : List Text),
      p ++ ps.flatMap (fun piece => d ++ piece) = d.intercalate (p :: ps) := by
    intro p ps
    induction ps generalizing p with
    | nil => simp
    | cons q ps ih => rw [intercalate_cons (List.cons_ne_nil q ps), ← ih]; simp
  cases pieces with
  | nil => exact absurd rfl hne
  | cons p ps =>
    rw [List.map_cons, joinLoop, hrest, List.map_cons, ← hjoin, List.flatMap_map]
    rfl

theorem isProperList_ofList (l : List Script.Object) :
    isProperList (Script.Object.ofList l) = true := by
  induction l with
  | nil => rfl
  | cons o l ih => exact ih

theorem evalStringJoin_pieces (P : Printing) (form : Script.Object) (d : Text)
    (hne : pieces ≠ []) :
    evalStringJoin P form
        { unnamed := [Script.Object.ofList (pieces.map toSymbol), .string d] } =
      .ok (.string (d.intercalate (pieces.map fun piece => piece.takeWhile (· ≠ 0)))) := by
  have htype : (Script.Object.ofList (pieces.map toSymbol)).typeName = text "pair" := by
    cases pieces with
    | nil => exact absurd rfl hne
    | cons p ps => rfl
  have hcheck : varargCheck P form
      { unnamed := [Script.Object.ofList (pieces.map toSymbol), .string d] }
      [[text "pair"], [text "string"]] = .ok () :=
    varargCheck_ok rfl (.cons (.inr (List.mem_singleton.mpr htype))
      (.cons (.inr (List.mem_singleton.mpr rfl)) .nil))
  rw [evalStringJoin, hcheck]
  simp only [bind, Except.bind, isProperList_ofList, if_true, Script.Object.elements_ofList,
    joinLoop_symbols P d hne]
  rfl

theorem length_intercalate_takeWhile (d : Text) (pieces : List Text) :
    (d.intercalate (pieces.map fun piece => piece.takeWhile (· ≠ 0))).length ≤
      (d.intercalate pieces).length := by
  induction pieces with
  | nil => exact Nat.le_refl _
  | cons q qs ih =>
    have hq := (List.takeWhile_prefix (l := q) (· ≠ 0)).length_le
    by_cases hqs : qs = []
    · subst hqs
      rw [List.map_singleton, List.intercalate_singleton, List.intercalate_singleton]
      exact hq
    · rw [List.map_cons, intercalate_cons hqs, intercalate_cons (mt List.map_eq_nil_iff.mp hqs)]
      simp only [List.length_append]
      omega

theorem not_mem_of_intercalate_eq
    (h : d.intercalate (pieces.map fun piece => piece.takeWhile (· ≠ 0)) =
      d.intercalate pieces) : ∀ piece ∈ pieces, 0 ∉ piece := by
  induction pieces with
  | nil => exact fun piece hpiece => absurd hpiece List.not_mem_nil
  | cons q qs ih =>
    have hwhole : q.takeWhile (· ≠ 0) = q ∧ d.intercalate (qs.map fun piece =>
        piece.takeWhile (· ≠ 0)) = d.intercalate qs := by
      by_cases hqs : qs = []
      · subst hqs
        rw [List.map_singleton, List.intercalate_singleton, List.intercalate_singleton] at h
        exact ⟨h, rfl⟩
      · rw [List.map_cons, intercalate_cons hqs,
          intercalate_cons (mt List.map_eq_nil_iff.mp hqs)] at h
        have hlength := congrArg List.length h
        have hq := List.takeWhile_prefix (l := q) (· ≠ 0)
        have hle := length_intercalate_takeWhile d qs
        simp only [List.length_append] at hlength
        have hq := hq.eq_of_length (by have := hq.length_le; omega)
        rw [hq] at h
        exact ⟨hq, List.append_cancel_left (List.append_cancel_left h)⟩
    intro piece hpiece
    rcases List.mem_cons.mp hpiece with rfl | hpiece
    · intro hzero
      rw [List.takeWhile_eq_self_iff] at hwhole
      exact absurd (hwhole.1 0 hzero) (by simp)
    · exact ih hwhole.2 piece hpiece

/-- `string-split` ends and `string-join` makes the string again exactly when the delimiter is not
empty and the pieces hold no zero byte: the search for an empty delimiter never moves on, and a
piece becomes the symbol of a C string. SRCLINE: StringUtil.cpp:103-119 -/
theorem splitsAndJoins_iff (P : Printing) (form : Script.Object) (s d : Text) :
    SplitsAndJoins P form s d ↔ d ≠ [] ∧ JoinedFromCStrings s d := by
  constructor
  · rintro ⟨turns, ⟨e, he, hsplit⟩ | ⟨list, hsplit, -, hjoin⟩⟩
    · rw [evalStringSplit_eq] at hsplit
      cases hpieces : splitString d turns s with
      | none =>
        rw [hpieces] at hsplit
        exact absurd (Except.error.inj hsplit).symm he
      | some pieces =>
        rw [hpieces] at hsplit
        cases hsplit
    · rw [evalStringSplit_eq] at hsplit
      cases hpieces : splitString d turns s with
      | none =>
        rw [hpieces] at hsplit
        cases hsplit
      | some pieces =>
        rw [hpieces] at hsplit
        obtain rfl := Except.ok.inj hsplit
        have hd : d ≠ [] := by
          rintro rfl
          rw [splitString_nil] at hpieces
          cases hpieces
        obtain ⟨hne, hs⟩ := splitString_joins hpieces
        rw [evalStringJoin_pieces P form d hne] at hjoin
        refine ⟨hd, pieces, hne, not_mem_of_intercalate_eq (d := d) ?_, hs⟩
        rw [hs]
        exact Script.Object.string.inj (Except.ok.inj hjoin)
  · rintro ⟨hd, hs⟩
    obtain ⟨pieces, hpieces, hne, hno, hjoin, hzero⟩ :=
      splitString_spec hd (s.length + 1) (Nat.lt_succ_self _)
    refine ⟨s.length + 1, .inr ⟨Script.Object.ofList (pieces.map toSymbol), ?_, ?_, ?_⟩⟩
    · rw [evalStringSplit_eq, hpieces]
    · intro piece hpiece name hname
      rw [Script.Object.elements_ofList] at hpiece
      obtain ⟨p, hp, rfl⟩ := List.mem_map.mp hpiece
      obtain rfl := Script.Object.symbol.inj hname
      exact fun hinside => hno p hp (hinside.trans (List.takeWhile_prefix _).isInfix)
    · rw [evalStringJoin_pieces P form d hne]
      have hwhole : pieces.map (fun piece => piece.takeWhile (· ≠ 0)) = pieces := by
        conv_rhs => rw [← List.map_id pieces]
        refine List.map_congr_left fun piece hpiece => ?_
        exact List.takeWhile_eq_self_iff.mpr fun b hb =>
          decide_eq_true fun hb0 => hzero hs piece hpiece (hb0 ▸ hb)
      rw [hwhole, hjoin]

/-- An empty delimiter is found at the first byte of `"a"` in every turn.
SRCLINE: StringUtil.cpp:106-116 -/
theorem not_splitsAndJoins_empty :
    ¬ ∀ (P : Printing) (form : Script.Object) (s d : Text), SplitsAndJoins P form s d := by
  intro h
  have hends := h ⟨fun _ => [], fun _ => []⟩ .emptyList (text "a") []
  rcases hends with ⟨turns, ⟨e, he, hsplit⟩ | ⟨list, hsplit, -⟩⟩
  · rw [evalStringSplit_eq, splitString_nil] at hsplit
    exact he (Except.error.inj hsplit).symm
  · rw [evalStringSplit_eq, splitString_nil] at hsplit
    cases hsplit

end Strings

end Soot.Analysis.Script
