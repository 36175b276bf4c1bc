import Soot.Model.Script.Texts

/-!
# When positions in a text are reported right

The offsets of lines before a position and those behind it are known, so the search for its line
ends at the number of newlines before it. The line is cut off one byte before the next offset, which
is right where that is the offset after a newline, but not in a last line without one: so a position
is located exactly if a newline follows it.
-/

set_option autoImplicit false

namespace Soot.Analysis.Script

open Soot.Computation Soot.Program.Script Soot.Model.Script

variable {s : SourceText} {x : ℕ}

/-! ## The offsets around a position -/

/-- The length of a byte order mark at the start. -/
def bomLength (s : SourceText) : ℕ := if s.hasBom then 3 else 0

/-- The offsets of the lines up to that of a position. -/
def offsetsBefore (s : SourceText) (x : ℕ) : List ℤ :=
  (bomLength s : ℤ) :: (breaks (byte '\n') (s.text.take x)).map Int.ofNat

/-- The offsets behind a position: of the lines after its line, and of the end. -/
def offsetsBehind (s : SourceText) (x : ℕ) : List ℤ :=
  (breaks (byte '\n') (s.text.drop x)).map (fun i => ((i + x : ℕ) : ℤ)) ++ [(s.text.length : ℤ)]

theorem offsetByLine_eq (hx : x < s.text.length) :
    s.offsetByLine = offsetsBefore s x ++ offsetsBehind s x := by
  have hsplit : breaks (byte '\n') s.text = breaks (byte '\n') (s.text.take x) ++
      (breaks (byte '\n') (s.text.drop x)).map (· + x) := by
    conv_lhs => rw [← List.take_append_drop x s.text, breaks_append, List.length_take,
      Nat.min_eq_left (Nat.le_of_lt hx)]
  have hfirst : (if s.hasBom then (3 : ℤ) else 0) = (bomLength s : ℤ) := by
    rw [bomLength]
    split <;> rfl
  rw [SourceText.offsetByLine, hsplit, hfirst, List.map_append, List.map_map, offsetsBefore,
    offsetsBehind]
  simp only [List.cons_append, List.append_assoc]
  rfl

theorem length_offsetsBefore : (offsetsBefore s x).length = newlinesBefore s x + 1 := by
  rw [offsetsBefore, List.length_cons, List.length_map, length_breaks, newlinesBefore]

theorem lt_of_mem_offsetsBehind (hx : x < s.text.length) {b : ℤ} (hb : b ∈ offsetsBehind s x) :
    (x : ℤ) < b := by
  rcases List.mem_append.mp hb with hb | hb
  · obtain ⟨i, hi, rfl⟩ := List.mem_map.mp hb
    have hpos := pos_of_mem_breaks hi
    omega
  · rw [List.mem_singleton.mp hb]
    omega

theorem le_of_mem_offsetsBefore (hx : x < s.text.length) (hbom : bomLength s ≤ x) {a : ℤ}
    (ha : a ∈ offsetsBefore s x) : a ≤ x := by
  rcases List.mem_cons.mp ha with rfl | ha
  · omega
  · obtain ⟨i, hi, rfl⟩ := List.mem_map.mp ha
    have hle := le_of_mem_breaks hi
    rw [List.length_take] at hle
    change (i : ℤ) ≤ x
    omega

theorem getD_zero_offsetByLine : s.offsetByLine.getD 0 0 = (bomLength s : ℤ) := by
  rw [SourceText.offsetByLine, bomLength]
  split <;> rfl

theorem offsetsBehind_ne_nil : offsetsBehind s x ≠ [] := by
  simp [offsetsBehind]

theorem offsetsBefore_ne_nil : offsetsBefore s x ≠ [] := List.cons_ne_nil _ _

theorem findLine_eq (hx : x < s.text.length) (hbom : bomLength s ≤ x) :
    s.findLine x = some (newlinesBefore s x) := by
  have hfind := find?_between (fun a => le_of_mem_offsetsBefore hx hbom)
    (fun b => lt_of_mem_offsetsBehind hx) offsetsBefore_ne_nil offsetsBehind_ne_nil
  rw [SourceText.findLine, offsetByLine_eq hx, hfind, length_offsetsBefore, Nat.add_sub_cancel]

/-! ## Lines -/

/-- Where the line of a position begins. -/
def lineStart (s : SourceText) (x : ℕ) : ℕ := x - (lineHead s x).length + markLength s x

theorem mem_of_newlinesBefore (h : newlinesBefore s x ≠ 0) : byte '\n' ∈ s.text.take x := by
  by_contra hnot
  exact h (List.count_eq_zero_of_not_mem hnot)

theorem not_mem_of_newlinesBefore (h : newlinesBefore s x = 0) : byte '\n' ∉ s.text.take x :=
  List.count_eq_zero.mp h

theorem lineHead_first (h : newlinesBefore s x = 0) : lineHead s x = s.text.take x := by
  have hnot := not_mem_of_newlinesBefore h
  rw [lineHead, List.rtakeWhile_eq_self_iff]
  intro c hc
  rw [decide_eq_true_eq]
  rintro rfl
  exact hnot hc

theorem line_first (h : newlinesBefore s x = 0) :
    lineHead s x ++ lineTail s x = s.text.takeWhile (· ≠ byte '\n') := by
  have hnot := not_mem_of_newlinesBefore h
  rw [lineHead_first h, lineTail]
  conv_rhs => rw [← List.take_append_drop x s.text]
  rw [List.takeWhile_append_of_pos]
  intro c hc
  rw [decide_eq_true_eq]
  rintro rfl
  exact hnot hc

theorem length_lineHead_le : (lineHead s x).length ≤ x := by
  have hsuffix := (List.rtakeWhile_suffix (· ≠ byte '\n') (s.text.take x)).length_le
  rw [List.length_take] at hsuffix
  exact Nat.le_trans hsuffix (Nat.min_le_left ..)

theorem markLength_le (hx : x < s.text.length) (hbom : bomLength s ≤ x) :
    markLength s x ≤ (lineHead s x).length := by
  rw [markLength]
  split
  · next h =>
    rw [lineHead_first h.2, List.length_take, Nat.min_eq_left (Nat.le_of_lt hx)]
    rw [bomLength, if_pos h.1] at hbom
    exact hbom
  · exact Nat.zero_le _

theorem drop_lineStart (hx : x < s.text.length) (hbom : bomLength s ≤ x) :
    s.text.drop (lineStart s x) =
      lineAt s x ++ (s.text.drop x).dropWhile (· ≠ byte '\n') := by
  have hsplit := List.rdropWhile_append_rtakeWhile (p := (· ≠ byte '\n')) (l := s.text.take x)
  have hlength := congrArg List.length hsplit
  rw [List.length_append, List.length_take, Nat.min_eq_left (Nat.le_of_lt hx)] at hlength
  have htail := List.takeWhile_append_dropWhile (p := (· ≠ byte '\n')) (l := s.text.drop x)
  have htext : s.text = (s.text.take x).rdropWhile (· ≠ byte '\n') ++ (lineHead s x ++ lineTail s x ++
      (s.text.drop x).dropWhile (· ≠ byte '\n')) := by
    rw [List.append_assoc, lineTail, htail, ← List.append_assoc, lineHead, hsplit,
      List.take_append_drop]
  have hmark := markLength_le hx hbom
  obtain ⟨pre, hpre, hstart⟩ : ∃ pre, s.text = pre ++ (lineHead s x ++ lineTail s x ++
      (s.text.drop x).dropWhile (· ≠ byte '\n')) ∧ x - (lineHead s x).length = pre.length := by
    refine ⟨_, htext, ?_⟩
    rw [lineHead]
    omega
  have hdrop := congrArg (List.drop pre.length) hpre
  rw [List.drop_left] at hdrop
  rw [lineStart, ← List.drop_drop, hstart, hdrop, lineAt, List.drop_append_of_le_length]
  rw [List.length_append]
  omega

theorem offset_line (hx : x < s.text.length) :
    s.offsetByLine[newlinesBefore s x]? = some (lineStart s x : ℤ) := by
  have hlt : newlinesBefore s x < (offsetsBefore s x).length := by
    rw [length_offsetsBefore]
    exact Nat.lt_succ_self _
  have hlast : (offsetsBefore s x)[newlinesBefore s x]? = (offsetsBefore s x).getLast? := by
    rw [List.getLast?_eq_getElem?, length_offsetsBefore, Nat.add_sub_cancel]
  rw [offsetByLine_eq hx, List.getElem?_append_left hlt, hlast, offsetsBefore]
  by_cases h : newlinesBefore s x = 0
  · rw [breaks_eq_nil (not_mem_of_newlinesBefore h), lineStart, lineHead_first h, markLength,
      List.length_take, Nat.min_eq_left (Nat.le_of_lt hx), Nat.sub_self, Nat.zero_add, bomLength]
    simp [h]
  · have hlastBreak := getLast?_breaks (mem_of_newlinesBefore h)
    rw [List.length_take, Nat.min_eq_left (Nat.le_of_lt hx)] at hlastBreak
    rw [List.getLast?_cons, List.getLast?_map, hlastBreak, lineStart, markLength,
      if_neg fun hmark => h hmark.2, lineHead]
    rfl

theorem offset_nextLine (hx : x < s.text.length) :
    s.offsetByLine[newlinesBefore s x + 1]? =
      some (if byte '\n' ∈ s.text.drop x then ((x + (lineTail s x).length + 1 : ℕ) : ℤ)
        else (s.text.length : ℤ)) := by
  have hhead : (offsetsBefore s x ++ offsetsBehind s x)[newlinesBefore s x + 1]? =
      (offsetsBehind s x).head? := by
    rw [List.getElem?_append_right (by rw [length_offsetsBefore]), length_offsetsBefore,
      Nat.sub_self, List.head?_eq_getElem?]
  rw [offsetByLine_eq hx, hhead, offsetsBehind, List.head?_append, List.head?_map]
  by_cases h : byte '\n' ∈ s.text.drop x
  · rw [head?_breaks h, if_pos h, lineTail]
    simp only [Option.map_some, Option.some_or]
    congr 2
    omega
  · rw [breaks_eq_nil h, if_neg h]
    rfl

/-! ## Answers for a position that is not in the byte order mark -/

theorem lineStart_le (hx : x < s.text.length) (hbom : bomLength s ≤ x) : lineStart s x ≤ x := by
  have hmark := markLength_le hx hbom
  have hhead := length_lineHead_le (s := s) (x := x)
  rw [lineStart]
  omega

theorem length_lineAt (hx : x < s.text.length) (hbom : bomLength s ≤ x) :
    (lineAt s x).length = x - lineStart s x + (lineTail s x).length := by
  have hmark := markLength_le hx hbom
  have hhead := length_lineHead_le (s := s) (x := x)
  rw [lineAt, List.length_drop, List.length_append, lineStart]
  omega

theorem columnAt_eq (hx : x < s.text.length) (hbom : bomLength s ≤ x) :
    columnAt s x = x - lineStart s x := by
  have hmark := markLength_le hx hbom
  have hhead := length_lineHead_le (s := s) (x := x)
  rw [columnAt, lineStart]
  omega

theorem take_drop_lineStart (hx : x < s.text.length) (hbom : bomLength s ≤ x) :
    (s.text.drop (lineStart s x)).take (x - lineStart s x + (lineTail s x).length) =
      lineAt s x := by
  rw [drop_lineStart hx hbom, ← length_lineAt hx hbom, List.take_left]

theorem getD_eq_of_getElem? {l : List ℤ} {n : ℕ} {a d : ℤ} (h : l[n]? = some a) :
    l.getD n d = a := by
  rw [List.getD_eq_getElem?_getD, h]
  rfl

theorem getContainingLine_eq (hx : x < s.text.length) (hbom : bomLength s ≤ x) :
    s.getContainingLine x = ((lineStart s x : ℤ),
      if byte '\n' ∈ s.text.drop x then ((x + (lineTail s x).length : ℕ) : ℤ)
      else (s.text.length : ℤ) - 1) := by
  have hfirst : ¬s.offsetByLine.getD 0 0 > (x : ℤ) := by
    rw [getD_zero_offsetByLine]
    omega
  simp only [SourceText.getContainingLine, if_neg hfirst, findLine_eq hx hbom,
    getD_eq_of_getElem? (offset_line hx), getD_eq_of_getElem? (offset_nextLine hx)]
  split <;> simp

theorem getLine_eq (hx : x < s.text.length) (hbom : bomLength s ≤ x) :
    s.getLineContainingOffset x = .ok (if byte '\n' ∈ s.text.drop x then lineAt s x
      else (lineAt s x).dropLast) := by
  have hstart := lineStart_le hx hbom
  have hrange : ¬((lineStart s x : ℤ) < 0 ∨ (s.text.length : ℤ) < lineStart s x) := by omega
  rw [SourceText.getLineContainingOffset, getContainingLine_eq hx hbom]
  simp only [if_neg hrange, Int.toNat_natCast]
  congr 1
  by_cases h : byte '\n' ∈ s.text.drop x
  · rw [if_pos h, if_pos h, ← take_drop_lineStart hx hbom]
    congr 1
    omega
  · have htail : (lineTail s x).length = s.text.length - x := by
      rw [lineTail, List.takeWhile_eq_self_iff.mpr, List.length_drop]
      intro c hc
      rw [decide_eq_true_eq]
      rintro rfl
      exact h hc
    have hlength := length_lineAt hx hbom
    rw [if_neg h, if_neg h, List.dropLast_eq_take, hlength, ← take_drop_lineStart hx hbom,
      List.take_take]
    congr 1
    omega

/-! ## The byte order mark -/

theorem newline_not_mem_mark (h : s.hasBom = true) : byte '\n' ∉ s.text.take 3 := by
  rw [SourceText.hasBom, decide_eq_true_eq] at h
  rw [h]
  decide

theorem newlinesBefore_mark (h : s.hasBom = true) (hx : x ≤ 3) : newlinesBefore s x = 0 := by
  apply List.count_eq_zero_of_not_mem
  intro hmem
  apply newline_not_mem_mark h
  rw [← Nat.min_eq_left hx, ← List.take_take] at hmem
  exact List.mem_of_mem_take hmem

theorem lineAt_mark (h : s.hasBom = true) (hx : x ≤ 3) :
    lineAt s x = (s.text.takeWhile (· ≠ byte '\n')).drop 3 := by
  have hnewlines := newlinesBefore_mark h hx
  rw [lineAt, line_first hnewlines, markLength, if_pos ⟨h, hnewlines⟩]

theorem columnAt_mark (h : s.hasBom = true) (hx : x ≤ 3) : columnAt s x = 0 := by
  have hhead := length_lineHead_le (s := s) (x := x)
  rw [columnAt, markLength, if_pos ⟨h, newlinesBefore_mark h hx⟩]
  omega

theorem newline_mem_mark (h : s.hasBom = true) (hx : x ≤ 3) :
    byte '\n' ∈ s.text.drop x ↔ byte '\n' ∈ s.text.drop 3 := by
  constructor
  · intro hmem
    have hsplit : s.text.drop x = (s.text.take 3).drop x ++ s.text.drop 3 := by
      rw [← List.drop_append_of_le_length, List.take_append_drop]
      have hlength := congrArg List.length (of_decide_eq_true h)
      rw [hlength]
      exact hx
    rw [hsplit, List.mem_append] at hmem
    rcases hmem with hmark | hrest
    · exact absurd (List.mem_of_mem_drop hmark) (newline_not_mem_mark h)
    · exact hrest
  · intro hmem
    rw [show 3 = x + (3 - x) by omega, ← List.drop_drop] at hmem
    exact List.mem_of_mem_drop hmem

theorem getLine_mark (h : s.hasBom = true) (hx : x < 3) :
    s.getLineContainingOffset x = s.getLineContainingOffset (3 : ℕ) := by
  have hbom : bomLength s = 3 := if_pos h
  have hrange : s.getContainingLine x = s.getContainingLine (3 : ℕ) := by
    simp only [SourceText.getContainingLine, getD_zero_offsetByLine, hbom,
      if_pos (show ((3 : ℕ) : ℤ) > x by omega), if_neg (show ¬((3 : ℕ) : ℤ) > (3 : ℕ) by omega)]
  rw [SourceText.getLineContainingOffset, SourceText.getLineContainingOffset, hrange]

/-! ## Answers -/

theorem getLineIdx_eq (hx : x < s.text.length) : s.getLineIdx x = .ok (newlinesBefore s x) := by
  rw [SourceText.getLineIdx, getD_zero_offsetByLine]
  by_cases hbom : bomLength s ≤ x
  · rw [if_neg (by omega), findLine_eq hx hbom]
  · rw [if_pos (by omega)]
    rw [bomLength] at hbom
    split at hbom
    · next h => rw [newlinesBefore_mark h (by omega)]
    · omega

/-- What is asked of a text about a position before a newline. -/
structure Answered (s : SourceText) (x : ℕ) (start next : ℤ) : Prop where
  line : s.getLineContainingOffset x = .ok (lineAt s x)
  startsAt : s.getOffsetOfLine (newlinesBefore s x) = .ok start
  endsAt : s.getOffsetOfLine (newlinesBefore s x + 1) = .ok next
  column : max ((x : ℤ) - start) 0 = columnAt s x
  positive : 0 ≤ next - start - 1
  cut : (s.text.drop start.toNat).take (next - start - 1).toNat = lineAt s x

theorem answered (hx : x < s.text.length) (hbom : bomLength s ≤ x)
    (h : byte '\n' ∈ s.text.drop x) :
    Answered s x (lineStart s x) ((x + (lineTail s x).length + 1 : ℕ) : ℤ) := by
  have hstart := lineStart_le hx hbom
  constructor
  · rw [getLine_eq hx hbom, if_pos h]
  · rw [SourceText.getOffsetOfLine, offset_line hx]
  · rw [SourceText.getOffsetOfLine, offset_nextLine hx, if_pos h]
  · rw [columnAt_eq hx hbom]
    omega
  · omega
  · rw [← take_drop_lineStart hx hbom]
    congr 1
    omega

theorem exists_answered (hx : x < s.text.length) (h : byte '\n' ∈ s.text.drop x) :
    ∃ start next, Answered s x start next := by
  by_cases hbom : bomLength s ≤ x
  · exact ⟨_, _, answered hx hbom h⟩
  · -- a position in the mark
    have hmark : s.hasBom = true := by
      by_contra hno
      rw [bomLength, if_neg hno] at hbom
      omega
    have hlow : x < 3 := by
      rw [bomLength, if_pos hmark] at hbom
      omega
    have hmem := (newline_mem_mark hmark (Nat.le_of_lt hlow)).mp h
    have hlength : 3 < s.text.length := by
      by_contra hshort
      rw [List.drop_eq_nil_of_le (by omega)] at hmem
      cases hmem
    have hafter := answered hlength (by rw [bomLength, if_pos hmark]) hmem
    have hnewlines : newlinesBefore s x = newlinesBefore s 3 := by
      rw [newlinesBefore_mark hmark (Nat.le_of_lt hlow), newlinesBefore_mark hmark (Nat.le_refl 3)]
    have hline : lineAt s x = lineAt s 3 := by
      rw [lineAt_mark hmark (Nat.le_of_lt hlow), lineAt_mark hmark (Nat.le_refl 3)]
    have hzero : lineStart s 3 = 3 := by
      rw [lineStart, markLength, if_pos ⟨hmark, newlinesBefore_mark hmark (Nat.le_refl 3)⟩,
        lineHead_first (newlinesBefore_mark hmark (Nat.le_refl 3)), List.length_take]
      omega
    refine ⟨_, _, ?_, ?_, ?_, ?_, hafter.positive, ?_⟩
    · rw [getLine_mark hmark hlow, hline]
      exact hafter.line
    · rw [hnewlines]
      exact hafter.startsAt
    · rw [hnewlines]
      exact hafter.endsAt
    · rw [hzero, columnAt_mark hmark (Nat.le_of_lt hlow)]
      omega
    · rw [hline]
      exact hafter.cut

theorem newline_not_mem_lineAt : byte '\n' ∉ lineAt s x := by
  intro hmem
  rcases List.mem_append.mp (List.mem_of_mem_drop hmem) with hhead | htail
  · simpa using List.mem_rtakeWhile_imp hhead
  · simpa using List.mem_takeWhile_imp htail

theorem getInfoAt_eq (hx : x < s.text.length) {start next : ℤ} (h : Answered s x start next)
    (C : Colours) : TextDb.getInfoAt C s x = .ok (reportAt s x C) := by
  have hclamp : max 0 (min (x : ℤ) (s.text.length - 1)) = x := by omega
  have hlast : (C.grey (text "  at " ++ s.description ++ text ":" ++
      digits (newlinesBefore s x + 1) ++ text "\n") ++ text "    " ++ lineAt s x).getLast? ≠
      some (byte '\n') := by
    rw [List.getLast?_append]
    intro heq
    cases hline : (lineAt s x).getLast? with
    | none =>
      rw [hline, Option.none_or, List.getLast?_append] at heq
      revert heq
      with_unfolding_all exact nofun
    | some c =>
      rw [hline] at heq
      obtain rfl := Option.some.inj heq
      exact newline_not_mem_lineAt (List.mem_of_getLast? hline)
  have hcolumn : (if (x : ℤ) - start < 0 then (0 : ℤ) else x - start) = columnAt s x := by
    rw [← h.column]
    split <;> omega
  simp only [TextDb.getInfoAt, hclamp, getLineIdx_eq hx, h.line, h.startsAt, if_neg hlast, hcolumn,
    bind, Except.bind]
  rw [reportAt]
  rfl

theorem getShortInfoAt_eq (hx : x < s.text.length) {start next : ℤ} (h : Answered s x start next) :
    TextDb.getShortInfoAt s x = .ok (shortInfoAt s x s.description) := by
  simp only [TextDb.getShortInfoAt, getLineIdx_eq hx, h.line, h.startsAt, h.column, bind,
    Except.bind]
  rfl

theorem reported (hx : x < s.text.length) {start next : ℤ} (h : Answered s x start next)
    (C : Colours) (db : TextDb) (address : ℕ) : Reported s x C db address := by
  refine ⟨_, rfl, ?_, ?_, ?_⟩
  · simp only [TextDb.getInfoFor, if_pos, getInfoAt_eq hx h]
    rfl
  · simp only [TextDb.getShortInfoFor, if_pos, getShortInfoAt_eq hx h]
    rfl
  · have hpositive := h.positive
    simp only [TextDb.tryGetShortInfo, if_pos, getLineIdx_eq hx, h.startsAt, h.endsAt, h.column,
      if_neg (show ¬next - start - 1 < 0 by omega), h.cut, bind, Except.bind]
    rfl

theorem getLine_last (hx : x < s.text.length) (hbom : bomLength s ≤ x)
    (h : byte '\n' ∉ s.text.drop x) : s.getLineContainingOffset x ≠ .ok (lineAt s x) := by
  have hlength := length_lineAt hx hbom
  have htail : (lineTail s x).length = s.text.length - x := by
    rw [lineTail, List.takeWhile_eq_self_iff.mpr, List.length_drop]
    intro c hc
    rw [decide_eq_true_eq]
    rintro rfl
    exact h hc
  rw [getLine_eq hx hbom, if_neg h]
  intro heq
  have hcut := congrArg List.length (Except.ok.inj heq)
  rw [List.length_dropLast] at hcut
  omega

theorem getLine_onlyMark (h : s.hasBom = true) (hlength : s.text.length = 3) :
    s.getLineContainingOffset (3 : ℕ) = .ok s.text := by
  obtain ⟨t, description, fatal⟩ := s
  have htext : t = [0xEF, 0xBB, 0xBF] := by
    rw [← of_decide_eq_true h]
    exact (List.take_of_length_le (Nat.le_of_eq hlength)).symm
  subst htext
  rfl

theorem getLine_ne (hx : x < s.text.length) (h : byte '\n' ∉ s.text.drop x) :
    s.getLineContainingOffset x ≠ .ok (lineAt s x) := by
  by_cases hbom : bomLength s ≤ x
  · exact getLine_last hx hbom h
  · have hmark : s.hasBom = true := by
      by_contra hno
      rw [bomLength, if_neg hno] at hbom
      omega
    have hlow : x < 3 := by
      rw [bomLength, if_pos hmark] at hbom
      omega
    rw [getLine_mark hmark hlow, lineAt_mark hmark (Nat.le_of_lt hlow),
      ← lineAt_mark hmark (Nat.le_refl 3)]
    rw [newline_mem_mark hmark (Nat.le_of_lt hlow)] at h
    by_cases hlength : 3 < s.text.length
    · exact getLine_last hlength (by rw [bomLength, if_pos hmark]) h
    · have hmarkLength := congrArg List.length (of_decide_eq_true hmark)
      rw [List.length_take] at hmarkLength
      have hthree : s.text.length = 3 := by
        simp only [List.length_cons, List.length_nil] at hmarkLength
        omega
      rw [getLine_onlyMark hmark hthree, lineAt_mark hmark (Nat.le_refl 3)]
      intro heq
      have hcut := congrArg List.length (Except.ok.inj heq)
      rw [List.length_drop] at hcut
      have htake := (List.takeWhile_sublist (· ≠ byte '\n') (l := s.text)).length_le
      omega

/-- A position in a text is located exactly if a newline stands at it or after it.
SRCLINE: SourceText.cpp:17-79, TextDb.cpp:124-217 -/
theorem located_iff (s : SourceText) {offset : ℕ} (hoffset : offset < s.text.length) :
    Located s offset ↔ byte '\n' ∈ s.text.drop offset := by
  constructor
  · rintro ⟨-, hline, -⟩
    by_contra h
    exact getLine_ne hoffset h hline
  · intro h
    obtain ⟨start, next, hanswered⟩ := exists_answered hoffset h
    exact ⟨getLineIdx_eq hoffset, hanswered.line, reported hoffset hanswered⟩

/-- A text with a byte order mark and two lines, at the second. -/
theorem located_iff_second :
    let s : SourceText := ⟨[0xEF, 0xBB, 0xBF] ++ text "ab\ncd\n", text "f", true⟩
    6 < s.text.length ∧ byte '\n' ∈ s.text.drop 6 ∧ Located s 6 := by
  intro s
  have hlength : 6 < s.text.length := by with_unfolding_all decide
  have hnewline : byte '\n' ∈ s.text.drop 6 := by with_unfolding_all decide
  exact ⟨hlength, hnewline, (located_iff s hlength).mpr hnewline⟩

/-- The line of a text without a newline. SRCLINE: SourceText.cpp:73-74 -/
theorem not_located :
    ¬∀ (s : SourceText) (offset : ℕ), offset < s.text.length → Located s offset := by
  intro h
  obtain ⟨-, hline, -⟩ := h ⟨text "(a)", text "f", true⟩ 0 (by with_unfolding_all decide)
  have hcut := congrArg (fun r => r.toOption.map List.length) hline
  revert hcut
  with_unfolding_all decide

end Soot.Analysis.Script
