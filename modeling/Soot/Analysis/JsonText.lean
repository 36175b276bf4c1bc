import Mathlib.Data.List.TakeWhile
import Soot.Model.JsonText

/-!
# What the comment scanner leaves

The scanner decides where a literal ends from one byte back, so a literal whose body ends in a
backslash stays open for it. From there it reads the text inside out: what lies between literals
counts as string, what lies in a literal does not, until a literal with an escaped quote in it sets
it right. On texts of pieces this is followed piece by piece; on any text the scanner is compared
with the reading of one byte after the other, as long as no literal ends so.
-/

set_option autoImplicit false

namespace Soot.Analysis

open Soot.Computation Soot.Program Soot.Model

variable {prev : UInt8}

/-! ## One step of the loop -/

/-- What a piece of the text gives, before what the loop gives after it. -/
def pushing (bytes : Text) (result : StripState × Text) : StripState × Text :=
  (result.1, bytes ++ result.2)

@[simp] theorem pushing_nil (result : StripState × Text) : pushing [] result = result := rfl

@[simp] theorem pushing_pushing (bytes bytes' : Text) (result : StripState × Text) :
    pushing bytes (pushing bytes' result) = pushing (bytes ++ bytes') result := by
  simp [pushing]

theorem stripLoop_cons (state : StripState) (prev c : UInt8) (rest : Text) :
    stripLoop state prev false (c :: rest) =
      pushing (stripStep state prev c (rest.headD 0)).2.1
        (stripLoop (stripStep state prev c (rest.headD 0)).1 c
          (stripStep state prev c (rest.headD 0)).2.2 rest) := rfl

@[simp] theorem stripLoop_skip (state : StripState) (prev c : UInt8) (rest : Text) :
    stripLoop state prev true (c :: rest) = stripLoop state c false rest := rfl

theorem stripLoop_prev {state : StripState} (hstate : state ≠ .string) (prev prev' : UInt8)
    (s : Text) : stripLoop state prev false s = stripLoop state prev' false s := by
  cases s with
  | nil => rfl
  | cons c rest =>
    have hstep : stripStep state prev c (rest.headD 0) =
        stripStep state prev' c (rest.headD 0) := by
      cases state <;> first | rfl | exact absurd rfl hstate
    rw [stripLoop_cons, stripLoop_cons, hstep]

theorem stripLoop_normal {prev c : UInt8} {rest : Text} (hquote : c ≠ byte '"')
    (hslash : c = byte '/' → rest.headD 0 ≠ byte '/' ∧ rest.headD 0 ≠ byte '*') :
    stripLoop .normal prev false (c :: rest) = pushing [c] (stripLoop .normal c false rest) := by
  have hblock : ¬ (c = byte '/' ∧ rest.headD 0 = byte '*') := fun h => (hslash h.1).2 h.2
  have hline : ¬ (c = byte '/' ∧ rest.headD 0 = byte '/') := fun h => (hslash h.1).1 h.2
  rw [stripLoop_cons]
  simp only [stripStep, if_neg hblock, if_neg hline, if_neg hquote]

theorem stripLoop_normal_quote (prev : UInt8) (rest : Text) :
    stripLoop .normal prev false (byte '"' :: rest) =
      pushing [byte '"'] (stripLoop .string (byte '"') false rest) := rfl

theorem stripLoop_normal_line (prev : UInt8) (rest : Text) :
    stripLoop .normal prev false (byte '/' :: byte '/' :: rest) =
      stripLoop .lineComment (byte '/') false rest := rfl

theorem stripLoop_string {prev c : UInt8} (hc : c ≠ byte '"' ∨ prev = byte '\\') (rest : Text) :
    stripLoop .string prev false (c :: rest) = pushing [c] (stripLoop .string c false rest) := by
  have hopen : ¬ (c = byte '"' ∧ prev ≠ byte '\\') := fun h => hc.elim (· h.1) (h.2 ·)
  rw [stripLoop_cons]
  simp only [stripStep, if_neg hopen]

theorem stripLoop_string_quote (hprev : prev ≠ byte '\\') (rest : Text) :
    stripLoop .string prev false (byte '"' :: rest) =
      pushing [byte '"'] (stripLoop .normal (byte '"') false rest) := by
  rw [stripLoop_cons]
  simp only [stripStep, true_and, if_pos hprev]

/-! ## Comments -/

theorem stripLoop_lineComment {body : Text} (hbody : byte '\n' ∉ body) (prev : UInt8)
    (rest : Text) :
    ∃ prev', stripLoop .lineComment prev false (body ++ rest) =
      stripLoop .lineComment prev' false rest := by
  induction body generalizing prev with
  | nil => exact ⟨prev, rfl⟩
  | cons c body ih =>
    obtain ⟨hc, hbody⟩ := not_or.mp (List.mem_cons.not.mp hbody)
    obtain ⟨prev', hrest⟩ := ih hbody c
    refine ⟨prev', ?_⟩
    rw [← hrest, List.cons_append, stripLoop_cons]
    simp only [stripStep, if_neg (Ne.symm hc), pushing_nil]

theorem stripLoop_blockComment {body : Text} (hbody : ¬ [byte '*', byte '/'] <:+: body)
    (prev : UInt8) (rest : Text) :
    stripLoop .blockComment prev false (body ++ byte '*' :: byte '/' :: rest) =
      stripLoop .normal (byte '/') false rest := by
  induction body generalizing prev with
  | nil => rfl
  | cons c body ih =>
    have hinner : ¬ [byte '*', byte '/'] <:+: body := fun h =>
      hbody (h.trans (List.suffix_cons c body).isInfix)
    have hopen : ¬ (c = byte '*' ∧
        (body ++ byte '*' :: byte '/' :: rest).headD 0 = byte '/') := by
      rintro ⟨rfl, hhead⟩
      cases body with
      | nil => cases hhead
      | cons d body =>
        obtain rfl : d = byte '/' := hhead
        exact hbody ⟨[], body, rfl⟩
    rw [List.cons_append, stripLoop_cons]
    simp only [stripStep, if_neg hopen, pushing_nil]
    exact ih hinner c

theorem pushed_head {c : UInt8} (hc : c ≠ byte '/') (prev : UInt8) (rest : Text) :
    ∃ later, (stripLoop .normal prev false (c :: rest)).2 = c :: later := by
  by_cases hquote : c = byte '"'
  · subst hquote
    rw [stripLoop_normal_quote]
    exact ⟨_, rfl⟩
  · rw [stripLoop_normal hquote fun h => absurd h hc]
    exact ⟨_, rfl⟩

theorem no_marker_pushed {d : UInt8} (hd : d = byte '/' ∨ d = byte '*') (later s : Text)
    {state : StripState} (hstate : state ≠ .string) (prev : UInt8) (skip : Bool) :
    (stripLoop state prev skip s).2 ≠ byte '/' :: d :: later := by
  induction s generalizing state prev skip with
  | nil => exact (List.cons_ne_nil _ _).symm
  | cons c rest ih =>
    cases skip with
    | true => exact ih hstate c false
    | false =>
      rw [stripLoop_cons]
      cases state with
      | string => exact absurd rfl hstate
      | blockComment =>
        by_cases hend : c = byte '*' ∧ rest.headD 0 = byte '/'
        · simp only [stripStep, if_pos hend, pushing_nil]
          exact ih (by decide) c true
        · simp only [stripStep, if_neg hend, pushing_nil]
          exact ih (by decide) c false
      | lineComment =>
        by_cases hend : c = byte '\n'
        · subst hend
          exact fun h => absurd (List.cons.inj h).1 (by decide)
        · simp only [stripStep, if_neg hend, pushing_nil]
          exact ih (by decide) c false
      | normal =>
        by_cases hblock : c = byte '/' ∧ rest.headD 0 = byte '*'
        · simp only [stripStep, if_pos hblock, pushing_nil]
          exact ih (by decide) c true
        by_cases hline : c = byte '/' ∧ rest.headD 0 = byte '/'
        · simp only [stripStep, if_neg hblock, if_pos hline, pushing_nil]
          exact ih (by decide) c true
        -- A slash that opens no comment is pushed, and so is the byte after it.
        intro h
        by_cases hquote : c = byte '"'
        · subst hquote
          exact absurd (List.cons.inj h).1 (by decide)
        simp only [stripStep, if_neg hblock, if_neg hline, if_neg hquote, pushing,
          List.singleton_append, List.cons.injEq] at h
        obtain ⟨hc, hrest⟩ := h
        cases rest with
        | nil => cases hrest
        | cons e rest =>
          have he : e ≠ byte '/' := fun he => hline ⟨hc, he⟩
          obtain ⟨later', hpushed⟩ := pushed_head he c rest
          rw [hpushed] at hrest
          obtain rfl := (List.cons.inj hrest).1
          exact hd.elim he fun hstar => hblock ⟨hc, hstar⟩

/-! ## What is left of the text -/

/-- The loop ends with nothing open and has pushed this. -/
def LeavesText (result : StripState × Text) (output : Text) : Prop :=
  result.1 ≠ .blockComment ∧ result.1 ≠ .string ∧ result.2 = output

theorem stripCppStyleComments_eq_ok {s output : Text} :
    stripCppStyleComments s = .ok output ↔ LeavesText (stripLoop .normal 0 false s) output := by
  simp only [stripCppStyleComments, LeavesText]
  split_ifs with hblock hstring
  · simp [hblock]
  · simp [hstring]
  · simp [hblock, hstring]

theorem leaves_pushing {bytes : Text} {result : StripState × Text} {output : Text} :
    LeavesText (pushing bytes result) (bytes ++ output) ↔ LeavesText result output := by
  simp [LeavesText, pushing]

theorem leaves_pushing_cons {c : UInt8} {result : StripState × Text} {output : Text} :
    LeavesText (pushing [c] result) (c :: output) ↔ LeavesText result output :=
  leaves_pushing

theorem stripLoop_token (state : StripState) (hstate : state = .normal ∨ state = .string)
    {bytes : Text} (hbytes : ∀ b ∈ bytes, b ≠ byte '/' ∧ b ≠ byte '"' ∧ b ≠ byte '\\')
    (hprev : prev ≠ byte '\\') (rest : Text) :
    ∃ prev', prev' ≠ byte '\\' ∧ stripLoop state prev false (bytes ++ rest) =
      pushing bytes (stripLoop state prev' false rest) := by
  induction bytes generalizing prev with
  | nil => exact ⟨prev, hprev, rfl⟩
  | cons c bytes ih =>
    obtain ⟨hslash, hquote, hbackslash⟩ := hbytes c List.mem_cons_self
    obtain ⟨prev', hprev', hrest⟩ :=
      ih (fun b hb => hbytes b (List.mem_cons_of_mem c hb)) hbackslash
    have hfirst : stripLoop state prev false (c :: (bytes ++ rest)) =
        pushing [c] (stripLoop state c false (bytes ++ rest)) := by
      rcases hstate with rfl | rfl
      · exact stripLoop_normal hquote fun h => absurd h hslash
      · exact stripLoop_string (.inl hquote) _
    exact ⟨prev', hprev', by rw [List.cons_append, hfirst, hrest, pushing_pushing]; rfl⟩

theorem stripLoop_body (parts : List LiteralPart) (prev : UInt8) (rest : Text) :
    stripLoop .string prev false (bodyText parts ++ byte '"' :: rest) =
      pushing (bodyText parts ++ [byte '"'])
        (stripLoop
          (if (bodyText parts).getLast?.getD prev = byte '\\' then .string else .normal)
          (byte '"') false rest) := by
  induction parts generalizing prev with
  | nil =>
    by_cases hprev : prev = byte '\\'
    · subst hprev
      exact stripLoop_string (.inr rfl) rest
    · simp only [bodyText, List.flatMap_nil, List.nil_append, List.getLast?_nil, Option.getD_none,
        if_neg hprev]
      exact stripLoop_string_quote hprev rest
  | cons part parts ih =>
    have hlast : ∀ b : UInt8, (b :: bodyText parts).getLast?.getD prev =
        (bodyText parts).getLast?.getD b := fun b => by
      rw [List.getLast?_cons, Option.getD_some]
    cases part with
    | plain b stands =>
      show stripLoop .string prev false (b :: (bodyText parts ++ byte '"' :: rest)) =
        pushing (b :: bodyText parts ++ [byte '"']) (stripLoop
          (if (b :: bodyText parts).getLast?.getD prev = byte '\\' then .string else .normal)
          (byte '"') false rest)
      rw [stripLoop_string (.inl stands.1), ih, pushing_pushing, hlast]
      rfl
    | escape b =>
      show stripLoop .string prev false
          (byte '\\' :: b :: (bodyText parts ++ byte '"' :: rest)) =
        pushing (byte '\\' :: b :: bodyText parts ++ [byte '"']) (stripLoop
          (if (byte '\\' :: b :: bodyText parts).getLast?.getD prev = byte '\\' then .string
            else .normal) (byte '"') false rest)
      rw [stripLoop_string (.inl (by decide)), stripLoop_string (.inr rfl), ih, pushing_pushing,
        pushing_pushing, List.getLast?_cons_cons, hlast]
      rfl

theorem leaves_inside {bytes : Text} (hbytes : byte '"' ∉ bytes) (prev : UInt8)
    (rest output : Text) :
    LeavesText (stripLoop .normal prev false (bytes ++ byte '"' :: rest)) (bytes ++ output) ↔
      ¬ HasMarker bytes ∧
        LeavesText (stripLoop .normal prev false (byte '"' :: rest)) output := by
  induction bytes generalizing prev with
  | nil => simp [HasMarker]
  | cons c bytes ih =>
    obtain ⟨hc, hbytes⟩ := not_or.mp (List.mem_cons.not.mp hbytes)
    have hmarker : HasMarker (c :: bytes) ↔
        (c = byte '/' ∧ (bytes.head? = some (byte '/') ∨ bytes.head? = some (byte '*'))) ∨
          HasMarker bytes := by
      cases bytes with
      | nil => simp [HasMarker, List.infix_cons_iff]
      | cons d bytes =>
        simp only [HasMarker, List.infix_cons_iff, List.cons_prefix_cons, List.nil_prefix,
          List.head?_cons, Option.some.injEq]
        tauto
    by_cases hopens : c = byte '/' ∧
        (bytes.head? = some (byte '/') ∨ bytes.head? = some (byte '*'))
    · -- A comment begins here for the scanner, so the marker itself is never pushed.
      obtain ⟨rfl, hhead⟩ := hopens
      refine iff_of_false ?_ fun h => h.1 (hmarker.mpr (.inl ⟨rfl, hhead⟩))
      obtain ⟨d, bytes', rfl, hd⟩ : ∃ d bytes', bytes = d :: bytes' ∧
          (d = byte '/' ∨ d = byte '*') := by
        cases bytes with
        | nil => simp at hhead
        | cons d bytes' => exact ⟨d, bytes', rfl, by simpa using hhead⟩
      intro h
      exact no_marker_pushed hd (bytes' ++ output) _ (by decide) prev false h.2.2
    · have hnext : c = byte '/' →
          (bytes ++ byte '"' :: rest).headD 0 ≠ byte '/' ∧
            (bytes ++ byte '"' :: rest).headD 0 ≠ byte '*' := by
        intro hslash
        have hhead := not_or.mp fun h => hopens ⟨hslash, h⟩
        cases bytes with
        | nil => exact ⟨(by decide : byte '"' ≠ byte '/'), (by decide : byte '"' ≠ byte '*')⟩
        | cons d bytes => exact ⟨by simpa using hhead.1, by simpa using hhead.2⟩
      rw [List.cons_append, stripLoop_normal (Ne.symm hc) hnext]
      rw [List.cons_append, leaves_pushing_cons, ih hbytes, hmarker,
        stripLoop_prev (by decide) c prev]
      simp [hopens]

/-! ## The pieces of a text -/

theorem withoutComments_head (pieces : List Piece) :
    ∀ later, withoutComments pieces ≠ byte '/' :: later := by
  induction pieces with
  | nil => exact fun later => (List.cons_ne_nil _ _).symm
  | cons piece pieces ih =>
    intro later h
    cases piece with
    | lineComment body line => exact ih later h
    | blockComment body inner => exact ih later h
    | literal body => exact absurd (List.cons.inj h).1 (by decide)
    | token bytes plain =>
      cases bytes with
      | nil => exact ih later h
      | cons b bytes =>
        exact (plain b List.mem_cons_self).1 (List.cons.inj h).1

theorem not_leaves_comment (rest : Text) (pieces : List Piece) :
    ¬ LeavesText (stripLoop .string prev false (byte '/' :: rest)) (withoutComments pieces) := by
  intro h
  rw [stripLoop_string (.inl (by decide))] at h
  exact withoutComments_head pieces _ h.2.2.symm

theorem leaves_literal (parts : List LiteralPart) (prev : UInt8) (rest output : Text) :
    LeavesText (stripLoop .normal prev false ((Piece.literal parts).text ++ rest))
        ((Piece.literal parts).text ++ output) ↔
      LeavesText (stripLoop
        (if (bodyText parts).getLast? = some (byte '\\') then .string else .normal)
        (byte '"') false rest) output := by
  have hlast : (bodyText parts).getLast?.getD (byte '"') = byte '\\' ↔
      (bodyText parts).getLast? = some (byte '\\') := by
    cases (bodyText parts).getLast? with
    | none => exact iff_of_false (by decide) (by decide)
    | some b => simp
  have htext : ∀ s : Text, (Piece.literal parts).text ++ s =
      [byte '"'] ++ (bodyText parts ++ [byte '"']) ++ s := fun s => rfl
  have hloop : stripLoop .normal prev false ((Piece.literal parts).text ++ rest) =
      pushing ([byte '"'] ++ (bodyText parts ++ [byte '"'])) (stripLoop
        (if (bodyText parts).getLast? = some (byte '\\') then .string else .normal)
        (byte '"') false rest) := by
    have hrest : (Piece.literal parts).text ++ rest =
        byte '"' :: (bodyText parts ++ byte '"' :: rest) := by
      rw [htext]
      simp
    rw [hrest, stripLoop_normal_quote, stripLoop_body, pushing_pushing]
    simp only [hlast]
  rw [hloop, htext, leaves_pushing]

theorem body_of_quote {parts : List LiteralPart} (hquote : byte '"' ∈ bodyText parts) :
    ∃ after, bodyText parts =
      (bodyText parts).takeWhile (· ≠ byte '"') ++ byte '"' :: bodyText after := by
  induction parts with
  | nil => cases hquote
  | cons part parts ih =>
    cases part with
    | plain b stands =>
      have hparts : byte '"' ∈ bodyText parts :=
        (List.mem_cons.mp hquote).resolve_left (Ne.symm stands.1)
      obtain ⟨after, hafter⟩ := ih hparts
      refine ⟨after, ?_⟩
      show b :: bodyText parts = (b :: bodyText parts).takeWhile (· ≠ byte '"') ++ _
      rw [List.takeWhile_cons_of_pos (by simpa using stands.1), List.cons_append, ← hafter]
    | escape b =>
      by_cases hb : b = byte '"'
      · subst hb
        exact ⟨parts, rfl⟩
      · have hparts : byte '"' ∈ bodyText parts := by
          have hmem : byte '"' ∈ byte '\\' :: b :: bodyText parts := hquote
          simpa [Ne.symm hb, (by decide : byte '"' ≠ byte '\\')] using hmem
        obtain ⟨after, hafter⟩ := ih hparts
        refine ⟨after, ?_⟩
        show byte '\\' :: b :: bodyText parts =
          (byte '\\' :: b :: bodyText parts).takeWhile (· ≠ byte '"') ++ _
        rw [List.takeWhile_cons_of_pos (by decide), List.takeWhile_cons_of_pos (by simpa using hb),
          List.cons_append, List.cons_append, ← hafter]

theorem leaves_literal_inside_out (parts : List LiteralPart)
    (hprev : prev ≠ byte '\\') (rest output : Text) :
    LeavesText (stripLoop .string prev false ((Piece.literal parts).text ++ rest))
        ((Piece.literal parts).text ++ output) ↔
      ¬ HasMarker ((bodyText parts).takeWhile (· ≠ byte '"')) ∧
        LeavesText (stripLoop
          (if byte '"' ∉ bodyText parts ∨ (bodyText parts).getLast? = some (byte '\\') then .string
            else .normal) (byte '"') false rest) output := by
  have htext : ∀ s : Text, (Piece.literal parts).text ++ s =
      byte '"' :: (bodyText parts ++ byte '"' :: s) := fun s => by
    show byte '"' :: bodyText parts ++ [byte '"'] ++ s = _
    simp
  rw [htext, htext, stripLoop_string_quote hprev, leaves_pushing_cons]
  by_cases hquote : byte '"' ∈ bodyText parts
  · -- The escaped quote opens a string for the scanner, which the quote at the end closes.
    obtain ⟨after, hafter⟩ := body_of_quote hquote
    have hfirst : byte '"' ∉ (bodyText parts).takeWhile (· ≠ byte '"') := fun h => by
      simpa using List.mem_takeWhile_imp h
    have hlast : (bodyText after).getLast?.getD (byte '"') = byte '\\' ↔
        byte '"' ∉ bodyText parts ∨ (bodyText parts).getLast? = some (byte '\\') := by
      rw [or_iff_right (not_not_intro hquote), hafter, List.getLast?_append, List.getLast?_cons]
      cases (bodyText after).getLast? <;> simp
    have hsplit : ∀ s : Text, bodyText parts ++ byte '"' :: s =
        (bodyText parts).takeWhile (· ≠ byte '"') ++
          byte '"' :: ((bodyText after ++ [byte '"']) ++ s) := fun s => by
      conv_lhs => rw [hafter]
      simp
    have hloop : stripLoop .string (byte '"') false ((bodyText after ++ [byte '"']) ++ rest) =
        pushing (bodyText after ++ [byte '"']) (stripLoop
          (if byte '"' ∉ bodyText parts ∨ (bodyText parts).getLast? = some (byte '\\') then .string
            else .normal) (byte '"') false rest) := by
      rw [List.append_assoc, List.singleton_append, stripLoop_body]
      simp only [hlast]
    rw [hsplit, hsplit, leaves_inside hfirst, stripLoop_normal_quote, leaves_pushing_cons, hloop,
      leaves_pushing]
  · have hwhole : (bodyText parts).takeWhile (· ≠ byte '"') = bodyText parts :=
      List.takeWhile_eq_self_iff.mpr fun b hb => by
        simpa using fun h : b = byte '"' => hquote (h ▸ hb)
    rw [hwhole, leaves_inside hquote, stripLoop_normal_quote, leaves_pushing_cons,
      if_pos (.inl hquote)]

theorem leaves_lineComment {body : Text} (hbody : byte '\n' ∉ body) (prev : UInt8) {rest : Text}
    (hend : rest.head? = none ∨ rest.head? = some (byte '\n')) (output : Text) :
    LeavesText (stripLoop .normal prev false (byte '/' :: byte '/' :: (body ++ rest))) output ↔
      LeavesText (stripLoop .normal (byte '\n') false rest) output := by
  obtain ⟨prev', hcomment⟩ := stripLoop_lineComment hbody (byte '/') rest
  rw [stripLoop_normal_line, hcomment]
  cases rest with
  | nil => simp [LeavesText, stripLoop]
  | cons c rest =>
    obtain rfl : c = byte '\n' := by simpa using hend
    rfl

/-- What the scanner leaves of a text of pieces, from a place between two of them on.
The induction is on the pieces; `waiting` is the scanner's own state there. -/
theorem leaves_iff_recovers (pieces : List Piece) (hlines : LinesEnd pieces) (waiting : Bool)
    (hprev : prev ≠ byte '\\') :
    LeavesText (stripLoop (if waiting then .string else .normal) prev false (written pieces))
        (withoutComments pieces) ↔
      Recovers waiting pieces := by
  induction pieces generalizing waiting prev with
  | nil => cases waiting <;> simp [LeavesText, stripLoop, written, withoutComments, Recovers]
  | cons piece pieces ih =>
    have hwritten : written (piece :: pieces) = piece.text ++ written pieces := rfl
    have hkept : withoutComments (piece :: pieces) = piece.kept ++ withoutComments pieces := rfl
    rw [hwritten, hkept]
    cases piece with
    | token bytes plain =>
      obtain ⟨prev', hprev', hloop⟩ :=
        stripLoop_token (if waiting then .string else .normal) (by cases waiting <;> simp)
          plain hprev (written pieces)
      show LeavesText (stripLoop _ prev false (bytes ++ written pieces))
        (bytes ++ withoutComments pieces) ↔ Recovers waiting pieces
      rw [hloop, leaves_pushing]
      exact ih hlines waiting hprev'
    | lineComment body line =>
      cases waiting with
      | false =>
        refine (leaves_lineComment line prev hlines.1 _).trans ?_
        rw [Recovers, and_iff_right rfl]
        exact ih hlines.2 false (by decide)
      | true =>
        refine iff_of_false (not_leaves_comment _ pieces) ?_
        rw [Recovers]
        exact fun h => Bool.noConfusion h.1
    | blockComment body inner =>
      cases waiting with
      | false =>
        have hloop := stripLoop_blockComment inner (byte '*') (written pieces)
        have htext : (Piece.blockComment body inner).text ++ written pieces =
            byte '/' :: byte '*' :: (body ++ byte '*' :: byte '/' :: written pieces) := by
          simp [Piece.text]
        rw [htext]
        show LeavesText (stripLoop .blockComment (byte '*') false _) (withoutComments pieces) ↔ _
        rw [hloop, Recovers, and_iff_right rfl]
        exact ih hlines false (by decide)
      | true =>
        refine iff_of_false (not_leaves_comment _ pieces) ?_
        rw [Recovers]
        exact fun h => Bool.noConfusion h.1
    | literal body =>
      cases waiting with
      | false =>
        refine (leaves_literal body prev _ _).trans ?_
        rw [Recovers, ← ih hlines _ (by decide : byte '"' ≠ byte '\\')]
        simp only [decide_eq_true_eq]
      | true =>
        refine (leaves_literal_inside_out body hprev _ _).trans ?_
        rw [Recovers, ← ih hlines _ (by decide : byte '"' ≠ byte '\\')]
        simp only [decide_eq_true_eq]

/-! ## Any text -/

/-- The scanner is where the reading is. Between the two bytes of a marker it has looked
ahead. -/
def ScanFollows (place : Place) (state : StripState) (prev : UInt8) (skip : Bool) (rest : Text) :
    Prop :=
  match place with
  | .outside => state = .normal ∧ skip = false
  | .slash =>
    if rest.headD 0 = byte '*' then state = .blockComment ∧ skip = true
    else if rest.headD 0 = byte '/' then state = .lineComment ∧ skip = true
    else state = .normal ∧ skip = false
  | .line => state = .lineComment ∧ skip = false
  | .block => state = .blockComment ∧ skip = false
  | .star =>
    if rest.headD 0 = byte '/' then state = .normal ∧ skip = true
    else state = .blockComment ∧ skip = false
  | .literal => state = .string ∧ skip = false
  | .escape => (state = .string ∧ skip = false) ∧ prev = byte '\\'

/-- The state after a byte. -/
def stateAfter (state : StripState) (prev : UInt8) (skip : Bool) (c : UInt8) (rest : Text) :
    StripState × Bool :=
  if skip then (state, false)
  else ((stripStep state prev c (rest.headD 0)).1, (stripStep state prev c (rest.headD 0)).2.2)

theorem stripLoop_fst (state : StripState) (prev : UInt8) (skip : Bool) (c : UInt8)
    (rest : Text) :
    (stripLoop state prev skip (c :: rest)).1 =
      (stripLoop (stateAfter state prev skip c rest).1 c
        (stateAfter state prev skip c rest).2 rest).1 := by
  cases skip <;> rfl

theorem follows_step {place : Place} {state : StripState} {prev c : UInt8} {skip : Bool}
    {rest : Text} (h : ScanFollows place state prev skip (c :: rest))
    (hends : ¬ (place = .literal ∧ prev = byte '\\' ∧ c = byte '"')) :
    ScanFollows (place.next c) (stateAfter state prev skip c rest).1 c
      (stateAfter state prev skip c rest).2 rest := by
  have hslash : byte '/' ≠ byte '*' ∧ byte '/' ≠ byte '"' := by decide
  have hbackslash : byte '"' ≠ byte '\\' := by decide
  cases place with
  | outside =>
    obtain ⟨rfl, rfl⟩ := h
    by_cases hc : c = byte '/'
    · subst hc
      simp only [Place.next, if_true, ScanFollows, stateAfter, stripStep, true_and]
      generalize rest.headD 0 = next
      by_cases hstar : next = byte '*'
      · simp [hstar]
      · by_cases hline : next = byte '/' <;> simp [hstar, hline, hslash]
    · by_cases hquote : c = byte '"'
      · simp [Place.next, ScanFollows, stateAfter, stripStep, hquote, hslash.2.symm]
      · simp [Place.next, ScanFollows, stateAfter, stripStep, hquote, hc]
  | slash =>
    by_cases hstar : c = byte '*'
    · simp only [ScanFollows, List.headD_cons, hstar, if_true] at h
      simp [Place.next, ScanFollows, stateAfter, hstar, hslash.1.symm, h]
    by_cases hline : c = byte '/'
    · simp only [ScanFollows, List.headD_cons, hline, hslash, if_false, if_true] at h
      simp [Place.next, ScanFollows, stateAfter, hline, h]
    · simp only [ScanFollows, List.headD_cons, hstar, hline, if_false] at h
      obtain ⟨rfl, rfl⟩ := h
      by_cases hquote : c = byte '"'
      · simp [Place.next, ScanFollows, stateAfter, stripStep, hquote, hslash.2.symm,
          (by decide : byte '"' ≠ byte '*')]
      · simp [Place.next, ScanFollows, stateAfter, stripStep, hquote, hline, hstar]
  | line =>
    obtain ⟨rfl, rfl⟩ := h
    by_cases hc : c = byte '\n' <;> simp [Place.next, ScanFollows, stateAfter, stripStep, hc]
  | block =>
    obtain ⟨rfl, rfl⟩ := h
    by_cases hc : c = byte '*'
    · simp only [Place.next, if_pos hc, ScanFollows, stateAfter, stripStep]
      generalize rest.headD 0 = next
      by_cases hend : next = byte '/' <;> simp [hc, hend]
    · simp [Place.next, ScanFollows, stateAfter, stripStep, hc]
  | star =>
    by_cases hend : c = byte '/'
    · simp only [ScanFollows, List.headD_cons, hend, if_true] at h
      simp [Place.next, ScanFollows, stateAfter, hend, h]
    · simp only [ScanFollows, List.headD_cons, hend, if_false] at h
      obtain ⟨rfl, rfl⟩ := h
      by_cases hc : c = byte '*'
      · simp only [Place.next, if_neg hend, if_pos hc, ScanFollows, stateAfter, stripStep]
        generalize rest.headD 0 = next
        by_cases hnext : next = byte '/' <;> simp [hc, hnext]
      · simp [Place.next, ScanFollows, stateAfter, stripStep, hc, hend]
  | literal =>
    obtain ⟨rfl, rfl⟩ := h
    by_cases hc : c = byte '\\'
    · simp [Place.next, ScanFollows, stateAfter, stripStep, hc, hbackslash.symm]
    · by_cases hquote : c = byte '"'
      · have hprev : prev ≠ byte '\\' := fun hprev => hends ⟨rfl, hprev, hquote⟩
        simp [Place.next, ScanFollows, stateAfter, stripStep, hquote, hprev, hbackslash]
      · simp [Place.next, ScanFollows, stateAfter, stripStep, hc, hquote]
  | escape =>
    obtain ⟨⟨rfl, rfl⟩, rfl⟩ := h
    simp [Place.next, ScanFollows, stateAfter, stripStep]

theorem follows_run (rest first : Text) (state : StripState) (prev : UInt8) (skip : Bool)
    (hfirst : first.getLast?.getD 0 = prev)
    (hends : ¬ LiteralEndsInBackslash (first ++ rest))
    (h : ScanFollows (placeAfter first) state prev skip rest) :
    ∃ prev' skip', ScanFollows (placeAfter (first ++ rest)) (stripLoop state prev skip rest).1 prev'
      skip' [] := by
  induction rest generalizing first state prev skip with
  | nil => exact ⟨prev, skip, by rwa [List.append_nil]⟩
  | cons c rest ih =>
    have hsplit : first ++ c :: rest = (first ++ [c]) ++ rest := by simp
    have hquote : ¬ (placeAfter first = .literal ∧ prev = byte '\\' ∧ c = byte '"') := by
      rintro ⟨hplace, hprev, rfl⟩
      rw [← hfirst] at hprev
      cases first using List.reverseRecOn with
      | nil => exact absurd hprev (by decide)
      | append_singleton first b =>
        obtain rfl : b = byte '\\' := by simpa using hprev
        exact hends ⟨first, rest, by simp, hplace⟩
    have hplace : placeAfter (first ++ [c]) = (placeAfter first).next c := by
      simp [placeAfter]
    have hstep := follows_step h hquote
    rw [← hplace] at hstep
    rw [hsplit] at hends ⊢
    rw [stripLoop_fst]
    exact ih (first ++ [c]) _ _ _ (by simp) hends hstep

theorem throws_iff {s : Text} :
    (∃ e, stripCppStyleComments s = .error e) ↔
      (stripLoop .normal 0 false s).1 = .blockComment ∨
        (stripLoop .normal 0 false s).1 = .string := by
  simp only [stripCppStyleComments]
  split_ifs with hblock hstring
  · simp [hblock]
  · simp [hstring]
  · simp [hblock, hstring]

theorem open_iff_of_follows {place : Place} {state : StripState} {skip : Bool}
    (h : ScanFollows place state prev skip []) :
    place.Open ↔ state = .blockComment ∨ state = .string := by
  have hnone : (0 : UInt8) ≠ byte '*' ∧ (0 : UInt8) ≠ byte '/' := by decide
  cases place <;> simp_all [ScanFollows, Place.Open]

theorem stripped_iff (pieces : List Piece) (hlines : LinesEnd pieces) :
    stripCppStyleComments (written pieces) = .ok (withoutComments pieces) ↔
      Recovers false pieces := by
  rw [stripCppStyleComments_eq_ok]
  exact leaves_iff_recovers pieces hlines false (by decide)

theorem throws_iff_open (s : Text) (hends : ¬ LiteralEndsInBackslash s) :
    (∃ e, stripCppStyleComments s = .error e) ↔ (placeAfter s).Open := by
  obtain ⟨prev, skip, hfollows⟩ := follows_run s [] .normal 0 false rfl hends ⟨rfl, rfl⟩
  rw [throws_iff, ← open_iff_of_follows hfollows, List.nil_append]

/-- The comment scanner. On a text of pieces it leaves exactly the text without its comments if and
only if every literal whose body ends in a backslash is made up for by a later literal; on any text
in which no literal ends in a backslash it throws if and only if a comment or a literal is open.
SRCLINE: JsonUtil.cpp:10-72 -/
theorem stripped_iff_recovers (pieces : List Piece) (s : Text) :
    (LinesEnd pieces →
      (stripCppStyleComments (written pieces) = .ok (withoutComments pieces) ↔
        Recovers false pieces)) ∧
    (¬ LiteralEndsInBackslash s →
      ((∃ e, stripCppStyleComments s = .error e) ↔ (placeAfter s).Open)) :=
  ⟨stripped_iff pieces, throws_iff_open s⟩

theorem plain_singleton {b : UInt8} (h : b ≠ byte '/' ∧ b ≠ byte '"' ∧ b ≠ byte '\\') :
    ∀ c ∈ [b], c ≠ byte '/' ∧ c ≠ byte '"' ∧ c ≠ byte '\\' :=
  List.forall_mem_singleton.mpr h

/-- `1 // "` and the empty comment: the literal that looks open is in a comment. -/
theorem stripped_iff_recovers_commented :
    (stripCppStyleComments (written [.token [byte '1'] (plain_singleton (by decide)),
        .lineComment [byte '"'] (by decide)]) = .ok [byte '1'] ↔
      Recovers false [.token [byte '1'] (plain_singleton (by decide)),
        .lineComment [byte '"'] (by decide)]) ∧
    ((∃ e, stripCppStyleComments [byte '/', byte '*'] = .error e) ↔
      (placeAfter [byte '/', byte '*']).Open) :=
  (stripped_iff_recovers [.token [byte '1'] (plain_singleton (by decide)),
      .lineComment [byte '"'] (by decide)] [byte '/', byte '*']).imp
    (fun h => h ⟨.inl rfl, trivial⟩)
    fun h => h fun ⟨first, after, htext, _⟩ =>
      absurd (htext ▸ List.mem_append_right first List.mem_cons_self :
        byte '\\' ∈ [byte '/', byte '*']) (by decide)

/-- In `["\\"]` the literal, whose body is an escaped backslash, is never closed for the scanner. -/
theorem not_stripped_after_backslash :
    ¬ ((∀ pieces, LinesEnd pieces →
        stripCppStyleComments (written pieces) = .ok (withoutComments pieces)) ∧
      ∀ s, (∃ e, stripCppStyleComments s = .error e) ↔ (placeAfter s).Open) := by
  intro h
  have hthrows : stripCppStyleComments (written [.token [byte '['] (plain_singleton (by decide)),
      .literal [.escape (byte '\\')], .token [byte ']'] (plain_singleton (by decide))]) =
      .error "strip_cpp_style_comments ended in a string." := by decide
  have hok := h.1 [.token [byte '['] (plain_singleton (by decide)), .literal [.escape (byte '\\')],
    .token [byte ']'] (plain_singleton (by decide))] trivial
  cases hok.symm.trans hthrows

end Soot.Analysis
