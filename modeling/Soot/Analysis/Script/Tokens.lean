import Soot.Analysis.Script.Reading

/-!
# Tokens and atoms of printed data

How the reader takes a plain symbol, a numeral, a character and a string that are followed by a
blank or a closing bracket, what an atom can be read as, and which symbols the reader can return.
-/

set_option autoImplicit false

namespace Soot.Analysis.Script

open Soot.Computation Soot.Program.Script Soot.Model.Script

variable {R : ReaderEnvironment} {o : Object} {terminator s rest : Text} {pairs : List Object}
  {afterDot : Option Object} {tok : Text}

/-! ## Characters -/

theorem forall_byte {p : UInt8 → Prop} (h : ∀ n : Fin 256, p (UInt8.ofFin n)) (c : UInt8) : p c :=
  h c.toFin

set_option maxRecDepth 20000 in
/-- A character of symbols ends a token only if it is a comma or a semicolon; none is a
bracket, a quote or a bar. -/
theorem validSymbolChar_facts {c : UInt8}
    (h : validSymbolChar R c = true) :
    (endsToken c = true → c = byte ',' ∨ c = byte ';') ∧
      (endsCharName c = true → c = byte ';') ∧
      c ∉ text " \t\n\r()[]\"'|" ∧ c ≠ backQuote := by
  have hall : ∀ (b : Bool) (c : UInt8),
      validSymbolChar ⟨fun _ => none, fun _ => b⟩ c = true →
        (endsToken c = true → c = byte ',' ∨ c = byte ';') ∧
          (endsCharName c = true → c = byte ';') ∧
          c ∉ text " \t\n\r()[]\"'|" ∧ c ≠ backQuote := by
    intro b
    apply forall_byte
    revert b
    with_unfolding_all decide
  exact hall (R.beforeTable c) c h

theorem start_of_validSymbolChar {c : UInt8}
    (h : validSymbolChar R c = true) :
    (c ≠ byte ' ' ∧ c ≠ byte '\t' ∧ c ≠ byte '\n' ∧ c ≠ byte '\r') ∧
      ¬(c = byte '(' ∨ c = byte ')' ∨ c = byte '"' ∨ c = byte '\'' ∨ c = backQuote) ∧
      c ≠ byte '[' := by
  obtain ⟨-, -, hnone, hback⟩ := validSymbolChar_facts h
  have hliteral : text " \t\n\r()[]\"'|" = [byte ' ', byte '\t', byte '\n', byte '\r', byte '(',
      byte ')', byte '[', byte ']', byte '"', byte '\'', byte '|'] := by with_unfolding_all decide
  rw [hliteral] at hnone
  simp only [List.mem_cons, List.not_mem_nil, or_false, not_or] at hnone
  obtain ⟨hspace, htab, hnewline, hreturn, hopen, hclose, hsquare, -, hquote, hsingle, -⟩ := hnone
  refine ⟨⟨hspace, htab, hnewline, hreturn⟩, ?_, hsquare⟩
  rintro (h | h | h | h | h)
  · exact hopen h
  · exact hclose h
  · exact hquote h
  · exact hsingle h
  · exact hback h

/-- What follows a printed object: nothing, a blank or the end of its list. -/
def Boundary (rest : Text) : Prop := ∀ c ∈ rest.head?, c = byte ' ' ∨ c = byte ')'

theorem takeWhile_boundary {p : UInt8 → Bool} {w rest : Text} (hw : ∀ c ∈ w, p c = true)
    (hspace : p (byte ' ') = false) (hclose : p (byte ')') = false) (hrest : Boundary rest) :
    (w ++ rest).takeWhile p = w ∧ (w ++ rest).dropWhile p = rest := by
  rw [List.takeWhile_append_of_pos hw, List.dropWhile_append_of_pos hw]
  cases rest with
  | nil => simp
  | cons c rest =>
    have hc : p c = false := by
      obtain rfl | rfl := hrest c rfl
      · exact hspace
      · exact hclose
    rw [List.takeWhile_cons_of_neg (by simp [hc]), List.dropWhile_cons_of_neg (by simp [hc]),
      List.append_nil]
    exact ⟨rfl, rfl⟩

/-! ## Tokens of printed data -/

theorem charPrefix : text "#\\" = [byte '#', byte '\\'] := by with_unfolding_all decide

theorem getNextToken_open (s : Text) : getNextToken (byte '(' :: s) = (text "(", s) := by
  with_unfolding_all rfl

theorem getNextToken_close (s : Text) : getNextToken (byte ')' :: s) = (text ")", s) := by
  with_unfolding_all rfl

theorem getNextToken_quote (s : Text) : getNextToken (byte '"' :: s) = ([byte '"'], s) := by
  with_unfolding_all rfl

theorem getNextToken_dot (s : Text) :
    getNextToken (text " . " ++ s) = (text ".", byte ' ' :: s) := by
  with_unfolding_all rfl

theorem getNextToken_char {c : UInt8} {w rest : Text} (hw : ∀ d ∈ w, endsCharName d = false)
    (hrest : Boundary rest) :
    getNextToken (text "#\\" ++ (c :: w ++ rest)) = (text "#\\" ++ c :: w, rest) := by
  obtain ⟨htake, hdrop⟩ := takeWhile_boundary (p := (!endsCharName ·)) (w := w)
    (fun d hd => by simp [hw d hd]) (by decide) (by decide) hrest
  have htoken : getNextToken (text "#\\" ++ (c :: w ++ rest)) =
      (byte '#' :: byte '\\' :: c :: (w ++ rest).takeWhile (!endsCharName ·),
        (w ++ rest).dropWhile (!endsCharName ·)) := by
    with_unfolding_all rfl
  rw [htoken, htake, hdrop, charPrefix]
  rfl

theorem readerMacro_single_ends {c : UInt8} (h : endsToken c = false) :
    (readerMacro [c]).isSome = false := by
  simp only [endsToken, Bool.or_eq_false_iff] at h
  exact h.2

theorem getNextToken_plain {name rest : Text}
    (hvalid : name.all (validSymbolChar R) = true) (hplain : PlainSymbol name)
    (hrest : Boundary rest) : getNextToken (name ++ rest) = (name, rest) := by
  obtain ⟨hne, hdot, hcolon, hshape⟩ := hplain
  rw [List.all_eq_true] at hvalid
  split_ifs at hshape with hstarts
  · obtain ⟨hdrop, hline, -⟩ := hshape
    obtain ⟨c, w, hcw⟩ := List.exists_cons_of_ne_nil hdrop
    have hname : name = text "#\\" ++ c :: w := by
      rw [← List.take_append_drop 2 name, hstarts, hcw]
    have hw : w = name.drop 3 := by
      rw [hname, charPrefix]
      rfl
    have hends : ∀ d ∈ w, endsCharName d = false := by
      intro d hd
      rw [hw] at hd
      have hfacts := validSymbolChar_facts (hvalid d (List.mem_of_mem_drop hd))
      rw [← Bool.not_eq_true]
      intro h
      rw [hfacts.2.1 h] at hd
      exact hline hd
    rw [hname, List.append_assoc]
    exact getNextToken_char hends hrest
  · obtain ⟨hcomma, hline⟩ := hshape
    have hends : ∀ d ∈ name, endsToken d = false := by
      intro d hd
      rw [← Bool.not_eq_true]
      intro h
      obtain rfl | rfl := (validSymbolChar_facts (hvalid d hd)).1 h
      · exact hcomma hd
      · exact hline hd
    obtain ⟨first, w, rfl⟩ := List.exists_cons_of_ne_nil hne
    have hfirst := List.mem_cons_self (a := first) (l := w)
    have hstart := start_of_validSymbolChar (hvalid first hfirst)
    -- the byte after a hash sign makes no comment and no character's name of it
    have hnext : ∀ d, d ≠ byte ' ' → d ≠ byte ')' → d ∉ w →
        ¬(first = byte '#' ∧ (w ++ rest).head? = some d) := by
      rintro d hspace hclose hmem ⟨-, hhead⟩
      cases w with
      | nil =>
        obtain rfl | rfl := hrest d hhead
        · exact hspace rfl
        · exact hclose rfl
      | cons e w =>
        cases hhead
        exact hmem List.mem_cons_self
    have hbar : byte '|' ∉ w := by
      intro hmem
      exact (validSymbolChar_facts (hvalid _ (List.mem_cons_of_mem _ hmem))).2.2.1
        (by with_unfolding_all decide)
    have hchar : ¬(first = byte '#' ∧ (w ++ rest).head? = some (byte '\\')) := by
      rintro ⟨hhash, hhead⟩
      cases w with
      | nil => exact absurd (hrest _ hhead) (by decide)
      | cons e w =>
        cases hhead
        rw [hhash, charPrefix] at hstarts
        exact hstarts rfl
    have hself : seekPast .outer (first :: (w ++ rest)) = first :: (w ++ rest) :=
      seekPast_self hstart.1
        (fun h => hline (h ▸ hfirst)) (hnext (byte '|') (by decide) (by decide) hbar)
    obtain ⟨htake, hdrop⟩ := takeWhile_boundary (p := (!endsToken ·)) (w := w)
      (fun d hd => by simp [hends d (List.mem_cons_of_mem _ hd)]) (by decide) (by decide) hrest
    have hat : ¬(first = byte ',' ∧ (w ++ rest).head? = some (byte '@')) :=
      fun h => hcomma (h.1 ▸ hfirst)
    have hreplaced := readerMacro_single_ends (hends first hfirst)
    rw [List.cons_append, getNextToken_of_cons hself, tokenFrom, if_neg hchar,
      if_neg hat, if_neg hstart.2.1,
      if_neg (by rw [hreplaced]; exact Bool.false_ne_true), htake, hdrop]

/-! ## Atoms -/

theorem tryTokenAsChar_start (h : tryTokenAsChar tok = some o) :
    tok.take 2 = text "#\\" := by
  rw [charPrefix]
  unfold tryTokenAsChar at h
  split at h
  · split_ifs at h with hchar
    rw [hchar.1, hchar.2.1]
    rfl
  · split_ifs at h with hchar
    all_goals
      rw [hchar.1, hchar.2.1]
      rfl
  · cases h

theorem plain_kept {name : Text}
    (hvalid : name.all (validSymbolChar R) = true) (hplain : PlainSymbol name) :
    readerMacro name = none ∧ terminatorOf name = none ∧ name.head? ≠ some (byte '"') := by
  obtain ⟨hne, -, -, hshape⟩ := hplain
  obtain ⟨first, w, rfl⟩ := List.exists_cons_of_ne_nil hne
  rw [List.all_cons, Bool.and_eq_true] at hvalid
  obtain ⟨-, hstart, hsquare⟩ := start_of_validSymbolChar hvalid.1
  simp only [not_or] at hstart
  obtain ⟨hround, -, hquote, hsingle, hback⟩ := hstart
  -- a comma by itself, and one with an at sign, are not the start of a character's name
  have hcomma : ∀ w', first :: w ≠ byte ',' :: w' := by
    intro w' h
    obtain ⟨rfl, rfl⟩ := List.cons.inj h
    rw [if_neg] at hshape
    · exact hshape.1 List.mem_cons_self
    · rw [charPrefix]
      intro h
      exact absurd (List.cons.inj h).1 (by decide)
  have hliteral : text "'" = [byte '\''] ∧ text "," = [byte ','] ∧
      text ",@" = [byte ',', byte '@'] ∧ text "(" = [byte '('] ∧ text "[" = [byte '['] := by
    with_unfolding_all decide
  obtain ⟨hliteral₁, hliteral₂, hliteral₃, hliteral₄, hliteral₅⟩ := hliteral
  refine ⟨?_, ?_, ?_⟩
  · rw [readerMacro, hliteral₁, hliteral₂, hliteral₃,
      if_neg fun h => hsingle (List.cons.inj h).1, if_neg fun h => hback (List.cons.inj h).1,
      if_neg (hcomma _), if_neg (hcomma _)]
  · rw [terminatorOf, hliteral₄, hliteral₅, if_neg fun h => hround (List.cons.inj h).1,
      if_neg fun h => hsquare (List.cons.inj h).1]
  · rw [List.head?_cons]
    exact fun h => hquote (Option.some.inj h)

theorem reads_plain {name rest : Text}
    (hvalid : name.all (validSymbolChar R) = true)
    (hnumber : tryTokenAsNumber R name = .ok none) (hplain : PlainSymbol name)
    (hrest : Boundary rest) : Reads R .form (name ++ rest) (.symbol name) rest := by
  obtain ⟨hreplaced, hopens, hquote⟩ := plain_kept hvalid hplain
  refine .atom (getNextToken_plain hvalid hplain hrest) hplain.1 hreplaced hopens ?_
  obtain ⟨hne, -, hcolon, hshape⟩ := hplain
  have hchar : tryTokenAsChar name = none := by
    cases hchar : tryTokenAsChar name with
    | none => rfl
    | some o =>
      rw [if_pos (tryTokenAsChar_start hchar), hchar] at hshape
      exact absurd hshape.2.2 (by simp)
  have hsymbol : tryTokenAsSymbol R name = some (.symbol name) := by
    obtain ⟨first, w, rfl⟩ := List.exists_cons_of_ne_nil hne
    have hw : w.all (validSymbolChar R) = true := by
      rw [List.all_cons, Bool.and_eq_true] at hvalid
      exact hvalid.2
    rw [tryTokenAsSymbol]
    split_ifs with hfirst hnil
    · rw [hfirst, hnil] at hcolon
      exact absurd (by with_unfolding_all decide) hcolon
    · rfl
    · rfl
  simp only [readAtom, hnumber, if_neg hquote, hchar, hsymbol, Option.map_some]

set_option maxRecDepth 20000 in
theorem reads_char {c : UInt8} {rest : Text} (hprintable : isPrintable c)
    (hspace : c ≠ byte ' ') (hrest : Boundary rest) :
    Reads R .form (printChar c ++ rest) (.char c) rest := by
  have hprint : printChar c = text "#\\" ++ [c] := by
    revert hprintable hspace
    exact forall_byte (p := fun c => isPrintable c = true → c ≠ byte ' ' →
      printChar c = text "#\\" ++ [c]) (by with_unfolding_all decide) c
  have hnumber : tryTokenAsNumber R [byte '#', byte '\\', c] = .ok none := by
    with_unfolding_all rfl
  have hchar : tryTokenAsChar [byte '#', byte '\\', c] = some (.char c) := by
    rw [tryTokenAsChar, if_pos ⟨rfl, rfl, hprintable, hspace⟩]
  rw [hprint, List.append_assoc]
  refine .atom (getNextToken_char (w := []) (by simp) hrest) (by simp) ?_ ?_ ?_
  · rw [charPrefix]
    with_unfolding_all rfl
  · rw [charPrefix]
    with_unfolding_all rfl
  · simp only [charPrefix, List.cons_append, List.nil_append, readAtom, hnumber, hchar]
    rfl

set_option maxRecDepth 20000 in
theorem digit_facts {b : UInt8} (h : isDigit b = true ∨ b = byte '-') :
    b ≠ byte '.' ∧ b ≠ byte ',' ∧ b ≠ byte ';' ∧ b ≠ byte ':' ∧ b ≠ byte '#' := by
  revert h
  exact forall_byte (p := fun b => isDigit b = true ∨ b = byte '-' →
    b ≠ byte '.' ∧ b ≠ byte ',' ∧ b ≠ byte ';' ∧ b ≠ byte ':' ∧ b ≠ byte '#')
    (by with_unfolding_all decide) b

set_option maxRecDepth 20000 in
theorem validSymbolChar_digit {b : UInt8}
    (h : isDigit b = true ∨ b = byte '-') : validSymbolChar R b = true := by
  have hsmall : ¬(128 : UInt8) ≤ b := by
    revert h
    exact forall_byte (p := fun b => isDigit b = true ∨ b = byte '-' → ¬(128 : UInt8) ≤ b)
      (by with_unfolding_all decide) b
  rw [validSymbolChar, if_neg hsmall]
  obtain h | rfl := h
  · simp [h]
  · with_unfolding_all decide

theorem tryTokenAsNumber_int (R : ReaderEnvironment) (i : Program.I64) :
    tryTokenAsNumber R (intDigits i.toInt) = .ok (some (.int i)) := by
  have hinteger : tryTokenAsInteger (intDigits i.toInt) = .ok (some (.int i)) := by
    have hlow := BitVec.le_toInt i
    have hhigh := BitVec.toInt_lt (x := i)
    have hdot : (intDigits i.toInt).contains (byte '.') = false := by
      rw [← Bool.not_eq_true, List.contains_iff_mem]
      exact fun h => (digit_facts (mem_intDigits h)).1 rfl
    have hi : BitVec.ofInt 64 i.toInt = i := BitVec.ofInt_toInt
    generalize i.toInt = z at *
    subst hi
    cases z with
    | ofNat n =>
      have hdigits : ∀ b ∈ digits n, isDigit b = true := fun b => isDigit_of_mem_digits
      have hvalue := digitsValue_digits n
      simp only [intDigits] at hdot ⊢
      obtain ⟨first, s, hs⟩ := List.exists_cons_of_ne_nil (digits_ne_nil n)
      rw [hs] at hdigits hvalue hdot ⊢
      have hfirst := hdigits first List.mem_cons_self
      have hsign : first ≠ byte '-' := by
        rintro rfl
        exact absurd hfirst (by decide)
      have hnone : (first :: s).any (!isDigit ·) = false := by
        rw [List.any_eq_false]
        intro b hb
        simp [hdigits b hb]
      simp only [tryTokenAsInteger, hfirst, hdot, if_neg hsign, hnone, hvalue, Bool.true_or,
        Bool.not_false, Bool.and_self, if_true, Bool.false_eq_true, if_false]
      have hsmall : n < 2 ^ 63 := by
        rw [Int.ofNat_eq_natCast] at hhigh
        omega
      rw [if_neg (List.cons_ne_nil _ _), if_pos hsmall]
      rfl
    | negSucc n =>
      have hdigits : ∀ b ∈ digits (n + 1), isDigit b = true := fun b => isDigit_of_mem_digits
      have hvalue := digitsValue_digits (n + 1)
      have hne := digits_ne_nil (n + 1)
      have hnone : (digits (n + 1)).any (!isDigit ·) = false := by
        rw [List.any_eq_false]
        intro b hb
        simp [hdigits b hb]
      simp only [intDigits] at hdot ⊢
      simp only [tryTokenAsInteger, hdot, hnone, hvalue, hne, decide_true, Bool.or_true,
        Bool.not_false, Bool.and_self, if_true, Bool.false_eq_true, if_false]
      have hsmall : n + 1 ≤ 2 ^ 63 := by
        rw [Int.negSucc_eq] at hlow
        omega
      rw [if_pos hsmall]
      rfl
  rw [tryTokenAsNumber, hinteger]
  rfl

theorem reads_int {i : Program.I64} {rest : Text}
    (hrest : Boundary rest) : Reads R .form (intDigits i.toInt ++ rest) (.int i) rest := by
  have hfacts : ∀ b ∈ intDigits i.toInt, _ := fun b hb => digit_facts (mem_intDigits hb)
  have hvalid : (intDigits i.toInt).all (validSymbolChar R) = true := by
    rw [List.all_eq_true]
    exact fun b hb => validSymbolChar_digit (mem_intDigits hb)
  have hsingle : ∀ c, (∀ b ∈ intDigits i.toInt, b ≠ c) → intDigits i.toInt ≠ [c] := by
    intro c hc h
    exact hc c (h ▸ List.mem_singleton_self c) rfl
  have hplain : PlainSymbol (intDigits i.toInt) := by
    refine ⟨intDigits_ne_nil _, ?_, ?_, ?_⟩
    · rw [show text "." = [byte '.'] by with_unfolding_all decide]
      exact hsingle _ fun b hb => (hfacts b hb).1
    · rw [show text ":" = [byte ':'] by with_unfolding_all decide]
      exact hsingle _ fun b hb => (hfacts b hb).2.2.2.1
    · rw [if_neg]
      · exact ⟨fun h => (hfacts _ h).2.1 rfl, fun h => (hfacts _ h).2.2.1 rfl⟩
      · rw [charPrefix]
        intro h
        refine (hfacts (byte '#') (List.mem_of_mem_take (i := 2) ?_)).2.2.2.2 rfl
        rw [h]
        exact List.mem_cons_self
  obtain ⟨hreplaced, hopens, -⟩ := plain_kept hvalid hplain
  refine .atom (getNextToken_plain hvalid hplain hrest) hplain.1 hreplaced hopens ?_
  simp only [readAtom, tryTokenAsNumber_int]

/-- What is read after a quote is the string of the bytes before the next quote, if none
of them is a backslash. -/
theorem readString_legible {data rest : Text} (hquote : byte '"' ∉ data)
    (hescape : byte '\\' ∉ data) :
    readString (data ++ byte '"' :: rest) = .ok (some (data, rest)) := by
  induction data with
  | nil =>
    rw [List.nil_append, readString.eq_def]
    exact if_pos rfl
  | cons c data ih =>
    simp only [List.mem_cons, not_or] at hquote hescape
    rw [List.cons_append, readString.eq_def]
    simp only [if_neg (Ne.symm hquote.1), if_neg (Ne.symm hescape.1), ih hquote.2 hescape.2]
    rfl

theorem readAtom_quote {s : Text} :
    readAtom R [byte '"'] s = match readString s with
      | .error err => .error (.message (text "parsing token " ++ [byte '"'] ++ text " failed: " ++
          err))
      | .ok (some (str, rest)) => .ok (some (.string str, rest))
      | .ok none => .error (.message (text "parsing token " ++ [byte '"'] ++ text " failed: " ++
          text "failed to read string, close quote not found")) := by
  have hnumber : tryTokenAsNumber R [byte '"'] = .ok none := by with_unfolding_all rfl
  simp only [readAtom, hnumber]
  rfl

theorem quote_kept : readerMacro [byte '"'] = none ∧ terminatorOf [byte '"'] = none := by
  with_unfolding_all decide

theorem reads_string {data rest : Text} (hquote : byte '"' ∉ data)
    (hescape : byte '\\' ∉ data) :
    Reads R .form (byte '"' :: data ++ [byte '"'] ++ rest) (.string data) rest := by
  rw [List.append_assoc, List.cons_append, List.singleton_append]
  refine .atom (getNextToken_quote _) (by simp) quote_kept.1 quote_kept.2 ?_
  rw [readAtom_quote, readString_legible hquote hescape]

/-! ## What is read -/

theorem readAtom_cases {tok s rest : Text}
    (h : readAtom R tok s = .ok (some (o, rest))) :
    tryTokenAsNumber R tok = .ok (some o) ∨
      (∃ str, o = .string str ∧ tok = [byte '"'] ∧ readString s = .ok (some (str, rest))) ∨
      rest = s ∧ (tryTokenAsChar tok = some o ∨
        tryTokenAsChar tok = none ∧ tryTokenAsSymbol R tok = some o) := by
  unfold readAtom at h
  simp only at h
  split at h
  · cases h
  · next hnumber =>
    cases h
    exact .inl hnumber
  split_ifs at h with hquote hlength
  · split at h
    · cases h
    · next hstring =>
      cases h
      obtain ⟨first, tok', rfl⟩ := List.exists_cons_of_ne_nil
        (List.ne_nil_of_length_pos (l := tok) (by omega))
      obtain rfl := Option.some.inj hquote
      obtain rfl := List.eq_nil_of_length_eq_zero (l := tok') (by simpa using hlength)
      exact .inr (.inl ⟨_, rfl, rfl, hstring⟩)
    · cases h
  · split at h
    · next hchar =>
      cases h
      exact .inr (.inr ⟨rfl, .inl hchar⟩)
    · next hchar =>
      obtain ⟨o', hsymbol, heq⟩ := Option.map_eq_some_iff.mp (Except.ok.inj h)
      obtain ⟨rfl, rfl⟩ := Prod.mk.inj heq
      exact .inr (.inr ⟨rfl, .inr ⟨hchar, hsymbol⟩⟩)

theorem tryTokenAsInteger_cases
    (h : tryTokenAsInteger tok = .ok (some o)) : ∃ i, o = .int i := by
  unfold tryTokenAsInteger at h
  split at h
  · cases h
  · dsimp only at h
    split_ifs at h <;> cases h <;> exact ⟨_, rfl⟩

theorem tryTokenAsHex_cases (h : tryTokenAsHex tok = .ok (some o)) :
    ∃ i, o = .int i := by
  unfold tryTokenAsHex at h
  split at h
  · dsimp only at h
    split_ifs at h <;> cases h
    exact ⟨_, rfl⟩
  · cases h

theorem tryTokenAsBinary_cases
    (h : tryTokenAsBinary tok = .ok (some o)) : ∃ i, o = .int i := by
  unfold tryTokenAsBinary at h
  split at h
  · dsimp only at h
    split_ifs at h
    · generalize (List.foldlM _ _ _ : Except Text ℕ) = value at h
      cases value with
      | error => cases h
      | ok => exact ⟨_, (Option.some.inj (Except.ok.inj h)).symm⟩
    · cases h
  · cases h

theorem tryTokenAsFloat_cases
    (h : tryTokenAsFloat R tok = some o) : ∃ x, o = .float x := by
  unfold tryTokenAsFloat at h
  split at h
  · cases h
  · dsimp only at h
    split_ifs at h
    all_goals
      obtain ⟨x, -, rfl⟩ := Option.map_eq_some_iff.mp h
      exact ⟨x, rfl⟩

theorem tryTokenAsNumber_cases
    (h : tryTokenAsNumber R tok = .ok (some o)) : (∃ i, o = .int i) ∨ ∃ x, o = .float x := by
  unfold tryTokenAsNumber at h
  cases hinteger : tryTokenAsInteger tok with
  | error => rw [hinteger] at h; cases h
  | ok result =>
    rw [hinteger] at h
    cases result with
    | some o' =>
      cases h
      exact .inl (tryTokenAsInteger_cases hinteger)
    | none =>
      cases hhex : tryTokenAsHex tok with
      | error => rw [hhex] at h; cases h
      | ok result =>
        rw [hhex] at h
        cases result with
        | some o' =>
          cases h
          exact .inl (tryTokenAsHex_cases hhex)
        | none =>
          cases hbinary : tryTokenAsBinary tok with
          | error => rw [hbinary] at h; cases h
          | ok result =>
            rw [hbinary] at h
            cases result with
            | some o' =>
              cases h
              exact .inl (tryTokenAsBinary_cases hbinary)
            | none => exact .inr (tryTokenAsFloat_cases (Except.ok.inj h))

theorem tryTokenAsChar_cases (h : tryTokenAsChar tok = some o) :
    ∃ c, o = .char c := by
  unfold tryTokenAsChar at h
  split at h
  · split_ifs at h
    exact ⟨_, (Option.some.inj h).symm⟩
  · split_ifs at h <;> exact ⟨_, (Option.some.inj h).symm⟩
  · cases h

theorem tryTokenAsSymbol_cases
    (h : tryTokenAsSymbol R tok = some o) :
    o = .symbol tok ∧ tok ≠ [] ∧ tok ≠ text ":" ∧ tok.all (validSymbolChar R) = true := by
  have hcolon : text ":" = [byte ':'] ∧ validSymbolChar R (byte ':') = true := by
    refine ⟨by with_unfolding_all decide, ?_⟩
    with_unfolding_all rfl
  rw [hcolon.1]
  unfold tryTokenAsSymbol at h
  split at h
  · cases h
  · next first s =>
    split_ifs at h with hfirst hnil hvalid hvalid
    · refine ⟨(Option.some.inj h).symm, List.cons_ne_nil _ _, ?_, ?_⟩
      · exact fun heq => hnil (List.cons.inj heq).2
      · rw [List.all_cons, hfirst, hcolon.2, hvalid]
        rfl
    · refine ⟨(Option.some.inj h).symm, List.cons_ne_nil _ _, ?_, hvalid⟩
      exact fun heq => hfirst (List.cons.inj heq).1

/-! ## Lists that are read -/

theorem ofListWith_append (x : Object) (l m : List Object) :
    Object.ofListWith x (l ++ m) = .ofListWith (.ofListWith x m) l :=
  List.foldr_append

theorem ofListWith_inj {x y : Object} {l : List Object} :
    Object.ofListWith x l = .ofListWith y l ↔ x = y := by
  induction l with
  | nil => exact Iff.rfl
  | cons o l ih =>
    show Object.pair o (.ofListWith x l) = .pair o (.ofListWith y l) ↔ _
    rw [Object.pair.injEq, ih]
    exact and_iff_right rfl

theorem reads_list_ne_nil
    {gotDot : Bool}
    (h : Reads R (.list terminator pairs gotDot afterDot) s o rest) : s ≠ [] := by
  rintro rfl
  have hnil : ∀ {tok rest : Text}, getNextToken [] = (tok, rest) → tok = [] :=
    fun h => (Prod.mk.inj h).1.symm
  cases h with
  | terminator token nonempty => exact nonempty (hnil token)
  | dot token => exact dot_ne_nil (hnil token)
  | element token nonempty => exact nonempty (hnil token)
  | tail token nonempty => exact nonempty (hnil token)

theorem reads_list_append
    {gotDot : Bool}
    (h : Reads R (.list terminator pairs gotDot afterDot) s o rest) :
    ∃ y, o = .ofListWith y pairs := by
  generalize hp : Pending.list terminator pairs gotDot afterDot = p at h
  induction h generalizing terminator pairs gotDot afterDot with
  | terminator =>
    cases hp
    exact ⟨_, rfl⟩
  | dot _ _ _ _ ih =>
    cases hp
    exact ih rfl
  | element _ _ _ _ _ _ _ ih =>
    cases hp
    obtain ⟨y, rfl⟩ := ih rfl
    exact ⟨_, ofListWith_append _ _ _⟩
  | tail _ _ _ _ _ _ _ ih =>
    cases hp
    exact ih rfl
  | _ => cases hp

theorem reads_list_done
    {a o : Object} (h : Reads R (.list terminator pairs true (some a)) s o rest) :
    o = .ofListWith a pairs := by
  cases h
  rfl

theorem reads_list_dot
    (h : Reads R (.list terminator pairs true none) s o rest) :
    o = .ofListWith .emptyList pairs ∨ ∃ x rest₁, Reads R .form s x rest₁ ∧
      (getNextToken s).1 ≠ text "." ∧ o = .ofListWith x pairs := by
  cases h with
  | terminator => exact .inl rfl
  | tail token nonempty other undotted reads more =>
    exact .inr ⟨_, _, reads, by rw [token]; exact undotted, reads_list_done more⟩

theorem reads_list_head
    (h : Reads R (.list terminator [] false none) s o rest) :
    o = .emptyList ∨ ∃ car cdr rest₁, o = .pair car cdr ∧ Reads R .form s car rest₁ ∧
      (getNextToken s).1 ≠ text "." ∧ rest₁ ≠ [] := by
  cases h with
  | terminator => exact .inl rfl
  | dot _ _ nonempty => exact absurd rfl nonempty
  | element token nonempty other undotted reads more =>
    obtain ⟨y, rfl⟩ := reads_list_append more
    exact .inr ⟨_, y, _, rfl, reads, by rw [token]; exact undotted, reads_list_ne_nil more⟩

/-! ## Symbols that are read -/

theorem tokenFrom_append (first : UInt8) (s : Text) :
    (tokenFrom first s).1 ++ (tokenFrom first s).2 = first :: s := by
  unfold tokenFrom
  split_ifs with hchar hat
  · cases s with
    | nil => simp at hchar
    | cons d s =>
      obtain ⟨rfl, hhead⟩ := hchar
      cases hhead
      cases s with
      | nil => rfl
      | cons c s => simp
  · cases s with
    | nil => simp at hat
    | cons d s =>
      obtain ⟨rfl, hhead⟩ := hat
      cases hhead
      rfl
  all_goals simp

/-- A token of symbol characters is plain, unless it is a dot or there is nothing left to
make a character of it. -/
theorem plain_of_token {s tok rest : Text}
    (token : getNextToken s = (tok, rest)) (kept : readerMacro tok = none)
    (hchar : tryTokenAsChar tok = none)
    (hsymbol : tok ≠ [] ∧ tok ≠ text ":" ∧ tok.all (validSymbolChar R) = true) :
    PlainSymbol tok ∨ tok = text "." ∨ tok = text "#\\" ∧ rest = [] := by
  obtain ⟨hne, hcolon, hvalid⟩ := hsymbol
  obtain ⟨first, s', hseek, htok⟩ := getNextToken_cons token hne
  obtain ⟨-, hline, -⟩ := seekPast_stop hseek
  have hfirst : validSymbolChar R first = true := by
    rw [List.all_eq_true] at hvalid
    have happend := tokenFrom_append first s'
    rw [htok] at happend
    obtain ⟨c, w, rfl⟩ := List.exists_cons_of_ne_nil hne
    obtain ⟨rfl, -⟩ := List.cons.inj happend
    exact hvalid _ List.mem_cons_self
  obtain ⟨-, hstart, -⟩ := start_of_validSymbolChar hfirst
  unfold tokenFrom at htok
  split_ifs at htok with hname hat hreplaced
  · obtain ⟨rfl, hhead⟩ := hname
    split at htok
    · obtain ⟨rfl, rfl⟩ := Prod.mk.inj htok
      exact .inr (.inr ⟨charPrefix.symm, rfl⟩)
    · next c w _ =>
      obtain ⟨rfl, -⟩ := Prod.mk.inj htok
      refine .inl ⟨hne, ?_, hcolon, ?_⟩
      · rw [show text "." = [byte '.'] by with_unfolding_all decide]
        exact fun h => absurd (List.cons.inj h).1 (by decide)
      · rw [if_pos]
        · refine ⟨List.cons_ne_nil _ _, fun hmem => ?_, by rw [hchar]; rfl⟩
          exact absurd (List.mem_takeWhile_imp hmem) (by decide)
        · exact charPrefix.symm
  · obtain ⟨rfl, -⟩ := Prod.mk.inj htok
    rw [hat.1] at kept
    exact absurd kept (by with_unfolding_all decide)
  · obtain ⟨rfl, -⟩ := Prod.mk.inj htok
    rw [kept] at hreplaced
    cases hreplaced
  · obtain ⟨rfl, -⟩ := Prod.mk.inj htok
    by_cases hdot : first :: s'.takeWhile (!endsToken ·) = text "."
    · exact .inr (.inl hdot)
    have hends : ∀ c ∈ s'.takeWhile (!endsToken ·), endsToken c = false := fun c hc => by
      simpa using List.mem_takeWhile_imp hc
    refine .inl ⟨hne, hdot, hcolon, ?_⟩
    rw [if_neg]
    · constructor
      · intro hmem
        obtain rfl | hmem := List.mem_cons.mp hmem
        · exact hreplaced (by with_unfolding_all decide)
        · exact absurd (hends _ hmem) (by with_unfolding_all decide)
      · intro hmem
        obtain rfl | hmem := List.mem_cons.mp hmem
        · exact hline rfl
        · exact absurd (hends _ hmem) (by with_unfolding_all decide)
    · rw [charPrefix]
      intro h
      obtain ⟨hhash, hback⟩ := List.cons.inj h
      cases s' with
      | nil => cases hback
      | cons d s' =>
        by_cases hd : endsToken d
        · rw [List.takeWhile_cons_of_neg (by simp [hd])] at hback
          cases hback
        · rw [List.takeWhile_cons_of_pos (by simp [hd])] at hback
          exact hname ⟨hhash, congrArg some (List.cons.inj hback).1⟩

/-- A symbol that is read is its token; that is plain, unless it is a dot or there is
nothing left to make a character of it. -/
theorem reads_symbol {s rest name : Text}
    (h : Reads R .form s (.symbol name) rest) :
    getNextToken s = (name, rest) ∧
      (PlainSymbol name ∨ name = text "." ∨ name = text "#\\" ∧ rest = []) := by
  generalize ho : Object.symbol name = o at h
  cases h with
  | nothing => cases ho
  | quotation => cases ho
  | list token opens reads =>
    obtain rfl | ⟨car, cdr, -, rfl, -⟩ := reads_list_head reads <;> cases ho
  | invalid => cases ho
  | @atom _ tok rest₁ _ _ token nonempty kept closed read =>
    subst ho
    obtain hnumber | ⟨str, hstring, -⟩ | ⟨rfl, hchar | ⟨hchar, hsymbol⟩⟩ := readAtom_cases read
    · obtain ⟨i, hi⟩ | ⟨x, hx⟩ := tryTokenAsNumber_cases hnumber
      · cases hi
      · cases hx
    · cases hstring
    · obtain ⟨c, hc⟩ := tryTokenAsChar_cases hchar
      cases hc
    obtain ⟨hname, hne, hcolon, hvalid⟩ := tryTokenAsSymbol_cases hsymbol
    cases hname
    refine ⟨token, ?_⟩
    exact plain_of_token token kept hchar ⟨hne, hcolon, hvalid⟩

theorem readAtom_flat {tok s rest : Text}
    (h : readAtom R tok s = .ok (some (o, rest))) :
    o ≠ .emptyList ∧ (∀ car cdr, o ≠ .pair car cdr) ∧ ∀ data, o ≠ .array data := by
  obtain hnumber | ⟨str, rfl, -⟩ | ⟨-, hchar | ⟨-, hsymbol⟩⟩ := readAtom_cases h
  · obtain ⟨i, rfl⟩ | ⟨x, rfl⟩ := tryTokenAsNumber_cases hnumber <;>
      exact ⟨nofun, nofun, nofun⟩
  · exact ⟨nofun, nofun, nofun⟩
  · obtain ⟨c, rfl⟩ := tryTokenAsChar_cases hchar
    exact ⟨nofun, nofun, nofun⟩
  · obtain ⟨rfl, -⟩ := tryTokenAsSymbol_cases hsymbol
    exact ⟨nofun, nofun, nofun⟩

theorem reads_not_array {s rest : Text} {data : List Object} :
    ¬Reads R .form s (.array data) rest := by
  intro h
  generalize ho : Object.array data = o at h
  cases h with
  | nothing => cases ho
  | quotation => cases ho
  | list token opens reads =>
    obtain rfl | ⟨car, cdr, -, rfl, -⟩ := reads_list_head reads <;> cases ho
  | invalid => cases ho
  | atom _ _ _ _ read => exact (readAtom_flat read).2.2 data ho.symm

theorem reads_pair_symbol {s rest name : Text} {cdr : Object}
    (h : Reads R .form s (.pair (.symbol name) cdr) rest) : PlainSymbol name := by
  generalize ho : Object.pair (.symbol name) cdr = o at h
  cases h with
  | nothing => cases ho
  | quotation token replaced =>
    cases ho
    unfold readerMacro at replaced
    split_ifs at replaced <;>
    · obtain rfl := Option.some.inj replaced
      unfold PlainSymbol
      with_unfolding_all decide
  | list token opens reads =>
    obtain rfl | ⟨car, cdr', rest₁, rfl, hcar, hdot, hrest⟩ := reads_list_head reads
    · cases ho
    · cases ho
      obtain ⟨htoken, hplain | rfl | ⟨-, hnil⟩⟩ := reads_symbol hcar
      · exact hplain
      · rw [htoken] at hdot
        exact absurd rfl hdot
      · exact absurd hnil hrest
  | invalid => cases ho
  | atom _ _ _ _ read => exact absurd ho.symm ((readAtom_flat read).2.1 _ _)

/-! ## Reading from where a form starts -/

theorem reads_congr_form {s s' rest : Text}
    (h : seekPast .outer s = seekPast .outer s') :
    Reads R .form s o rest ↔ Reads R .form s' o rest := by
  rw [← reads_seekPast, h, reads_seekPast]

theorem getNextToken_congr {s s' : Text} (h : seekPast .outer s = seekPast .outer s') :
    getNextToken s = getNextToken s' := by
  rw [← getNextToken_seekPast, h, getNextToken_seekPast]

theorem reads_congr_list {terminator s s' rest : Text} {gotDot : Bool}
    (hseek : seekPast .outer s = seekPast .outer s')
    (h : Reads R (.list terminator pairs gotDot afterDot) s o rest) :
    Reads R (.list terminator pairs gotDot afterDot) s' o rest := by
  have htoken := getNextToken_congr hseek
  cases h with
  | terminator token nonempty => exact .terminator (htoken ▸ token) nonempty
  | dot token other nonempty reads => exact .dot (htoken ▸ token) other nonempty reads
  | element token nonempty other undotted reads more =>
    exact .element (htoken ▸ token) nonempty other undotted ((reads_congr_form hseek).mp reads) more
  | tail token nonempty other undotted reads more =>
    exact .tail (htoken ▸ token) nonempty other undotted ((reads_congr_form hseek).mp reads) more

theorem reads_list_space
    {gotDot : Bool} :
    Reads R (.list terminator pairs gotDot afterDot) (byte ' ' :: s) o rest ↔
      Reads R (.list terminator pairs gotDot afterDot) s o rest :=
  ⟨reads_congr_list (seekPast_space s), reads_congr_list (seekPast_space s).symm⟩

end Soot.Analysis.Script
