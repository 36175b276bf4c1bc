import Mathlib.Data.List.TakeWhile
import Soot.Model.RemoteCall

/-!
# When a remote call is a local one

The parser reads back a plain name and integer arguments (`parse_callForm`), and a name that it
reads back is plain (`plainName_of_parse`). Null and strings are both sent as the symbol `null`,
which the parser reads as a string id; and every reply becomes a string.
-/

set_option autoImplicit false

namespace Soot.Analysis

open Soot.Computation Soot.Program Soot.Program.CallParser Soot.Model

variable {F : FloatText} {H C : Text → Option Word} {name : Text}
  {args : List Value}

/-! ## Numerals -/

theorem digits_number (n : ℕ) :
    ((digits n).isEmpty || (digits n).any (!isDigit ·)) = false := by
  have hne := digits_ne_nil n
  simp only [Bool.or_eq_false_iff, List.isEmpty_eq_false_iff, List.any_eq_false,
    Bool.not_eq_true', Bool.not_eq_false]
  exact ⟨hne, fun b hb => isDigit_of_mem_digits hb⟩

theorem isDigit_spec {c : UInt8} (h : isDigit c = true) : 48 ≤ c.toNat ∧ c.toNat ≤ 57 := by
  simp only [isDigit, Bool.and_eq_true, decide_eq_true_eq, UInt8.le_iff_toNat_le] at h
  exact h

theorem numeral_byte {c : UInt8} (h : isDigit c = true ∨ c = byte '-') :
    c ≠ 0 ∧ c ≠ byte ' ' ∧ ¬ (9 ≤ c ∧ c ≤ 13) ∧ endsSymbol c = false ∧ c ≠ byte '+' := by
  rcases h with h | rfl
  · obtain ⟨hlow, hhigh⟩ := isDigit_spec h
    have hne : ∀ d : UInt8, d.toNat < 48 → c ≠ d := by
      rintro d hd rfl
      omega
    refine ⟨hne 0 (by decide), hne _ (by decide), ?_, ?_, hne _ (by decide)⟩
    · rintro ⟨-, hle⟩
      have := UInt8.le_iff_toNat_le.mp hle
      have h13 : (13 : UInt8).toNat = 13 := rfl
      omega
    · simp [endsSymbol, CallParser.isSpace, hne _ (by decide : (byte ' ').toNat < 48),
        hne _ (by decide : (byte '\t').toNat < 48), hne _ (by decide : (byte '\r').toNat < 48),
        hne _ (by decide : (byte '\n').toNat < 48), hne _ (by decide : (byte '(').toNat < 48),
        hne _ (by decide : (byte ')').toNat < 48), hne _ (by decide : (byte '"').toNat < 48)]
  · decide

theorem strtol_intDigits (i : I64) : strtol (intDigits i.toInt) = some i := by
  have hbytes : ∀ c ∈ intDigits i.toInt, c ≠ 0 ∧ (c = byte ' ' ∨ 9 ≤ c ∧ c ≤ 13) = False := by
    intro c hc
    obtain ⟨hzero, hspace, hrange, -, -⟩ := numeral_byte (mem_intDigits hc)
    exact ⟨hzero, by simp [hspace, hrange]⟩
  have htake : (intDigits i.toInt).takeWhile (· != 0) = intDigits i.toInt :=
    List.takeWhile_eq_self_iff.mpr fun c hc => by simpa using (hbytes c hc).1
  have hdrop : (intDigits i.toInt).dropWhile
      (fun c => decide (c = byte ' ') || decide (9 ≤ c) && decide (c ≤ 13)) =
      intDigits i.toInt := by
    cases hdigits : intDigits i.toInt with
    | nil => rfl
    | cons c l =>
      have hc := (hbytes c (by simp [hdigits])).2
      rw [List.dropWhile_cons_of_neg]
      simpa using hc
  have hlow := BitVec.le_toInt i
  have hhigh := BitVec.toInt_lt (x := i)
  have hvalue := fun n : ℕ => digitsValue_digits n
  unfold strtol
  simp only [htake, hdrop]
  cases hi : i.toInt with
  | ofNat n =>
    have hnum := digits_number n
    have hi' : i = BitVec.ofNat 64 n := by
      rw [← BitVec.ofInt_toInt (x := i), hi]
      rfl
    have hmin : min n (2 ^ 63 - 1) = n := by
      rw [hi] at hhigh
      simp only [Int.ofNat_eq_natCast] at hhigh
      omega
    have hplain : intDigits (Int.ofNat n) = digits n := rfl
    rw [hplain]
    cases hdigits : digits n with
    | nil => exact absurd hdigits (digits_ne_nil n)
    | cons c l =>
      have hc : isDigit c = true := isDigit_of_mem_digits (n := n) (by simp [hdigits])
      have hminus : c ≠ byte '-' := by
        rintro rfl
        exact absurd hc (by decide)
      have hplus := (numeral_byte (.inl hc)).2.2.2.2
      rw [hdigits] at hnum
      have hval := hvalue n
      rw [hdigits] at hval
      simp only [hminus, hplus, if_false, hnum, Bool.false_eq_true, hval, hmin, hi']
  | negSucc n =>
    have hnum := digits_number (n + 1)
    have hmin : min (n + 1) (2 ^ 63) = n + 1 := by
      rw [hi] at hlow
      simp only [Int.negSucc_eq] at hlow
      omega
    have hi' : i = BitVec.ofInt 64 (-((n + 1 : ℕ) : ℤ)) := by
      rw [← BitVec.ofInt_toInt (x := i), hi]
      rfl
    have hsigned : intDigits (Int.negSucc n) = byte '-' :: digits (n + 1) := rfl
    rw [hsigned]
    simp only [if_true, hnum, Bool.false_eq_true, if_false, hvalue, hmin]
    exact congrArg some hi'.symm

/-! ## Reading back -/

theorem readSymbol_append {token : Text} {c : UInt8}
    (htoken : ∀ d ∈ token, endsSymbol d = false) (hc : endsSymbol c = true) (rest : Text) :
    readSymbol (token ++ c :: rest) = (token, c :: rest) := by
  have hall : ∀ d ∈ token, (!endsSymbol d) = true := fun d hd => by simp [htoken d hd]
  unfold readSymbol
  rw [List.takeWhile_append_of_pos hall, List.dropWhile_append_of_pos hall]
  simp [hc]

theorem quoteIfString_eq {v : Value} (h : IsArgument v) :
    quoteIfString F v = text "null" ∨
      ∃ i, v = .int i ∧ quoteIfString F v = intDigits i.toInt := by
  cases v with
  | null => exact .inl rfl
  | int i => exact .inr ⟨i, rfl, rfl⟩
  | float x => cases h
  | pointer address content => exact .inl rfl

theorem quoteIfString_symbol {v : Value} (h : IsArgument v) :
    quoteIfString F v ≠ [] ∧ ∀ c ∈ quoteIfString F v, endsSymbol c = false := by
  rcases quoteIfString_eq (F := F) h with heq | ⟨i, -, heq⟩
  · rw [heq]
    decide +kernel
  · rw [heq]
    exact ⟨intDigits_ne_nil _, fun c hc => (numeral_byte (mem_intDigits hc)).2.2.2.1⟩

/-- The value that arrives for an argument. -/
def arrives : Value → Value
  | .int i => .int i
  | _ => .int (textId (text "null"))

theorem symbolValue_quoteIfString (hnull : F.strtod (text "null") = none) {v : Value}
    (h : IsArgument v) : symbolValue F (quoteIfString F v) = arrives v := by
  have hsymbol : symbolValue F (text "null") = .int (textId (text "null")) := by
    have hstrtol : strtol (text "null") = none := by with_unfolding_all decide
    have htake : (text "null").takeWhile (· != 0) = text "null" := by with_unfolding_all decide
    have htrue : ¬ (text "null" = text "true" ∨ text "null" = text "#t") := by
      with_unfolding_all decide
    have hfalse : ¬ (text "null" = text "false" ∨ text "null" = text "#f") := by
      with_unfolding_all decide
    unfold symbolValue
    rw [hstrtol, htake, hnull]
    simp only [htrue, hfalse, if_false]
  cases v with
  | null => exact hsymbol
  | int i =>
    show symbolValue F (intDigits i.toInt) = .int i
    unfold symbolValue
    rw [strtol_intDigits]
  | float x => cases h
  | pointer address content => exact hsymbol

theorem readValue_quoteIfString (hnull : F.strtod (text "null") = none) {v : Value}
    (h : IsArgument v) {c : UInt8} (hc : endsSymbol c = true) (rest : Text) :
    readValue F H (quoteIfString F v ++ c :: rest) =
      .ok (arrives v, c :: rest) := by
  obtain ⟨hne, hsymbol⟩ := quoteIfString_symbol (F := F) h
  have hread := readSymbol_append hsymbol hc rest
  have hvalue := symbolValue_quoteIfString hnull h
  cases hquote : quoteIfString F v with
  | nil => exact absurd hquote hne
  | cons d l =>
    rw [hquote] at hread hvalue hsymbol
    have hd := hsymbol d List.mem_cons_self
    have hquoteByte : d ≠ byte '"' := by
      rintro rfl
      exact absurd hd (by decide)
    rw [List.cons_append] at hread ⊢
    unfold readValue
    simp [hquoteByte, hread, hvalue]

/-- The text of the arguments and what follows them. -/
def argsText (F : FloatText) (args : List Value) : Text :=
  args.flatMap (fun arg => byte ' ' :: quoteIfString F arg) ++ [byte ')']

theorem argsText_head (args : List Value) :
    ∃ c rest, argsText F args = c :: rest ∧ endsSymbol c = true := by
  cases args with
  | nil => exact ⟨byte ')', [], rfl, by decide⟩
  | cons v args => exact ⟨byte ' ', _, rfl, by decide⟩

theorem readArgs_argsText (hnull : F.strtod (text "null") = none)
    (hargs : ∀ v ∈ args, IsArgument v) {n : ℕ} (hn : args.length < n) :
    readArgs F H n (argsText F args) = .ok (args.map arrives, []) := by
  induction args generalizing n with
  | nil =>
    cases n with
    | zero => simp at hn
    | succ n => rfl
  | cons v args ih =>
    cases n with
    | zero => simp at hn
    | succ n =>
      have hv := hargs v List.mem_cons_self
      obtain ⟨hne, hsymbol⟩ := quoteIfString_symbol (F := F) hv
      obtain ⟨c, rest, htail, hc⟩ := argsText_head (F := F) args
      have htext : argsText F (v :: args) =
          byte ' ' :: (quoteIfString F v ++ c :: rest) := by
        rw [← htail]
        simp [argsText]
      have hread := readValue_quoteIfString (H := H) hnull hv hc rest
      have hrest := ih (fun w hw => hargs w (List.mem_cons_of_mem v hw)) (n := n)
        (by simpa using hn)
      rw [htail] at hrest
      cases hquote : quoteIfString F v with
      | nil => exact absurd hquote hne
      | cons d l =>
        rw [hquote] at hread hsymbol
        have hd := hsymbol d List.mem_cons_self
        have hspace : CallParser.isSpace d = false := by
          by_contra hsome
          simp [endsSymbol, hsome] at hd
        have hclose : d ≠ byte ')' := by
          rintro rfl
          exact absurd hd (by decide)
        have hskip : skipWs (argsText F (v :: args)) = d :: (l ++ c :: rest) := by
          rw [htext, hquote]
          show skipWs (byte ' ' :: d :: (l ++ c :: rest)) = _
          unfold skipWs
          rw [List.dropWhile_cons_of_pos (by decide), List.dropWhile_cons_of_neg (by simp [hspace])]
        rw [List.cons_append] at hread
        unfold readArgs
        simp only [hskip, hclose, if_false, hread]
        show (readArgs F H n (c :: rest) >>= _) = _
        rw [hrest]
        rfl

/-! ## Calls -/

theorem parse_callForm (hnull : F.strtod (text "null") = none) (hname : PlainName name)
    (hargs : ∀ v ∈ args, IsArgument v) :
    parse F H (callForm F name args) = .ok (name, args.map arrives) := by
  obtain ⟨hne, hsymbol⟩ := hname
  obtain ⟨c, rest, htail, hc⟩ := argsText_head (F := F) args
  have hform : callForm F name args = byte '(' :: (name ++ argsText F args) := by
    simp [callForm, argsText]
  have hread := readSymbol_append hsymbol hc rest
  have hargsRead := readArgs_argsText (H := H) hnull hargs
    (n := (argsText F args).length + 1) (by
      have hlength : ∀ l : List Value, l.length ≤ (argsText F l).length := by
        intro l
        induction l with
        | nil => simp
        | cons v l ih =>
          simp only [argsText, List.flatMap_cons, List.length_append, List.length_cons] at ih ⊢
          omega
      have := hlength args
      omega)
  rw [hform]
  cases hcons : name with
  | nil => exact absurd hcons hne
  | cons d l =>
    rw [hcons] at hread hsymbol
    have hd := hsymbol d List.mem_cons_self
    have hspace : CallParser.isSpace d = false := by
      by_contra hsome
      simp [endsSymbol, hsome] at hd
    have hquoteByte : d ≠ byte '"' := by
      rintro rfl
      exact absurd hd (by decide)
    have hopen : skipWs (byte '(' :: (d :: l ++ argsText F args)) =
        byte '(' :: (d :: l ++ argsText F args) := rfl
    have hskip : skipWs (d :: l ++ argsText F args) = d :: l ++ argsText F args := by
      unfold skipWs
      rw [List.cons_append, List.dropWhile_cons_of_neg (by simp [hspace])]
    have hsymbolRead : readSymbolOrString (d :: l ++ argsText F args) =
        .ok (d :: l, argsText F args) := by
      rw [htail, List.cons_append] at *
      unfold readSymbolOrString
      simp only [hquoteByte, if_false]
      rw [hread]
    unfold parse
    rw [hopen]
    simp only [ne_eq, not_true_eq_false, if_false, hskip]
    show (readSymbolOrString (d :: l ++ argsText F args) >>= _) = _
    rw [hsymbolRead]
    show (readArgs F H ((argsText F args).length + 1) (argsText F args) >>= _) = _
    rw [hargsRead]
    rfl

theorem readQuoted_spec (s : Text) {out rest : Text} (h : readQuoted s = .ok (out, rest)) :
    ∃ p, s = p ++ byte '"' :: rest ∧ out.length ≤ p.length := by
  induction s using readQuoted.induct generalizing out with
  | case1 => simp [readQuoted] at h
  | case2 s =>
    rw [readQuoted.eq_def] at h
    simp only [if_true, Except.ok.injEq, Prod.mk.injEq] at h
    obtain ⟨rfl, rfl⟩ := h
    exact ⟨[], rfl, le_refl _⟩
  | case3 hquote =>
    rw [readQuoted, if_neg hquote, if_pos rfl] at h
    cases h
  | case4 e s hquote ih =>
    rw [readQuoted, if_neg hquote, if_pos rfl] at h
    cases hrest : readQuoted s with
    | error e => simp [hrest, Except.map] at h
    | ok result =>
      obtain ⟨out', rest'⟩ := result
      simp only [hrest, Except.map, Except.ok.injEq, Prod.mk.injEq] at h
      obtain ⟨rfl, rfl⟩ := h
      obtain ⟨p, rfl, hle⟩ := ih hrest
      exact ⟨_ :: e :: p, rfl, by simp; omega⟩
  | case5 c s hquote hescape ih =>
    rw [readQuoted.eq_def] at h
    simp only [hquote, hescape, if_false] at h
    cases hrest : readQuoted s with
    | error e => simp [hrest, Except.map] at h
    | ok result =>
      obtain ⟨out', rest'⟩ := result
      simp only [hrest, Except.map, Except.ok.injEq, Prod.mk.injEq] at h
      obtain ⟨rfl, rfl⟩ := h
      obtain ⟨p, rfl, hle⟩ := ih hrest
      exact ⟨c :: p, rfl, by simpa using hle⟩

theorem quote_not_mem_argsText (hargs : ∀ v ∈ args, IsArgument v) :
    byte '"' ∉ argsText F args := by
  intro hmem
  rcases List.mem_append.mp hmem with hmem | hmem
  · obtain ⟨v, hv, hmem⟩ := List.mem_flatMap.mp hmem
    rcases List.mem_cons.mp hmem with heq | hmem
    · exact absurd heq (by decide)
    · have hsymbol := (quoteIfString_symbol (F := F) (hargs v hv)).2 _ hmem
      exact absurd hsymbol (by decide)
  · exact absurd hmem (by decide)

theorem length_lt_of_not_mem {p s s' t : Text} {c : UInt8} (h : p ++ c :: s = t ++ s')
    (hnot : c ∉ s') : p.length < t.length := by
  by_contra hle
  have hget : (p ++ c :: s)[p.length]? = some c := by simp
  rw [h, List.getElem?_append_right (by omega)] at hget
  exact hnot (List.mem_of_getElem? hget)

theorem plainName_of_parse (hargs : ∀ v ∈ args, IsArgument v) {args' : List Value}
    (h : parse F H (callForm F name args) = .ok (name, args')) : PlainName name := by
  have hform : callForm F name args = byte '(' :: (name ++ argsText F args) := by
    simp [callForm, argsText]
  rw [hform] at h
  unfold parse at h
  have hopen : skipWs (byte '(' :: (name ++ argsText F args)) =
      byte '(' :: (name ++ argsText F args) := rfl
  rw [hopen] at h
  simp only [ne_eq, not_true_eq_false, if_false] at h
  cases hsymbol : readSymbolOrString (skipWs (name ++ argsText F args)) with
  | error e =>
    rw [hsymbol] at h
    cases h
  | ok result =>
    obtain ⟨name', rest⟩ := result
    rw [hsymbol] at h
    have hname : name' ≠ [] ∧ name' = name := by
      simp only [bind, Except.bind, pure, Except.pure] at h
      split at h
      · cases h
      · rename_i hne
        refine ⟨hne, ?_⟩
        split at h
        · cases h
        · split at h
          · cases h
          · simp only [Except.ok.injEq, Prod.mk.injEq] at h
            exact h.1
    obtain ⟨hne, rfl⟩ := hname
    refine ⟨hne, ?_⟩
    cases hskip : skipWs (name' ++ argsText F args) with
    | nil =>
      rw [hskip] at hsymbol
      simp [readSymbolOrString, readSymbol] at hsymbol
      exact absurd hsymbol.1 hne
    | cons c s =>
      rw [hskip] at hsymbol
      unfold readSymbolOrString at hsymbol
      by_cases hquote : c = byte '"'
      · subst hquote
        simp only [if_true] at hsymbol
        obtain ⟨p, rfl, hle⟩ := readQuoted_spec s hsymbol
        have hsplit : (name' ++ argsText F args).takeWhile CallParser.isSpace ++
            byte '"' :: (p ++ byte '"' :: rest) = name' ++ argsText F args := by
          rw [← hskip]
          exact List.takeWhile_append_dropWhile
        have hlt := length_lt_of_not_mem (s := rest) (c := byte '"')
          (p := (name' ++ argsText F args).takeWhile CallParser.isSpace ++ byte '"' :: p)
          (by simpa using hsplit) (quote_not_mem_argsText hargs)
        simp only [List.length_append, List.length_cons] at hlt
        omega
      · simp only [hquote, if_false, Except.ok.injEq, readSymbol, Prod.mk.injEq] at hsymbol
        intro d hd
        rw [← hsymbol.1] at hd
        simpa using List.mem_takeWhile_imp hd

/-! ## The reply -/

theorem toText_pointer_not_error (address : Word) (content : Option Text) :
    (text "ERROR: ").isPrefixOf ((Value.pointer address content).toText F) = false := by
  have herror : text "ERROR: " = byte 'E' :: (text "ERROR: ").tail := by with_unfolding_all decide
  have hptr : text "ptr:0x" = byte 'p' :: (text "ptr:0x").tail := by with_unfolding_all decide
  by_cases haddress : address = 0
  · simp only [Value.toText, haddress, if_true]
    with_unfolding_all decide
  · simp only [Value.toText, haddress, if_false]
    rw [herror, hptr, List.cons_append, List.isPrefixOf_cons_cons]
    rfl

theorem sameValue_ofText {v : Value} {s : Text} (h : SameValue v (.ofText C s)) :
    (v = .null ∧ C s = none) ∨
      ∃ address, v = .pointer address (some (s.takeWhile (· != 0))) ∧ C s ≠ none := by
  unfold Value.ofText at h
  cases hC : C s with
  | none =>
    rw [hC] at h
    cases v with
    | null => exact .inl ⟨rfl, rfl⟩
    | int i => cases h
    | float x => cases h
    | pointer address content => cases content <;> cases h
  | some address' =>
    rw [hC] at h
    cases v with
    | null => cases h
    | int i => cases h
    | float x => cases h
    | pointer address content =>
      cases content with
      | none => cases h
      | some s' =>
        have hs : s' = s.takeWhile (· != 0) := h
        exact .inr ⟨address, by rw [hs], by simp⟩

theorem replyResult_error (e : Text) :
    replyResult C (text "ERROR: " ++ e) = .error e := by
  have hprefix : (text "ERROR: ").isPrefixOf (text "ERROR: " ++ e) = true :=
    List.isPrefixOf_iff_prefix.mpr (List.prefix_append _ _)
  have hlength : (text "ERROR: ").length = 7 := by with_unfolding_all decide
  have hdrop : (text "ERROR: " ++ e).drop 7 = e := List.drop_left' hlength
  simp only [replyResult, hprefix, if_true, hdrop]

theorem sameResult_reply_iff (v : Value) :
    SameResult (.ok v)
      (replyResult C (if v = .null then text "null" else v.toText F)) ↔ Survives F C v := by
  have hnullText : (text "null").takeWhile (· != 0) = text "null" := by with_unfolding_all decide
  have hnullReply : replyResult C (text "null") = .ok (.ofText C (text "null")) := by
    have hprefix : (text "ERROR: ").isPrefixOf (text "null") = false := by with_unfolding_all decide
    simp [replyResult, hprefix]
  cases v with
  | null =>
    simp only [if_true, hnullReply, SameResult, Survives]
    constructor
    · intro h
      rcases sameValue_ofText h with ⟨-, hnone⟩ | ⟨address, heq, -⟩
      · exact hnone
      · cases heq
    · intro h
      simp [Value.ofText, h, SameValue]
  | int i =>
    simp only [reduceCtorEq, if_false, Survives, iff_false]
    intro h
    unfold replyResult at h
    split at h
    · exact h
    · rcases sameValue_ofText h with ⟨heq, -⟩ | ⟨address, heq, -⟩ <;> cases heq
  | float x =>
    simp only [reduceCtorEq, if_false, Survives, iff_false]
    intro h
    unfold replyResult at h
    split at h
    · exact h
    · rcases sameValue_ofText h with ⟨heq, -⟩ | ⟨address, heq, -⟩ <;> cases heq
  | pointer address content =>
    have hreply : replyResult C ((Value.pointer address content).toText F) =
        .ok (.ofText C ((Value.pointer address content).toText F)) := by
      simp [replyResult, toText_pointer_not_error]
    simp only [reduceCtorEq, if_false, hreply, SameResult]
    cases content with
    | none =>
      simp only [Survives, iff_false]
      intro h
      rcases sameValue_ofText h with ⟨heq, -⟩ | ⟨address', heq, -⟩ <;> cases heq
    | some s =>
      simp only [Survives]
      constructor
      · intro h
        rcases sameValue_ofText h with ⟨heq, -⟩ | ⟨address', heq, hroom⟩
        · cases heq
        · simp only [Value.pointer.injEq, Option.some.injEq] at heq
          exact ⟨hroom, heq.2⟩
      · rintro ⟨hroom, hs⟩
        unfold Value.ofText
        cases hC : C ((Value.pointer address (some s)).toText F) with
        | none => exact absurd hC hroom
        | some address' => exact hs

theorem forall₂_arrives_iff (hargs : ∀ v ∈ args, IsArgument v) :
    List.Forall₂ SameValue args (args.map arrives) ↔ ∀ v ∈ args, ∃ i, v = .int i := by
  induction args with
  | nil => simp
  | cons v args ih =>
    have hhead : SameValue v (arrives v) ↔ ∃ i, v = .int i := by
      cases v with
      | null => simp [SameValue, arrives]
      | int i => simp [SameValue, arrives]
      | float x => exact absurd (hargs _ List.mem_cons_self) (by simp [IsArgument])
      | pointer address content => simp [SameValue, arrives]
    rw [List.map_cons, List.forall₂_cons, hhead,
      ih fun w hw => hargs w (List.mem_cons_of_mem v hw)]
    simp

/-- A remote call recovers its arguments and its result exactly when its name is one symbol, its
arguments are integers, and a value that it returns survives the client's string.
SRCLINE: RemoteRuntime.cpp:45-51,87-127, carbon/Main.cpp:75-199 -/
theorem remoteCall_agrees_iff (call : Text → List Value → CallResult)
    (hargs : ∀ v ∈ args, IsArgument v) (hnull : F.strtod (text "null") = none) :
    CallsAgree F H C call name args ↔
      PlainName name ∧ (∀ v ∈ args, ∃ i, v = .int i) ∧
        ∀ v, call name args = .ok v → Survives F C v := by
  have hints : (∀ v ∈ args, ∃ i, v = .int i) → args.map arrives = args := by
    intro h
    conv_rhs => rw [← List.map_id args]
    refine List.map_congr_left fun v hv => ?_
    obtain ⟨i, rfl⟩ := h v hv
    rfl
  have hresult : PlainName name → (∀ v ∈ args, ∃ i, v = .int i) →
      (SameResult (call name args) (remoteCall F H C call name args) ↔
        ∀ v, call name args = .ok v → Survives F C v) := by
    intro hname hint
    simp only [remoteCall, handleEval, parse_callForm hnull hname hargs, hints hint]
    cases hcall : call name args with
    | error e => simp [replyResult_error, SameResult]
    | ok v =>
      rw [sameResult_reply_iff]
      simp
  constructor
  · rintro ⟨⟨args', hparse, hsame⟩, hagree⟩
    have hname := plainName_of_parse hargs hparse
    rw [parse_callForm hnull hname hargs] at hparse
    simp only [Except.ok.injEq, Prod.mk.injEq, true_and] at hparse
    subst hparse
    have hint := (forall₂_arrives_iff hargs).mp hsame
    exact ⟨hname, hint, (hresult hname hint).mp hagree⟩
  · rintro ⟨hname, hint, hsurvives⟩
    have hsame := (forall₂_arrives_iff hargs).mpr hint
    exact ⟨⟨_, parse_callForm hnull hname hargs, hsame⟩, (hresult hname hint).mpr hsurvives⟩

/-- Two integers are added on the host, and the call fails there. -/
theorem remoteCall_agrees_iff_failing :
    CallsAgree ⟨fun _ => [], fun _ => none⟩ (fun _ => none) (fun _ => none)
        (fun _ _ => .error (text "no such function")) (text "sum") [.int 2, .int (-3)] ↔
      PlainName (text "sum") ∧ (∀ v ∈ [Value.int 2, .int (-3)], ∃ i, v = .int i) ∧
        ∀ v, (Except.error (text "no such function") : CallResult) = .ok v →
          Survives ⟨fun _ => [], fun _ => none⟩ (fun _ => none) v :=
  remoteCall_agrees_iff _ (by simp [IsArgument]) rfl

/-- A string that is sent arrives as a string id, and the host's five is a string for the client. -/
theorem not_remoteCall_agrees :
    ¬ CallsAgree ⟨fun _ => [], fun _ => none⟩ (fun _ => some 64) (fun _ => some 64)
        (fun _ _ => .ok (.int 5)) (text "sum") [.int 2, .int 3] ∧
      CallParser.parse ⟨fun _ => [], fun _ => none⟩ (fun _ => some 64)
          (callForm ⟨fun _ => [], fun _ => none⟩ (text "greet") [.pointer 32 (some (text "hi"))]) =
        .ok (text "greet", [.int (textId (text "null"))]) := by
  constructor
  · rintro ⟨-, hsame⟩
    have hremote : remoteCall ⟨fun _ => [], fun _ => none⟩ (fun _ => some 64) (fun _ => some 64)
        (fun _ _ => .ok (.int 5)) (text "sum") [.int 2, .int 3] =
          .ok (.pointer 64 (some (text "5"))) := by
      with_unfolding_all decide
    rw [hremote] at hsame
    exact hsame
  · with_unfolding_all decide

end Soot.Analysis
