import Soot.Analysis.Script.Tokens

/-!
# What is printed and read again

By induction on a datum, what its printed text is read as: the datum if it is legible, something
else if not.
-/

set_option autoImplicit false

namespace Soot.Analysis.Script

open Soot.Computation Soot.Program.Script Soot.Model.Script

variable {R : ReaderEnvironment} {d : Object}

/-! ## Legible data -/

theorem prints_dotted (P : Printing) (hd : IsDatum R d)
    (hnull : d ≠ .emptyList) (hpair : ∀ car cdr, d ≠ .pair car cdr) :
    (d.prints P).2 = text " . " ++ (d.prints P).1 := by
  cases hd with
  | emptyList => exact absurd rfl hnull
  | pair => exact absurd rfl (hpair _ _)
  | _ => rw [Object.prints]

theorem prints_pair (P : Printing) (car cdr : Object) (rest : Text) :
    ((Object.pair car cdr).prints P).1 ++ rest =
      byte '(' :: ((car.prints P).1 ++ ((cdr.prints P).2 ++ byte ')' :: rest)) := by
  rw [Object.prints]
  simp only [List.cons_append, List.append_assoc, List.nil_append]

theorem prints_pair_tail (P : Printing) (car cdr : Object) (rest : Text) :
    ((Object.pair car cdr).prints P).2 ++ rest =
      byte ' ' :: ((car.prints P).1 ++ ((cdr.prints P).2 ++ rest)) := by
  rw [Object.prints]
  simp only [List.cons_append, List.append_assoc]

theorem boundary_tail (P : Printing) (hd : IsDatum R d)
    (rest : Text) : Boundary ((d.prints P).2 ++ byte ')' :: rest) := by
  have hliteral : text " . " = [byte ' ', byte '.', byte ' '] := by with_unfolding_all decide
  intro c hc
  by_cases hnull : d = .emptyList
  · subst hnull
    exact .inr (Option.some.inj hc).symm
  by_cases hpair : ∃ car cdr, d = .pair car cdr
  · obtain ⟨car, cdr, rfl⟩ := hpair
    rw [prints_pair_tail] at hc
    exact .inl (Option.some.inj hc).symm
  · rw [prints_dotted P hd hnull fun car cdr h => hpair ⟨car, cdr, h⟩, hliteral] at hc
    exact .inl (Option.some.inj hc).symm

theorem readAtom_close (R : ReaderEnvironment) (s : Text) :
    readAtom R (text ")") s = .ok none := by
  with_unfolding_all rfl

theorem tryTokenAsNumber_dot {o : Object}
    (h : tryTokenAsNumber R (text ".") = .ok (some o)) : ∃ x, o = .float x := by
  have heq : tryTokenAsNumber R (text ".") = .ok ((R.strtod (text ".")).map .float) := by
    with_unfolding_all rfl
  rw [heq] at h
  obtain ⟨x, -, rfl⟩ := Option.map_eq_some_iff.mp (Except.ok.inj h)
  exact ⟨x, rfl⟩

theorem token_of_reads {s rest : Text} {o : Object}
    (h : Reads R .form s o rest) (hnull : o ≠ .emptyList) (hfloat : ∀ x, o ≠ .float x)
    (hdot : o ≠ .symbol (text ".")) :
    (getNextToken s).1 ≠ [] ∧ (getNextToken s).1 ≠ text ")" ∧ (getNextToken s).1 ≠ text "." := by
  have hreplaced : readerMacro (text ")") = none ∧ readerMacro (text ".") = none := by
    with_unfolding_all decide
  have hopens : terminatorOf (text ")") = none ∧ terminatorOf (text ".") = none := by
    with_unfolding_all decide
  cases h with
  | nothing => exact absurd rfl hnull
  | quotation token replaced =>
    rw [token]
    refine ⟨macro_ne_nil replaced, ?_, ?_⟩
    · rintro rfl
      exact Option.some_ne_none _ (replaced.symm.trans hreplaced.1)
    · rintro rfl
      exact Option.some_ne_none _ (replaced.symm.trans hreplaced.2)
  | list token opens =>
    rw [token]
    refine ⟨opening_ne_nil opens, ?_, ?_⟩
    · rintro rfl
      exact Option.some_ne_none _ (opens.symm.trans hopens.1)
    · rintro rfl
      exact Option.some_ne_none _ (opens.symm.trans hopens.2)
  | atom token nonempty kept closed read =>
    rw [token]
    refine ⟨nonempty, ?_, ?_⟩
    · rintro rfl
      rw [readAtom_close] at read
      cases read
    · rintro rfl
      obtain hnumber | ⟨str, -, hquote, -⟩ | ⟨-, hchar | ⟨-, hsymbol⟩⟩ := readAtom_cases read
      · obtain ⟨x, rfl⟩ := tryTokenAsNumber_dot hnumber
        exact hfloat x rfl
      · exact absurd hquote (by with_unfolding_all decide)
      · exact absurd (tryTokenAsChar_start hchar) (by with_unfolding_all decide)
      · exact hdot (tryTokenAsSymbol_cases hsymbol).1
  | invalid => exact absurd rfl hnull

theorem legible_token (hd : IsDatum R d)
    (hlegible : Legible false d) {s rest : Text} (h : Reads R .form s d rest) :
    (getNextToken s).1 ≠ [] ∧ (getNextToken s).1 ≠ text ")" ∧ (getNextToken s).1 ≠ text "." := by
  refine token_of_reads h ?_ ?_ ?_
  · rintro rfl
    exact Bool.false_ne_true hlegible
  · rintro x rfl
    cases hd
  · rintro rfl
    exact hlegible.2.1 rfl

theorem reads_element {d list : Object} (hd : IsDatum R d)
    (hlegible : Legible false d) {s rest rest' : Text} {pairs : List Object}
    (h : Reads R .form s d rest)
    (more : Reads R (.list (text ")") (pairs ++ [d]) false none) rest list rest') :
    Reads R (.list (text ")") pairs false none) s list rest' := by
  obtain ⟨hne, hclose, hdot⟩ := legible_token hd hlegible h
  have token : getNextToken s = ((getNextToken s).1, (getNextToken s).2) := rfl
  exact .element token hne hclose hdot h more

theorem reads_legible (P : Printing) (hd : IsDatum R d) :
    (Legible false d → ∀ rest, Boundary rest → Reads R .form ((d.prints P).1 ++ rest) d rest) ∧
    (Legible true d → ∀ rest (pairs : List Object), pairs ≠ [] →
      Reads R (.list (text ")") pairs false none) ((d.prints P).2 ++ byte ')' :: rest)
        (.ofListWith d pairs) rest) := by
  have hatom : ∀ {d}, IsDatum R d → d ≠ .emptyList → (∀ car cdr, d ≠ .pair car cdr) →
      (Legible true d → Legible false d) →
      (Legible false d → ∀ rest, Boundary rest →
        Reads R .form ((d.prints P).1 ++ rest) d rest) →
      (Legible true d → ∀ rest (pairs : List Object), pairs ≠ [] →
        Reads R (.list (text ")") pairs false none) ((d.prints P).2 ++ byte ')' :: rest)
          (.ofListWith d pairs) rest) := by
    intro d hd hnull hpair himp hform hlegible rest pairs hpairs
    have hclose : text "." ≠ text ")" := by with_unfolding_all decide
    have hreads := hform (himp hlegible) (byte ')' :: rest) fun c hc => .inr (Option.some.inj hc).symm
    obtain ⟨hne, hother, hdot⟩ := legible_token hd (himp hlegible) hreads
    rw [prints_dotted P hd hnull hpair, List.append_assoc]
    refine .dot (getNextToken_dot _) hclose.symm hpairs (reads_list_space.mpr ?_)
    have hend : Reads R (.list (text ")") pairs true (some d)) (byte ')' :: rest)
        (.ofListWith ((some d).getD .emptyList) pairs) rest :=
      .terminator (getNextToken_close rest) (by with_unfolding_all decide)
    exact .tail (Prod.ext rfl rfl) hne hother hdot hreads hend
  induction hd with
  | int i =>
    have hform : Legible false (.int i) → ∀ rest, Boundary rest →
        Reads R .form (((Object.int i).prints P).1 ++ rest) (.int i) rest := by
      intro _ rest hrest
      rw [Object.prints]
      exact reads_int hrest
    exact ⟨hform, hatom (.int i) nofun nofun id hform⟩
  | @symbol name valid number =>
    have hform : Legible false (.symbol name) → ∀ rest, Boundary rest →
        Reads R .form (((Object.symbol name).prints P).1 ++ rest) (.symbol name) rest := by
      intro hplain rest hrest
      rw [Object.prints]
      exact reads_plain valid number hplain hrest
    exact ⟨hform, hatom (.symbol valid number) nofun nofun id hform⟩
  | @string data nonNull =>
    have hform : Legible false (.string data) → ∀ rest, Boundary rest →
        Reads R .form (((Object.string data).prints P).1 ++ rest) (.string data) rest := by
      intro hlegible rest _
      rw [Object.prints]
      exact reads_string hlegible.1 hlegible.2
    exact ⟨hform, hatom (.string nonNull) nofun nofun id hform⟩
  | char c =>
    have hform : Legible false (.char c) → ∀ rest, Boundary rest →
        Reads R .form (((Object.char c).prints P).1 ++ rest) (.char c) rest := by
      intro hlegible rest hrest
      rw [Object.prints]
      exact reads_char hlegible.1 hlegible.2 hrest
    exact ⟨hform, hatom (.char c) nofun nofun id hform⟩
  | emptyList =>
    refine ⟨fun h => absurd h Bool.false_ne_true, fun _ rest pairs hpairs => ?_⟩
    have hend : Reads R (.list (text ")") pairs false none) (byte ')' :: rest)
        (.ofListWith ((none : Option Object).getD .emptyList) pairs) rest :=
      .terminator (getNextToken_close rest) (by with_unfolding_all decide)
    exact hend
  | @pair car cdr first rest ih₁ ih₂ =>
    constructor
    · intro hlegible rest hrest
      have hcar := ih₁.1 hlegible.1 _ (boundary_tail P ‹_› rest)
      rw [prints_pair]
      have hround : terminatorOf (text "(") = some (text ")") := by with_unfolding_all decide
      refine .list (getNextToken_open _) hround ?_
      exact reads_element first hlegible.1 hcar (ih₂.2 hlegible.2 rest _ (by simp))
    · intro hlegible rest pairs hpairs
      have hcar := ih₁.1 hlegible.1 _ (boundary_tail P ‹_› rest)
      rw [prints_pair_tail]
      refine reads_list_space.mpr (reads_element first hlegible.1 hcar ?_)
      have htail := ih₂.2 hlegible.2 rest (pairs ++ [car]) (by simp)
      rwa [ofListWith_append] at htail
  | array => exact ⟨False.elim, False.elim⟩

/-! ## Data that is not legible -/

theorem escape_cases {e : Text} {c : UInt8} (h : Escape e c) :
    e = [byte '"'] ∧ c = byte '"' ∨ byte '"' ∉ e ∧ e ≠ [] := by
  have hhex : hexValue (byte '"') = none := by with_unfolding_all decide
  cases h with
  | quote => exact .inl ⟨rfl, rfl⟩
  | @code a b high low first second =>
    refine .inr ⟨fun hmem => ?_, List.cons_ne_nil _ _⟩
    simp only [List.mem_cons, List.not_mem_nil, or_false] at hmem
    obtain h | rfl | rfl := hmem
    · exact absurd h (by decide)
    · rw [hhex] at first
      cases first
    · rw [hhex] at second
      cases second
  | _ => exact .inr (by decide)

/-- The first quote of a text ends the string that it starts with, which is shorter than
what stood before if there was an escape, or it is a byte of the string, nearer to its start. -/
theorem readsString_first_quote {s str rest u v : Text} (h : ReadsString s str rest)
    (hs : s = u ++ byte '"' :: v) (hu : byte '"' ∉ u) :
    (str.length ≤ u.length ∧ (str.length = u.length → byte '\\' ∉ u)) ∨
      ∃ k < u.length, str[k]? = some (byte '"') := by
  induction h generalizing u with
  | close =>
    cases u with
    | nil => exact .inl ⟨Nat.le_refl _, fun _ => List.not_mem_nil⟩
    | cons c u =>
      obtain ⟨rfl, -⟩ := List.cons.inj hs
      exact absurd List.mem_cons_self hu
  | @plain s str rest c open' unescaped _ ih =>
    cases u with
    | nil => exact absurd (List.cons.inj hs).1 open'
    | cons d u =>
      obtain ⟨rfl, htail⟩ := List.cons.inj hs
      obtain ⟨hle, heq⟩ | ⟨k, hk, hget⟩ := ih htail fun h => hu (List.mem_cons_of_mem _ h)
      · refine .inl ⟨Nat.succ_le_succ hle, fun h hmem => ?_⟩
        obtain rfl | hmem := List.mem_cons.mp hmem
        · exact unescaped rfl
        · exact heq (Nat.succ.inj h) hmem
      · exact .inr ⟨k + 1, Nat.succ_lt_succ hk, hget⟩
  | @escape e s str rest c means _ ih =>
    cases u with
    | nil => exact absurd (List.cons.inj hs).1 (by decide)
    | cons d u =>
      obtain ⟨rfl, htail⟩ := List.cons.inj hs
      have hu' : byte '"' ∉ u := fun h => hu (List.mem_cons_of_mem _ h)
      obtain ⟨rfl, rfl⟩ | ⟨hquote, hne⟩ := escape_cases means
      · exact .inr ⟨0, Nat.succ_pos _, rfl⟩
      -- the bytes of any other escape lie before the quote
      · have hpos := List.length_pos_iff.mpr hne
        obtain ⟨w, rfl, hw⟩ | ⟨w, rfl, hw⟩ := List.append_eq_append_iff.mp htail
        · obtain ⟨hle, -⟩ | ⟨k, hk, hget⟩ := ih hw fun h => hu' (List.mem_append_right _ h)
          · simp only [List.length_cons, List.length_append]
            exact .inl ⟨by omega, fun h => by omega⟩
          · simp only [List.length_cons, List.length_append]
            exact .inr ⟨k + 1, by omega, hget⟩
        · cases w with
          | nil =>
            obtain ⟨hle, -⟩ | ⟨k, hk, -⟩ := ih (u := []) hw.symm List.not_mem_nil
            · simp only [List.length_cons, List.length_nil, List.append_nil] at hpos hle ⊢
              exact .inl ⟨by omega, fun h => by omega⟩
            · cases hk
          | cons d w =>
            obtain ⟨rfl, -⟩ := List.cons.inj hw
            exact absurd (List.mem_append_right _ List.mem_cons_self) hquote

theorem readsString_legible {data rest rest' : Text}
    (h : ReadsString (data ++ byte '"' :: rest) data rest') :
    byte '"' ∉ data ∧ byte '\\' ∉ data := by
  -- the first quote is the closing one: the string does not reach beyond it
  obtain ⟨u, v, htext, hu, hle⟩ : ∃ u v, data ++ byte '"' :: rest = u ++ byte '"' :: v ∧
      byte '"' ∉ u ∧ u <+: data := by
    by_cases hquote : byte '"' ∈ data
    · obtain ⟨u, v, rfl, hu⟩ := List.eq_append_cons_of_mem hquote
      exact ⟨u, v ++ byte '"' :: rest, by simp, hu, List.prefix_append _ _⟩
    · exact ⟨data, rest, rfl, hquote, List.prefix_refl _⟩
  obtain ⟨w, rfl⟩ := hle
  obtain ⟨hlength, hescape⟩ | ⟨k, hk, hget⟩ := readsString_first_quote h htext hu
  · simp only [List.length_append] at hlength
    obtain rfl := List.eq_nil_of_length_eq_zero (l := w) (by omega)
    rw [List.append_nil] at hescape ⊢
    exact ⟨hu, hescape rfl⟩
  · rw [List.getElem?_append_left hk] at hget
    exact absurd (List.mem_of_getElem? hget) hu

theorem validSymbolChar_table {c : UInt8}
    (h : validSymbolChar ⟨fun _ => none, fun _ => false⟩ c = true) :
    validSymbolChar R c = true := by
  unfold validSymbolChar at h ⊢
  split_ifs at h ⊢
  exact h

theorem tryTokenAsNumber_char (R : ReaderEnvironment) (w : Text) :
    tryTokenAsNumber R (byte '#' :: byte '\\' :: w) = .ok none := by
  with_unfolding_all rfl

set_option maxRecDepth 20000 in
theorem reads_char_name {c : UInt8} {rest : Text}
    (hc : ¬(isPrintable c = true ∧ c ≠ byte ' ')) (hrest : Boundary rest) :
    Reads R .form (printChar c ++ rest) (.symbol (printChar c)) rest := by
  have hall : ∀ c, ¬(isPrintable c = true ∧ c ≠ byte ' ') →
      (printChar c).all (validSymbolChar ⟨fun _ => none, fun _ => false⟩) = true ∧
        PlainSymbol (printChar c) ∧ (printChar c).take 2 = text "#\\" := by
    apply forall_byte
    unfold PlainSymbol
    with_unfolding_all decide
  obtain ⟨htable, hplain, hstarts⟩ := hall c hc
  refine reads_plain ?_ ?_ hplain hrest
  · rw [List.all_eq_true] at htable ⊢
    exact fun d hd => validSymbolChar_table (htable d hd)
  · rw [← List.take_append_drop 2 (printChar c), hstarts, charPrefix]
    exact tryTokenAsNumber_char R _

theorem reads_null {rest : Text} (hrest : Boundary rest) :
    Reads R .form (text "null" ++ rest) (.symbol (text "null")) rest := by
  refine reads_plain ?_ ?_ ?_ hrest
  · rw [List.all_eq_true]
    have htable : (text "null").all (validSymbolChar ⟨fun _ => none, fun _ => false⟩) = true := by
      with_unfolding_all decide
    rw [List.all_eq_true] at htable
    exact fun d hd => validSymbolChar_table (htable d hd)
  · with_unfolding_all rfl
  · unfold PlainSymbol
    with_unfolding_all decide

set_option maxRecDepth 20000 in
theorem prints_start (P : Printing) (hd : IsDatum R d)
    (hsymbol : ∀ name, d ≠ .symbol name) :
    ∃ c w, (d.prints P).1 = c :: w ∧ c ∈ text "(\"#n-0123456789" ∧
      (c = byte '#' → w.head? ≠ some (byte '|') ∧ w ≠ []) := by
  cases hd with
  | int i =>
    have hmem : ∀ b, isDigit b = true ∨ b = byte '-' →
        b ∈ text "(\"#n-0123456789" ∧ b ≠ byte '#' := by
      apply forall_byte
      with_unfolding_all decide
    obtain ⟨c, w, hcw⟩ := List.exists_cons_of_ne_nil (intDigits_ne_nil i.toInt)
    obtain ⟨hstart, hhash⟩ := hmem c (mem_intDigits (hcw ▸ List.mem_cons_self))
    exact ⟨c, w, by rw [Object.prints]; exact hcw, hstart, fun h => absurd h hhash⟩
  | symbol => exact absurd rfl (hsymbol _)
  | string =>
    exact ⟨_, _, by rw [Object.prints]; rfl, by with_unfolding_all decide,
      fun h => absurd h (by decide)⟩
  | char c =>
    have hstarts : ∀ c, (printChar c).take 2 = text "#\\" := by
      apply forall_byte
      with_unfolding_all decide
    refine ⟨byte '#', byte '\\' :: (printChar c).drop 2, ?_, by with_unfolding_all decide,
      fun _ => ?_⟩
    · have happend := List.take_append_drop 2 (printChar c)
      rw [hstarts c, charPrefix] at happend
      rw [Object.prints]
      exact happend.symm
    · exact ⟨fun h => absurd (Option.some.inj h) (by decide), List.cons_ne_nil _ _⟩
  | emptyList =>
    exact ⟨byte 'n', text "ull", by rw [Object.prints]; with_unfolding_all decide,
      by with_unfolding_all decide,
      fun h => absurd h (by decide)⟩
  | pair =>
    exact ⟨_, _, by rw [Object.prints]; rfl, by with_unfolding_all decide,
      fun h => absurd h (by decide)⟩
  | @array data elements =>
    have hopens : text "#(" = [byte '#', byte '('] := by with_unfolding_all decide
    refine ⟨byte '#', byte '(' :: ((Object.printElements P data).dropLast ++ [byte ')']), ?_,
      by with_unfolding_all decide, fun _ => ?_⟩
    · rw [Object.prints, hopens]
      rfl
    · exact ⟨fun h => absurd (Option.some.inj h) (by decide), List.cons_ne_nil _ _⟩

set_option maxRecDepth 20000 in
theorem prints_token (P : Printing) (hd : IsDatum R d)
    (hsymbol : ∀ name, d ≠ .symbol name) (rest : Text) :
    (getNextToken ((d.prints P).1 ++ rest)).1 ≠ text "." ∧
      (getNextToken ((d.prints P).1 ++ rest)).1 ≠ [] := by
  obtain ⟨c, w, hcw, hstart, hhash⟩ := prints_start P hd hsymbol
  have hfacts : ∀ c, c ∈ text "(\"#n-0123456789" →
      (c ≠ byte ' ' ∧ c ≠ byte '\t' ∧ c ≠ byte '\n' ∧ c ≠ byte '\r') ∧ c ≠ byte ';' ∧
        c ≠ byte '.' := by
    apply forall_byte
    with_unfolding_all decide
  obtain ⟨hblank, hline, hdot⟩ := hfacts c hstart
  have hself : seekPast .outer (c :: (w ++ rest)) = c :: (w ++ rest) := by
    refine seekPast_self hblank hline ?_
    rintro ⟨hc, hhead⟩
    obtain ⟨hbar, hne⟩ := hhash hc
    obtain ⟨e, w, rfl⟩ := List.exists_cons_of_ne_nil hne
    exact hbar hhead
  have happend := tokenFrom_append c (w ++ rest)
  rw [hcw, List.cons_append, getNextToken_of_cons hself]
  refine ⟨fun h => ?_, tokenFrom_fst_ne_nil c _⟩
  rw [h, show text "." = [byte '.'] by with_unfolding_all decide] at happend
  exact hdot (List.cons.inj happend).1.symm

theorem reads_open {s r : Text} {o : Object}
    (h : Reads R .form (byte '(' :: s) o r) : Reads R (.list (text ")") [] false none) s o r := by
  have hround : terminatorOf (text "(") = some (text ")") := by with_unfolding_all decide
  have hreplaced : readerMacro (text "(") = none := by with_unfolding_all decide
  have hopen := getNextToken_open s
  cases h with
  | nothing token =>
    rw [hopen] at token
    exact absurd (Prod.mk.inj token).1 (by with_unfolding_all decide)
  | quotation token replaced =>
    rw [hopen] at token
    obtain ⟨rfl, rfl⟩ := Prod.mk.inj token
    rw [hreplaced] at replaced
    cases replaced
  | list token opens reads =>
    rw [hopen] at token
    obtain ⟨rfl, rfl⟩ := Prod.mk.inj token
    rw [hround] at opens
    cases opens
    exact reads
  | atom token _ _ closed =>
    rw [hopen] at token
    obtain ⟨rfl, rfl⟩ := Prod.mk.inj token
    rw [hround] at closed
    cases closed
  | invalid token _ _ closed =>
    rw [hopen] at token
    obtain ⟨rfl, rfl⟩ := Prod.mk.inj token
    rw [hround] at closed
    cases closed

theorem misread_string {data rest r : Text}
    (h : Reads R .form (byte '"' :: (data ++ byte '"' :: rest)) (.string data) r) :
    byte '"' ∉ data ∧ byte '\\' ∉ data := by
  have hquote := getNextToken_quote (data ++ byte '"' :: rest)
  generalize ho : Object.string data = o at h
  cases h with
  | nothing => cases ho
  | quotation => cases ho
  | list token opens reads =>
    obtain rfl | ⟨car, cdr, -, rfl, -⟩ := reads_list_head reads <;> cases ho
  | invalid => cases ho
  | atom token _ _ _ read =>
    subst ho
    rw [hquote] at token
    obtain ⟨rfl, rfl⟩ := Prod.mk.inj token
    rw [readAtom_quote] at read
    split at read
    · cases read
    · next hstring =>
      cases read
      exact readsString_legible (readString_reads hstring)
    · cases read

theorem misread_symbol {name rest r : Text} {o : Object}
    (hplain : ¬PlainSymbol name) (hrest : rest ≠ [])
    (hdot : (getNextToken (name ++ rest)).1 ≠ text ".")
    (h : Reads R .form (name ++ rest) o r) : o ≠ .symbol name := by
  rintro rfl
  obtain ⟨htoken, hread | rfl | ⟨rfl, -⟩⟩ := reads_symbol h
  · exact hplain hread
  · rw [htoken] at hdot
    exact hdot rfl
  · obtain ⟨c, w, rfl⟩ := List.exists_cons_of_ne_nil hrest
    have hname : getNextToken (text "#\\" ++ c :: w) =
        (byte '#' :: byte '\\' :: c :: w.takeWhile (!endsCharName ·),
          w.dropWhile (!endsCharName ·)) := by
      with_unfolding_all rfl
    rw [hname, charPrefix] at htoken
    cases (Prod.mk.inj htoken).1

theorem misread_pair (P : Printing) {car cdr : Object}
    (hcar : IsDatum R car) (hcdr : IsDatum R cdr)
    (first : ¬Legible false car → ∀ rest o r, rest ≠ [] → Boundary rest →
      (getNextToken ((car.prints P).1 ++ rest)).1 ≠ text "." →
        Reads R .form ((car.prints P).1 ++ rest) o r → o ≠ car)
    (others : ¬Legible true cdr → ∀ rest (pairs : List Object) o r,
      Reads R (.list (text ")") pairs false none) ((cdr.prints P).2 ++ byte ')' :: rest) o r →
        o ≠ .ofListWith cdr pairs)
    (hill : ¬(Legible false car ∧ Legible true cdr)) {rest r : Text} {pairs : List Object}
    {o : Object}
    (h : Reads R (.list (text ")") pairs false none)
      ((car.prints P).1 ++ ((cdr.prints P).2 ++ byte ')' :: rest)) o r) :
    o ≠ .ofListWith (.pair car cdr) pairs := by
  have hboundary := boundary_tail P hcdr rest
  have hne : (cdr.prints P).2 ++ byte ')' :: rest ≠ [] := by simp
  cases h with
  | terminator =>
    rw [Ne, ofListWith_inj]
    exact nofun
  | dot token other nonempty reads =>
    -- a dot where an element stood: it is the symbol `.`, or a symbol that ends before a dot
    obtain ⟨name, rfl⟩ : ∃ name, car = .symbol name := by
      by_contra hsymbol
      have htoken := (prints_token P hcar (fun name h => hsymbol ⟨name, h⟩)
        ((cdr.prints P).2 ++ byte ')' :: rest)).1
      rw [token] at htoken
      exact htoken rfl
    obtain rfl | ⟨x, rest₁, hx, -, rfl⟩ := reads_list_dot reads
    · rw [Ne, ofListWith_inj]
      exact nofun
    · rw [Ne, ofListWith_inj]
      rintro rfl
      cases hcar with
      | symbol valid number =>
        have hplain := reads_pair_symbol hx
        rw [Object.prints, getNextToken_plain valid hplain hboundary] at token
        exact hplain.2.1 (Prod.mk.inj token).1
  | element token nonempty other undotted reads more =>
    have hdot : (getNextToken ((car.prints P).1 ++ ((cdr.prints P).2 ++ byte ')' :: rest))).1 ≠
        text "." := by
      rw [token]
      exact undotted
    obtain ⟨y, rfl⟩ := reads_list_append more
    rw [Ne, ofListWith_append, ofListWith_inj]
    intro heq
    obtain ⟨hread, hy⟩ := Object.pair.inj heq
    rw [hread] at reads more
    by_cases hlegible : Legible false car
    · obtain ⟨-, rfl⟩ := reads_unique ((reads_legible P hcar).1 hlegible _ hboundary) reads
      refine others (fun hcdr => hill ⟨hlegible, hcdr⟩) rest _ _ _ more ?_
      exact congrArg (Object.ofListWith · _) hy
    · exact first hlegible _ _ _ hne hboundary hdot reads rfl

/-- What is not legible is not read as it was printed, in the induction over its parts:
by itself, or as what is left of a list. -/
theorem misread (P : Printing) (hd : IsDatum R d) :
    (¬Legible false d → ∀ rest o r, Boundary rest →
      (∀ name, d = .symbol name → rest ≠ [] ∧
        (getNextToken ((d.prints P).1 ++ rest)).1 ≠ text ".") →
      Reads R .form ((d.prints P).1 ++ rest) o r → o ≠ d) ∧
    (¬Legible true d → ∀ rest (pairs : List Object) o r,
      Reads R (.list (text ")") pairs false none) ((d.prints P).2 ++ byte ')' :: rest) o r →
        o ≠ .ofListWith d pairs) := by
  have hatom : ∀ {d}, IsDatum R d → d ≠ .emptyList → (∀ car cdr, d ≠ .pair car cdr) →
      (Legible false d → Legible true d) →
      (¬Legible false d → ∀ rest o r, Boundary rest →
        (∀ name, d = .symbol name → rest ≠ [] ∧
          (getNextToken ((d.prints P).1 ++ rest)).1 ≠ text ".") →
        Reads R .form ((d.prints P).1 ++ rest) o r → o ≠ d) →
      (¬Legible true d → ∀ rest (pairs : List Object) o r,
        Reads R (.list (text ")") pairs false none) ((d.prints P).2 ++ byte ')' :: rest) o r →
          o ≠ .ofListWith d pairs) := by
    intro d hd hnull hpair himp hform hill rest pairs o r h
    rw [prints_dotted P hd hnull hpair, List.append_assoc] at h
    have hdotted := getNextToken_dot ((d.prints P).1 ++ byte ')' :: rest)
    cases h with
    | terminator token =>
      exact absurd (Prod.mk.inj (hdotted.symm.trans token)).1 (by with_unfolding_all decide)
    | dot token other nonempty reads =>
      rw [hdotted] at token
      obtain ⟨-, rfl⟩ := Prod.mk.inj token
      rw [reads_list_space] at reads
      obtain rfl | ⟨x, rest₁, hx, hdot, rfl⟩ := reads_list_dot reads
      · rw [Ne, ofListWith_inj]
        exact hnull.symm
      · rw [Ne, ofListWith_inj]
        refine hform (fun h => hill (himp h)) _ _ _ ?_ (fun name _ => ⟨by simp, hdot⟩) hx
        exact fun c hc => .inr (Option.some.inj hc).symm
    | element token nonempty other undotted =>
      rw [hdotted] at token
      exact absurd (Prod.mk.inj token).1.symm undotted
  induction hd with
  | int i => exact ⟨fun h => absurd trivial h, fun h => absurd trivial h⟩
  | @symbol name valid number =>
    have hform : ¬Legible false (.symbol name) → ∀ rest o r, Boundary rest →
        (∀ name', Object.symbol name = .symbol name' → rest ≠ [] ∧
          (getNextToken (((Object.symbol name).prints P).1 ++ rest)).1 ≠ text ".") →
        Reads R .form (((Object.symbol name).prints P).1 ++ rest) o r → o ≠ .symbol name := by
      intro hplain rest o r _ hplace h
      obtain ⟨hrest, hdot⟩ := hplace name rfl
      rw [Object.prints] at hdot h
      exact misread_symbol hplain hrest hdot h
    exact ⟨hform, hatom (.symbol valid number) nofun nofun id hform⟩
  | @string data nonNull =>
    have hform : ¬Legible false (.string data) → ∀ rest o r, Boundary rest →
        (∀ name, Object.string data = .symbol name → rest ≠ [] ∧
          (getNextToken (((Object.string data).prints P).1 ++ rest)).1 ≠ text ".") →
        Reads R .form (((Object.string data).prints P).1 ++ rest) o r → o ≠ .string data := by
      rintro hill rest o r - - h rfl
      rw [Object.prints, List.append_assoc, List.cons_append, List.singleton_append] at h
      exact hill (misread_string h)
    exact ⟨hform, hatom (.string nonNull) nofun nofun id hform⟩
  | char c =>
    have hform : ¬Legible false (.char c) → ∀ rest o r, Boundary rest →
        (∀ name, Object.char c = .symbol name → rest ≠ [] ∧
          (getNextToken (((Object.char c).prints P).1 ++ rest)).1 ≠ text ".") →
        Reads R .form (((Object.char c).prints P).1 ++ rest) o r → o ≠ .char c := by
      intro hill rest o r hrest _ h
      rw [Object.prints] at h
      rw [(reads_unique (reads_char_name hill hrest) h).1]
      exact nofun
    exact ⟨hform, hatom (.char c) nofun nofun id hform⟩
  | emptyList =>
    refine ⟨fun _ rest o r hrest _ h => ?_, fun h => absurd rfl h⟩
    rw [Object.prints] at h
    rw [(reads_unique (reads_null hrest) h).1]
    exact nofun
  | @pair car cdr first rest ih₁ ih₂ =>
    have hpart : ¬Legible false car → ∀ rest o r, rest ≠ [] → Boundary rest →
        (getNextToken ((car.prints P).1 ++ rest)).1 ≠ text "." →
          Reads R .form ((car.prints P).1 ++ rest) o r → o ≠ car :=
      fun hill rest o r hne hrest hdot => ih₁.1 hill rest o r hrest fun _ _ => ⟨hne, hdot⟩
    constructor
    · intro hill rest o r _ _ h
      rw [prints_pair] at h
      exact misread_pair P first ‹_› hpart ih₂.2 hill (reads_open h)
    · intro hill rest pairs o r h
      rw [prints_pair_tail, reads_list_space] at h
      exact misread_pair P first ‹_› hpart ih₂.2 hill h
  | @array data elements =>
    have hform : ¬Legible false (.array data) → ∀ rest o r, Boundary rest →
        (∀ name, Object.array data = .symbol name → rest ≠ [] ∧
          (getNextToken (((Object.array data).prints P).1 ++ rest)).1 ≠ text ".") →
        Reads R .form (((Object.array data).prints P).1 ++ rest) o r → o ≠ .array data := by
      rintro - rest o r - - h rfl
      exact reads_not_array h
    exact ⟨hform, hatom (.array elements) nofun nofun id hform⟩

/-! ## Equality of data -/

theorem equalElements_iff (C : Comparison) {data data' : List Object}
    (h : ∀ o ∈ data, ∀ o', o'.equal C o = .ok true ↔ o' = o) (hlength : data'.length = data.length) :
    Object.equalElements C data' data = .ok true ↔ data' = data := by
  induction data generalizing data' with
  | nil =>
    obtain rfl := List.eq_nil_of_length_eq_zero hlength
    exact ⟨fun _ => rfl, fun _ => rfl⟩
  | cons o data ih =>
    obtain ⟨o', data', rfl⟩ := List.exists_cons_of_length_eq_add_one hlength
    have hhead := h o List.mem_cons_self o'
    have htail := ih (fun o ho => h o (List.mem_cons_of_mem _ ho)) (Nat.succ.inj hlength)
    rw [Object.equalElements, List.cons.injEq, ← hhead, ← htail]
    cases o'.equal C o with
    | error => exact ⟨nofun, fun h => nomatch h.1⟩
    | ok same =>
      cases same with
      | false => exact ⟨nofun, fun h => nomatch h.1⟩
      | true => exact (and_iff_right rfl).symm

theorem equal_iff (C : Comparison) (hd : IsDatum R d)
    (d' : Object) : d'.equal C d = .ok true ↔ d' = d := by
  induction hd generalizing d' with
  | @pair car cdr first rest ih₁ ih₂ =>
    cases d' with
    | pair car' cdr' =>
      rw [Object.equal, Object.pair.injEq, ← ih₁, ← ih₂]
      cases car'.equal C car with
      | error => exact ⟨nofun, fun h => nomatch h.1⟩
      | ok same =>
        cases same with
        | false => exact ⟨nofun, fun h => nomatch h.1⟩
        | true => exact (and_iff_right rfl).symm
    | _ => exact ⟨fun h => by simp [Object.equal] at h, nofun⟩
  | @array data elements ih =>
    cases d' with
    | array data' =>
      rw [Object.equal, Object.array.injEq]
      split_ifs with hlength
      · exact equalElements_iff C ih hlength
      · exact ⟨nofun, fun h => absurd (congrArg List.length h) hlength⟩
    | _ => exact ⟨fun h => by simp [Object.equal] at h, nofun⟩
  | _ => cases d' <;> simp [Object.equal]

/-! ## Texts of one form -/

theorem roundTrips_iff_reads {P : Printing} {C : Comparison}
    (hd : IsDatum R d) :
    RoundTrips R P C d ↔ ∃ rest, seekPast .outer (dropEncoding (d.print P)) ≠ [] ∧
      Reads R .form (dropEncoding (d.print P)) d rest ∧ seekPast .outer rest = [] := by
  unfold RoundTrips
  constructor
  · rintro ⟨d', hread, hequal⟩
    obtain rfl := (equal_iff C hd d').mp hequal
    cases readFromString_iff.mp hread with
    | form remains reads more =>
      cases more with
      | done ends => exact ⟨_, remains, reads, ends⟩
  · rintro ⟨rest, remains, reads, ends⟩
    exact ⟨d, readFromString_iff.mpr (.form remains reads (.done ends)),
      (equal_iff C hd d).mpr rfl⟩

theorem seekPast_ne_nil {s : Text} (h : (getNextToken s).1 ≠ []) : seekPast .outer s ≠ [] := by
  intro hnil
  rw [getNextToken, hnil] at h
  exact h rfl

theorem length_token {s tok rest : Text} (h : getNextToken s = (tok, rest)) :
    tok.length ≤ s.length := by
  by_cases hne : tok = []
  · rw [hne]
    exact Nat.zero_le _
  obtain ⟨first, s', hseek, htok⟩ := getNextToken_cons h hne
  have happend := congrArg List.length (tokenFrom_append first s')
  have hlen := length_seekPast .outer s
  simp only [htok, List.length_append] at happend
  rw [hseek] at hlen
  omega

theorem symbol_alone {name : Text}
    (hvalid : name.all (validSymbolChar R) = true) (hnumber : tryTokenAsNumber R name = .ok none) :
    (∃ rest, seekPast .outer (dropEncoding name) ≠ [] ∧
      Reads R .form (dropEncoding name) (.symbol name) rest ∧ seekPast .outer rest = []) ↔
    LegibleAlone (.symbol name) := by
  have hboundary : Boundary [] := nofun
  constructor
  · rintro ⟨rest, -, reads, -⟩
    obtain ⟨htoken, hname⟩ := reads_symbol reads
    refine ⟨?_, fun hencoding => ?_⟩
    · obtain hplain | hdot | ⟨hhash, -⟩ := hname
      · exact .inl hplain
      · exact .inr (.inl hdot)
      · exact .inr (.inr hhash)
    · have hlen := length_token htoken
      have htake := congrArg List.length hencoding
      rw [dropEncoding, if_pos hencoding, List.length_drop] at hlen
      rw [List.length_take, List.length_cons, List.length_cons, List.length_cons,
        List.length_nil] at htake
      omega
  · rintro ⟨hname, hencoding⟩
    rw [dropEncoding, if_neg hencoding]
    obtain hplain | rfl | rfl := hname
    · have htoken := getNextToken_plain hvalid hplain hboundary
      have hreads := reads_plain hvalid hnumber hplain hboundary
      rw [List.append_nil] at htoken hreads
      refine ⟨[], seekPast_ne_nil ?_, hreads, rfl⟩
      rw [htoken]
      exact hplain.1
    · refine ⟨[], by with_unfolding_all decide, ?_, rfl⟩
      have token : getNextToken (text ".") = (text ".", []) := by with_unfolding_all decide
      refine .atom token dot_ne_nil (by with_unfolding_all decide) (by with_unfolding_all decide) ?_
      rw [readAtom, hnumber]
      with_unfolding_all rfl
    · refine ⟨[], by with_unfolding_all decide, ?_, rfl⟩
      have token : getNextToken (text "#\\") = (text "#\\", []) := by with_unfolding_all decide
      refine .atom token (by with_unfolding_all decide) (by with_unfolding_all decide)
        (by with_unfolding_all decide) ?_
      rw [readAtom, hnumber]
      with_unfolding_all rfl

theorem datum_alone (P : Printing) (hd : IsDatum R d)
    (hsymbol : ∀ name, d ≠ .symbol name) :
    (∃ rest, seekPast .outer (dropEncoding (d.print P)) ≠ [] ∧
      Reads R .form (dropEncoding (d.print P)) d rest ∧ seekPast .outer rest = []) ↔
    Legible false d := by
  have hboundary : Boundary [] := nofun
  have htext : (d.prints P).1 ++ [] = d.print P := List.append_nil _
  have hencoding : dropEncoding (d.print P) = d.print P := by
    obtain ⟨c, w, hcw, hstart, -⟩ := prints_start P hd hsymbol
    have hbyte : (0xEF : UInt8) ∉ text "(\"#n-0123456789" := by with_unfolding_all decide
    rw [dropEncoding, if_neg]
    rw [Object.print, hcw]
    intro h
    obtain ⟨rfl, -⟩ := List.cons.inj h
    exact hbyte hstart
  have htoken := (prints_token P hd hsymbol []).2
  rw [htext] at htoken
  rw [hencoding]
  constructor
  · rintro ⟨rest, -, reads, -⟩
    by_contra hill
    refine (misread P hd).1 hill [] d rest hboundary ?_ (htext ▸ reads) rfl
    exact fun name h => absurd h (hsymbol name)
  · intro hlegible
    have hreads := (reads_legible P hd).1 hlegible [] hboundary
    exact ⟨[], seekPast_ne_nil htoken, htext ▸ hreads, rfl⟩

/-- A datum is read back from its printed text exactly if it is legible by itself. SRCLINE:
Object.cpp:1187-1367, Object.hpp:890-974, Reader.cpp:379-784 -/
theorem roundTrips_iff (R : ReaderEnvironment) (P : Printing) (C : Comparison) (d : Object)
    (hd : IsDatum R d) : RoundTrips R P C d ↔ LegibleAlone d := by
  rw [roundTrips_iff_reads hd]
  by_cases hsymbol : ∃ name, d = .symbol name
  · obtain ⟨name, rfl⟩ := hsymbol
    cases hd with
    | symbol valid number =>
      have hprint : (Object.symbol name).print P = name := by rw [Object.print, Object.prints]
      rw [hprint]
      exact symbol_alone valid number
  · have hother : ∀ name, d ≠ .symbol name := fun name h => hsymbol ⟨name, h⟩
    rw [datum_alone P hd hother]
    cases d with
    | symbol name => exact absurd rfl (hother name)
    | _ => exact Iff.rfl

/-- No floating-point number is read, and nothing lies before the table. -/
def plainEnvironment : ReaderEnvironment := ⟨fun _ => none, fun _ => false⟩

/-- Floating-point numbers and references have no text. -/
def plainPrinting : Printing := ⟨fun _ => [], fun _ => []⟩

/-- Floating-point numbers are compared by their bits. -/
def plainComparison : Comparison := ⟨fun x y => x == y, fun _ _ => .ok false⟩

/-- `(a 5)` is read back. -/
theorem roundTrips_iff_list : RoundTrips plainEnvironment plainPrinting plainComparison
    (.pair (.symbol (text "a")) (.pair (.int 5) .emptyList)) := by
  refine (roundTrips_iff plainEnvironment plainPrinting plainComparison _ ?_).mpr ?_
  · refine .pair (.symbol (by with_unfolding_all decide) ?_) (.pair (.int 5) .emptyList)
    with_unfolding_all rfl
  · have hplain : PlainSymbol (text "a") := by
      unfold PlainSymbol
      with_unfolding_all decide
    exact ⟨hplain, trivial, rfl⟩

/-- A newline is printed as `#\newline`, and that is read as a symbol. -/
theorem not_roundTrips : ¬∀ (R : ReaderEnvironment) (P : Printing) (C : Comparison) (d : Object),
    IsDatum R d → RoundTrips R P C d := by
  intro h
  obtain ⟨d', hread, hequal⟩ := h plainEnvironment plainPrinting plainComparison
    (.char (byte '\n')) (.char _)
  have hsymbol : readFromString plainEnvironment ((Object.char (byte '\n')).print plainPrinting) =
      .ok (.pair (.symbol (text "top-level")) (.ofList [.symbol (text "#\\newline")])) := by
    with_unfolding_all rfl
  rw [hsymbol] at hread
  cases hread
  cases hequal

end Soot.Analysis.Script
