import Soot.Computation.StateExcept
import Soot.Model.Script.Texts

/-!
# The reader reads what its relation says

A token that is not empty shortens the text; so reading needs at most two calls for each byte, and
with so many it gives what the relation `Reads` allows, which is at most one object.
-/

set_option autoImplicit false

namespace Soot.Analysis.Script

open Soot.Computation Soot.Program.Script Soot.Model.Script

-- The equations are made here once, before the proofs that all wait for them.
attribute [local grind =] readSingleForm readList readElement

variable {R : ReaderEnvironment} {n : ℕ} {s rest : Text} {afterDot : Option Object} {o : Object}

/-! ## Between tokens -/

theorem length_seekPast (k : Seek) (s : Text) : (seekPast k s).length ≤ s.length := by
  fun_induction seekPast k s with
  | case1 => exact Nat.le_refl _
  | case5 => exact Nat.le_refl _
  | _ => exact Nat.le_succ_of_le (by assumption)

theorem seekPast_stop {k : Seek} {s s' : Text} {c : UInt8} (h : seekPast k s = c :: s') :
    (c ≠ byte ' ' ∧ c ≠ byte '\t' ∧ c ≠ byte '\n' ∧ c ≠ byte '\r') ∧ c ≠ byte ';' ∧
      ¬(c = byte '#' ∧ s'.head? = some (byte '|')) := by
  fun_induction seekPast k s with
  | case1 => cases h
  | case5 d s hblank hline hblock =>
    rw [List.cons.injEq] at h
    obtain ⟨rfl, rfl⟩ := h
    simp only [not_or] at hblank
    exact ⟨hblank, hline, hblock⟩
  | _ => exact (by assumption : seekPast _ _ = _ → _) h

theorem seekPast_self {c : UInt8} {s : Text}
    (hblank : c ≠ byte ' ' ∧ c ≠ byte '\t' ∧ c ≠ byte '\n' ∧ c ≠ byte '\r')
    (hline : c ≠ byte ';') (hblock : ¬(c = byte '#' ∧ s.head? = some (byte '|'))) :
    seekPast .outer (c :: s) = c :: s := by
  rw [seekPast, if_neg (by simpa only [not_or] using hblank), if_neg hline, if_neg hblock]

theorem seekPast_seekPast (k : Seek) (s : Text) :
    seekPast .outer (seekPast k s) = seekPast k s := by
  cases h : seekPast k s with
  | nil => rfl
  | cons c s' =>
    obtain ⟨hblank, hline, hblock⟩ := seekPast_stop h
    exact seekPast_self hblank hline hblock

@[simp] theorem seekPast_space (s : Text) : seekPast .outer (byte ' ' :: s) = seekPast .outer s := by
  rw [seekPast, if_pos (.inl rfl)]

/-! ## Tokens -/

theorem getNextToken_seekPast (s : Text) : getNextToken (seekPast .outer s) = getNextToken s := by
  rw [getNextToken, seekPast_seekPast, getNextToken]

theorem tokenFrom_fst_ne_nil (first : UInt8) (s : Text) : (tokenFrom first s).1 ≠ [] := by
  unfold tokenFrom
  split_ifs <;> (try split) <;> simp

theorem length_tokenFrom (first : UInt8) (s : Text) : (tokenFrom first s).2.length ≤ s.length := by
  unfold tokenFrom
  split_ifs with hchar
  · split
    · exact Nat.zero_le _
    · next c s' htail =>
      have hdrop := (List.dropWhile_sublist (!endsCharName ·) (l := s')).length_le
      have hlen : s.tail.length = s'.length + 1 := by rw [htail, List.length_cons]
      rw [List.length_tail] at hlen
      exact Nat.le_trans hdrop (by omega)
  all_goals
    first
    | simp only [List.length_tail]; omega
    | exact Nat.le_refl _
    | exact (List.dropWhile_sublist _).length_le

theorem getNextToken_nil (h : getNextToken s = ([], rest)) :
    seekPast .outer s = [] ∧ rest = [] := by
  rw [getNextToken] at h
  split at h
  · next hs => exact ⟨hs, (Prod.mk.inj h).2.symm⟩
  · next first s' hs => exact absurd (congrArg Prod.fst h) (tokenFrom_fst_ne_nil first s')

theorem getNextToken_of_cons {s s' : Text} {first : UInt8} (h : seekPast .outer s = first :: s') :
    getNextToken s = tokenFrom first s' := by
  rw [getNextToken, h]

theorem getNextToken_cons {s tok rest : Text} (h : getNextToken s = (tok, rest)) (hne : tok ≠ []) :
    ∃ first s', seekPast .outer s = first :: s' ∧ tokenFrom first s' = (tok, rest) := by
  rw [getNextToken] at h
  split at h
  · exact absurd (Prod.mk.inj h).1.symm hne
  · next first s' hs => exact ⟨first, s', hs, h⟩

theorem length_getNextToken {s tok rest : Text} (h : getNextToken s = (tok, rest)) (hne : tok ≠ []) :
    rest.length < s.length := by
  obtain ⟨first, s', hs, htok⟩ := getNextToken_cons h hne
  have hseek := length_seekPast .outer s
  have hrest := length_tokenFrom first s'
  rw [htok] at hrest
  rw [hs, List.length_cons] at hseek
  exact Nat.lt_of_le_of_lt hrest hseek

/-- A token ends before an opening parenthesis: no token starts an array. -/
theorem getNextToken_not_array {s tok rest : Text} (h : getNextToken s = (tok, rest)) :
    tok.take 2 ≠ text "#(" := by
  have hopens : endsToken (byte '(') = true := by decide
  have hliteral : text "#(" = [byte '#', byte '('] := by with_unfolding_all decide
  intro htake
  have hne : tok ≠ [] := by
    rintro rfl
    exact absurd (congrArg List.length htake) (by with_unfolding_all decide)
  obtain ⟨first, s', -, htok⟩ := getNextToken_cons h hne
  rw [hliteral] at htake
  unfold tokenFrom at htok
  split_ifs at htok with hchar hat hstructural hreplaced
  · split at htok <;> obtain ⟨rfl, -⟩ := Prod.mk.inj htok <;>
      exact absurd (List.cons.inj (List.cons.inj htake).2).1 (by decide)
  · obtain ⟨rfl, -⟩ := Prod.mk.inj htok
    exact absurd (List.cons.inj (List.cons.inj htake).2).1 (by decide)
  · obtain ⟨rfl, -⟩ := Prod.mk.inj htok
    exact absurd (List.cons.inj htake).2 (by simp)
  · obtain ⟨rfl, -⟩ := Prod.mk.inj htok
    exact absurd (List.cons.inj htake).2 (by simp)
  · obtain ⟨rfl, -⟩ := Prod.mk.inj htok
    have hmem : byte '(' ∈ s'.takeWhile (!endsToken ·) := by
      refine List.mem_of_mem_take (i := 1) ?_
      rw [(List.cons.inj htake).2]
      exact List.mem_singleton_self _
    have hends := List.mem_takeWhile_imp hmem
    rw [hopens] at hends
    cases hends

theorem readObject_eq (R : ReaderEnvironment) (n : ℕ) {tok : Text} (s : Text)
    (h : tok.take 2 ≠ text "#(") : readObject R (n + 1) tok s = readAtom R tok s := by
  simp only [readObject, if_neg h]
  rfl

/-! ## Soundness -/

theorem macro_ne_nil {tok replacement : Text} (h : readerMacro tok = some replacement) :
    tok ≠ [] := by
  rintro rfl
  exact Option.some_ne_none _ (h.symm.trans (by with_unfolding_all decide))

theorem dot_ne_nil : text "." ≠ [] := by with_unfolding_all decide

theorem terminatorOf_eq_some {tok terminator : Text} (h : terminatorOf tok = some terminator) :
    tok = text "(" ∧ terminator = text ")" ∨ tok = text "[" ∧ terminator = text "]" := by
  unfold terminatorOf at h
  split_ifs at h with hround hsquare
  · exact .inl ⟨hround, (Option.some.inj h).symm⟩
  · exact .inr ⟨hsquare, (Option.some.inj h).symm⟩

theorem opening_ne_nil {tok terminator : Text} (h : terminatorOf tok = some terminator) :
    tok ≠ [] := by
  obtain ⟨rfl, -⟩ | ⟨rfl, -⟩ := terminatorOf_eq_some h <;> with_unfolding_all decide

/-- A list that is opened is read with one call less, by `read_single_form` or by
`read_list` itself. -/
theorem readSingleForm_list {s tok rest terminator : Text}
    (token : getNextToken s = (tok, rest)) (opens : terminatorOf tok = some terminator) :
    readSingleForm R (n + 1) s = readList R n terminator [] false none rest := by
  have hround : readerMacro (text "(") = none := by with_unfolding_all decide
  have hsquare : readerMacro (text "[") = none := by with_unfolding_all decide
  have hdistinct : text "[" ≠ text "(" := by with_unfolding_all decide
  rw [readSingleForm, token]
  obtain ⟨rfl, rfl⟩ | ⟨rfl, rfl⟩ := terminatorOf_eq_some opens
  · split
    · next h => exact absurd (Prod.mk.inj h).1 (by with_unfolding_all decide)
    · next h =>
      obtain ⟨rfl, rfl⟩ := Prod.mk.inj h
      rw [hround]
      exact if_pos rfl
  · split
    · next h => exact absurd (Prod.mk.inj h).1 (by with_unfolding_all decide)
    · next h =>
      obtain ⟨rfl, rfl⟩ := Prod.mk.inj h
      rw [hsquare]
      exact (if_neg hdistinct).trans (if_pos rfl)

theorem readSingleForm_quotation {s tok rest replacement : Text}
    (token : getNextToken s = (tok, rest)) (replaced : readerMacro tok = some replacement) :
    readSingleForm R (n + 1) s = (readSingleForm R n rest).map fun (inner, rest) =>
      (.ofList [.symbol replacement, inner], rest) := by
  have hne := macro_ne_nil replaced
  rw [readSingleForm, token]
  split
  · next h => exact absurd (congrArg Prod.fst h) hne
  · next h =>
    obtain ⟨rfl, rfl⟩ := Prod.mk.inj h
    rw [replaced]
    rfl

theorem readSingleForm_atom {s tok rest : Text}
    (token : getNextToken s = (tok, rest)) (nonempty : tok ≠ []) (kept : readerMacro tok = none)
    (closed : terminatorOf tok = none) :
    readSingleForm R (n + 2) s = (readAtom R tok rest).map (·.getD (.emptyList, rest)) := by
  rw [readSingleForm, token]
  split
  · next h => exact absurd (congrArg Prod.fst h) nonempty
  · next h =>
    obtain ⟨rfl, rfl⟩ := Prod.mk.inj h
    unfold terminatorOf at closed
    split_ifs at closed with hround hsquare
    simp only [kept, if_neg hround, if_neg hsquare,
      readObject_eq R n rest (getNextToken_not_array token)]
    cases readAtom R tok rest with
    | error => rfl
    | ok result => cases result <;> rfl

theorem readSingleForm_nothing
    (token : getNextToken s = ([], rest)) :
    readSingleForm R (n + 1) s = .ok (.emptyList, rest) := by
  rw [readSingleForm, token]

theorem readList_next {terminator s tok rest : Text}
    {pairs : List Object} {gotDot : Bool}
    (token : getNextToken s = (tok, rest)) (nonempty : tok ≠ []) :
    readList R (n + 1) terminator pairs gotDot afterDot s =
      if tok = terminator then .ok (.ofListWith (afterDot.getD .emptyList) pairs, rest)
      else if tok = text "." then
        if gotDot then .error (.message (text "Multiple dots in list"))
        else if pairs = [] then .error (.message (text "List cannot start with dot"))
        else readList R n terminator pairs true afterDot rest
      else readElement R n tok rest s >>= fun (o, rest) =>
        if gotDot then
          if afterDot.isSome then .error (.message (text "Only one object allowed after dot"))
          else readList R n terminator pairs true (some o) rest
        else readList R n terminator (pairs ++ [o]) false none rest := by
  rw [readList, token]
  split
  · next h => exact absurd (Prod.mk.inj h).1 nonempty
  · next h =>
    obtain ⟨rfl, rfl⟩ := Prod.mk.inj h
    by_cases hround : tok = text "("
    · simp only [readElement, terminatorOf, if_pos hround]
      cases readList R n (text ")") [] false none rest <;> cases gotDot <;> cases afterDot <;> rfl
    · by_cases hsquare : tok = text "["
      · simp only [readElement, terminatorOf, if_neg hround, if_pos hsquare]
        cases readList R n (text "]") [] false none rest <;> cases gotDot <;> cases afterDot <;>
          rfl
      · simp only [readElement, terminatorOf, if_neg hround, if_neg hsquare]
        cases readSingleForm R n s <;> cases gotDot <;> cases afterDot <;> rfl

theorem readSingleForm_reads
    (forms : ∀ m < n, ∀ {s rest o}, readSingleForm R m s = .ok (o, rest) → Reads R .form s o rest)
    (lists : ∀ m < n, ∀ {terminator s rest o},
      readList R m terminator [] false none s = .ok (o, rest) →
        Reads R (.list terminator [] false none) s o rest)
    (h : readSingleForm R n s = .ok (o, rest)) : Reads R .form s o rest := by
  obtain _ | n := n
  · cases h
  rcases htok : getNextToken s with ⟨tok, rest₁⟩
  by_cases hnil : tok = []
  · subst hnil
    rw [readSingleForm_nothing htok] at h
    obtain ⟨rfl, rfl⟩ := Prod.mk.inj (Except.ok.inj h)
    exact .nothing htok
  cases hreplaced : readerMacro tok with
  | some replacement =>
    rw [readSingleForm_quotation htok hreplaced] at h
    cases hinner : readSingleForm R n rest₁ with
    | error => rw [hinner] at h; cases h
    | ok result =>
      rw [hinner] at h
      obtain ⟨rfl, rfl⟩ := Prod.mk.inj (Except.ok.inj h)
      exact .quotation htok hreplaced (forms n n.lt_succ_self hinner)
  | none =>
    cases hopens : terminatorOf tok with
    | some terminator =>
      rw [readSingleForm_list htok hopens] at h
      exact .list htok hopens (lists n n.lt_succ_self h)
    | none =>
      obtain _ | n := n
      · rw [readSingleForm, htok] at h
        unfold terminatorOf at hopens
        split_ifs at hopens with hround hsquare
        split at h
        · next hnone => exact absurd (Prod.mk.inj hnone).1 hnil
        · next htok' =>
          obtain ⟨rfl, rfl⟩ := Prod.mk.inj htok'
          simp only [hreplaced, if_neg hround, if_neg hsquare] at h
          cases h
      rw [readSingleForm_atom htok hnil hreplaced hopens] at h
      cases hread : readAtom R tok rest₁ with
      | error => rw [hread] at h; cases h
      | ok result =>
        rw [hread] at h
        cases result with
        | none =>
          obtain ⟨rfl, rfl⟩ := Prod.mk.inj (Except.ok.inj h)
          exact .invalid htok hnil hreplaced hopens hread
        | some result =>
          obtain ⟨rfl, rfl⟩ := Prod.mk.inj (Except.ok.inj h)
          exact .atom htok hnil hreplaced hopens hread

theorem readList_nil {terminator s rest : Text}
    {pairs : List Object} {gotDot : Bool}
    (token : getNextToken s = ([], rest)) :
    readList R (n + 1) terminator pairs gotDot afterDot s =
      .error (.message (text "Unclosed list: expected '" ++ terminator ++ text "'")) := by
  rw [readList, token]

theorem readList_reads {terminator s rest : Text}
    {pairs : List Object} {gotDot : Bool}
    (forms : ∀ m < n, ∀ {s rest o}, readSingleForm R m s = .ok (o, rest) → Reads R .form s o rest)
    (lists : ∀ m < n, ∀ {terminator pairs gotDot afterDot s rest o},
      readList R m terminator pairs gotDot afterDot s = .ok (o, rest) →
        Reads R (.list terminator pairs gotDot afterDot) s o rest)
    (h : readList R n terminator pairs gotDot afterDot s = .ok (o, rest)) :
    Reads R (.list terminator pairs gotDot afterDot) s o rest := by
  obtain _ | n := n
  · cases h
  have hlast := n.lt_succ_self
  rcases htok : getNextToken s with ⟨tok, rest₁⟩
  by_cases hnil : tok = []
  · subst hnil
    rw [readList_nil htok] at h
    cases h
  rw [readList_next htok hnil] at h
  by_cases hend : tok = terminator
  · subst hend
    rw [if_pos rfl] at h
    obtain ⟨rfl, rfl⟩ := Prod.mk.inj (Except.ok.inj h)
    exact .terminator htok hnil
  rw [if_neg hend] at h
  by_cases hdot : tok = text "."
  · subst hdot
    rw [if_pos rfl] at h
    split_ifs at h with hgot hpairs
    rw [Bool.not_eq_true] at hgot
    subst hgot
    exact .dot htok (Ne.symm hend) hpairs (lists n hlast h)
  -- the element is read by one of two functions, and as a form either way
  rw [if_neg hdot] at h
  obtain ⟨⟨element, rest₂⟩, helement, hmore⟩ := except_bind_eq_ok.mp h
  have hform : Reads R .form s element rest₂ := by
    cases hopens : terminatorOf tok with
    | some closing =>
      simp only [readElement, hopens] at helement
      exact .list htok hopens (lists n hlast helement)
    | none =>
      simp only [readElement, hopens] at helement
      exact forms n hlast helement
  cases gotDot with
  | false => exact .element htok hnil hend hdot hform (lists n hlast hmore)
  | true =>
    cases afterDot with
    | some _ => cases hmore
    | none => exact .tail htok hnil hend hdot hform (lists n hlast hmore)

theorem reads_of_read {p : Pending}
    (h : p.read R n s = .ok (o, rest)) : Reads R p s o rest := by
  induction n using Nat.strong_induction_on generalizing p s rest o with
  | _ n ih =>
    cases p with
    | form =>
      exact readSingleForm_reads (fun m hm _ _ _ => ih m hm (p := .form))
        (fun m hm terminator _ _ _ => ih m hm (p := .list terminator [] false none)) h
    | list =>
      exact readList_reads (fun m hm _ _ _ => ih m hm (p := .form))
        (fun m hm terminator pairs gotDot afterDot _ _ _ =>
          ih m hm (p := .list terminator pairs gotDot afterDot)) h

/-! ## Completeness and termination -/

theorem map_push_eq {x : Except Text (Option (Text × Text))} {c : UInt8} {str rest : Text}
    (h : x.map (·.map fun (str, rest) => (c :: str, rest)) = .ok (some (str, rest))) :
    ∃ str', x = .ok (some (str', rest)) ∧ str = c :: str' := by
  cases x with
  | error => cases h
  | ok x =>
    cases x with
    | none => cases h
    | some x =>
      obtain ⟨rfl, rfl⟩ := Prod.mk.inj (Option.some.inj (Except.ok.inj h))
      exact ⟨x.1, rfl, rfl⟩

theorem readString_reads {s str rest : Text} (h : readString s = .ok (some (str, rest))) :
    ReadsString s str rest := by
  fun_induction readString s generalizing str with
  | case1 => cases h
  | case2 s =>
    cases h
    exact .close
  | case3 => cases h
  | case4 =>
    rename_i ih
    obtain ⟨str', h', rfl⟩ := map_push_eq h
    exact .escape .newline (ih h')
  | case5 =>
    rename_i ih
    obtain ⟨str', h', rfl⟩ := map_push_eq h
    exact .escape .tab (ih h')
  | case6 =>
    rename_i ih
    obtain ⟨str', h', rfl⟩ := map_push_eq h
    exact .escape .backslash (ih h')
  | case7 =>
    rename_i ih
    obtain ⟨str', h', rfl⟩ := map_push_eq h
    exact .escape .quote (ih h')
  | case9 =>
    rename_i _ _ _ _ _ _ second first _ _ _ _ _ ih
    obtain ⟨str', h', rfl⟩ := map_push_eq h
    exact .escape (.code first second) (ih h')
  | case13 =>
    rename_i ih
    obtain ⟨str', h', rfl⟩ := map_push_eq h
    exact .plain ‹_› ‹_› (ih h')
  | _ => cases h

theorem length_readString {s str rest : Text} (h : ReadsString s str rest) :
    rest.length < s.length ∧ str.length < s.length := by
  induction h with
  | close => simp
  | plain _ _ _ ih =>
    simp only [List.length_cons]
    omega
  | escape =>
    simp only [List.length_cons, List.length_append]
    omega

theorem length_readAtom {tok s rest : Text}
    (h : readAtom R tok s = .ok (some (o, rest))) : rest.length ≤ s.length := by
  unfold readAtom at h
  simp only at h
  split at h
  · cases h
  · cases h
    exact Nat.le_refl _
  split_ifs at h
  · split at h
    · cases h
    · next hstring =>
      cases h
      exact Nat.le_of_lt (length_readString (readString_reads hstring)).1
    · cases h
  · split at h
    · cases h
      exact Nat.le_refl _
    · obtain ⟨o', -, heq⟩ := Option.map_eq_some_iff.mp (Except.ok.inj h)
      cases heq
      exact Nat.le_refl _

theorem readAtom_finishes {tok s : Text} :
    readAtom R tok s ≠ .error .unfinished := by
  unfold readAtom
  simp only
  split
  · exact fun h => by cases h
  · exact fun h => by cases h
  split_ifs
  · exact fun h => by cases h
  · split <;> exact fun h => by cases h
  · split <;> exact fun h => by cases h

theorem length_reads {p : Pending}
    (h : Reads R p s o rest) : rest.length ≤ s.length := by
  induction h with
  | nothing token =>
    rw [(getNextToken_nil token).2]
    exact Nat.zero_le _
  | quotation token replaced _ ih =>
    exact Nat.le_trans ih (Nat.le_of_lt (length_getNextToken token (macro_ne_nil replaced)))
  | list token opens _ ih =>
    exact Nat.le_trans ih (Nat.le_of_lt (length_getNextToken token (opening_ne_nil opens)))
  | atom token nonempty _ _ read =>
    exact Nat.le_trans (length_readAtom read) (Nat.le_of_lt (length_getNextToken token nonempty))
  | invalid token nonempty => exact Nat.le_of_lt (length_getNextToken token nonempty)
  | terminator token nonempty => exact Nat.le_of_lt (length_getNextToken token nonempty)
  | dot token _ _ _ ih =>
    exact Nat.le_trans ih (Nat.le_of_lt (length_getNextToken token dot_ne_nil))
  | element _ _ _ _ _ _ ih₁ ih₂ => exact Nat.le_trans ih₂ ih₁
  | tail _ _ _ _ _ _ ih₁ ih₂ => exact Nat.le_trans ih₂ ih₁

theorem length_reads_form
    (h : Reads R .form s o rest) (hne : (getNextToken s).1 ≠ []) : rest.length < s.length := by
  cases h with
  | nothing token => rw [token] at hne; exact absurd rfl hne
  | quotation token replaced reads =>
    exact Nat.lt_of_le_of_lt (length_reads reads)
      (length_getNextToken token (macro_ne_nil replaced))
  | list token opens reads =>
    exact Nat.lt_of_le_of_lt (length_reads reads)
      (length_getNextToken token (opening_ne_nil opens))
  | atom token nonempty _ _ read =>
    exact Nat.lt_of_le_of_lt (length_readAtom read) (length_getNextToken token nonempty)
  | invalid token nonempty => exact length_getNextToken token nonempty

/-- What the form reader gives for every number of calls from one on, the reader of an
element gives. -/
theorem readElement_property {s tok rest : Text}
    {P : Except ReadError (Object × Text) → Prop} (token : getNextToken s = (tok, rest))
    (h : ∀ m, n ≤ m → P (readSingleForm R m s)) : P (readElement R n tok rest s) := by
  cases hopens : terminatorOf tok with
  | some terminator =>
    have hlist := h (n + 1) n.le_succ
    rw [readSingleForm_list token hopens] at hlist
    simpa only [readElement, hopens] using hlist
  | none => simpa only [readElement, hopens] using h n (Nat.le_refl n)

/-- With two calls for each byte, what the relation allows is read. -/
theorem read_of_reads {p : Pending}
    (h : Reads R p s o rest) (hn : p.calls s ≤ n) : p.read R n s = .ok (o, rest) := by
  induction h generalizing n with
  | nothing token =>
    simp only [Pending.calls] at hn
    obtain ⟨n, rfl⟩ : ∃ m, n = m + 1 := ⟨n - 1, by omega⟩
    exact readSingleForm_nothing token
  | quotation token replaced _ ih =>
    have hlen := length_getNextToken token (macro_ne_nil replaced)
    simp only [Pending.calls] at hn ih
    obtain ⟨n, rfl⟩ : ∃ m, n = m + 1 := ⟨n - 1, by omega⟩
    have hinner := ih (n := n) (by omega)
    simp only [Pending.read] at hinner ⊢
    rw [readSingleForm_quotation token replaced, hinner]
    rfl
  | list token opens _ ih =>
    have hlen := length_getNextToken token (opening_ne_nil opens)
    simp only [Pending.calls] at hn ih
    obtain ⟨n, rfl⟩ : ∃ m, n = m + 1 := ⟨n - 1, by omega⟩
    exact (readSingleForm_list token opens).trans (ih (by omega))
  | atom token nonempty kept closed read =>
    have hlen := length_getNextToken token nonempty
    simp only [Pending.calls] at hn
    obtain ⟨n, rfl⟩ : ∃ m, n = m + 2 := ⟨n - 2, by omega⟩
    simp only [Pending.read]
    rw [readSingleForm_atom token nonempty kept closed, read]
    rfl
  | invalid token nonempty kept closed read =>
    have hlen := length_getNextToken token nonempty
    simp only [Pending.calls] at hn
    obtain ⟨n, rfl⟩ : ∃ m, n = m + 2 := ⟨n - 2, by omega⟩
    simp only [Pending.read]
    rw [readSingleForm_atom token nonempty kept closed, read]
    rfl
  | terminator token nonempty =>
    simp only [Pending.calls] at hn
    obtain ⟨n, rfl⟩ : ∃ m, n = m + 1 := ⟨n - 1, by omega⟩
    simp only [Pending.read]
    rw [readList_next token nonempty, if_pos rfl]
  | dot token other nonempty _ ih =>
    have hlen := length_getNextToken token dot_ne_nil
    simp only [Pending.calls] at hn ih
    obtain ⟨n, rfl⟩ : ∃ m, n = m + 1 := ⟨n - 1, by omega⟩
    simp only [Pending.read]
    rw [readList_next token dot_ne_nil, if_neg (Ne.symm other), if_pos rfl,
      if_neg Bool.false_ne_true, if_neg nonempty]
    exact ih (by omega)
  | element token nonempty other undotted reads _ ih₁ ih₂ =>
    have hlen := length_reads_form reads (by rw [token]; exact nonempty)
    simp only [Pending.calls] at hn ih₁ ih₂
    obtain ⟨n, rfl⟩ : ∃ m, n = m + 1 := ⟨n - 1, by omega⟩
    have helement := readElement_property (n := n) (P := (· = _)) token fun m hm =>
      ih₁ (n := m) (by omega)
    simp only [Pending.read]
    rw [readList_next token nonempty, if_neg other, if_neg undotted, helement]
    exact ih₂ (by omega)
  | tail token nonempty other undotted reads _ ih₁ ih₂ =>
    have hlen := length_reads_form reads (by rw [token]; exact nonempty)
    simp only [Pending.calls] at hn ih₁ ih₂
    obtain ⟨n, rfl⟩ : ∃ m, n = m + 1 := ⟨n - 1, by omega⟩
    have helement := readElement_property (n := n) (P := (· = _)) token fun m hm =>
      ih₁ (n := m) (by omega)
    simp only [Pending.read]
    rw [readList_next token nonempty, if_neg other, if_neg undotted, helement]
    exact ih₂ (by omega)

theorem reads_unique {p : Pending} {s rest rest' : Text} {o o' : Object}
    (h : Reads R p s o rest) (h' : Reads R p s o' rest') : o' = o ∧ rest' = rest := by
  have heq := (read_of_reads h' (Nat.le_refl _)).symm.trans (read_of_reads h (Nat.le_refl _))
  obtain ⟨rfl, rfl⟩ := Prod.mk.inj (Except.ok.inj heq)
  exact ⟨rfl, rfl⟩

theorem readSingleForm_finishes {s : Text}
    (forms : ∀ {s}, 2 * s.length + 1 ≤ n → readSingleForm R n s ≠ .error .unfinished)
    (lists : ∀ {terminator s}, 2 * s.length + 2 ≤ n →
      readList R n terminator [] false none s ≠ .error .unfinished)
    (hn : 2 * s.length + 1 ≤ n + 1) : readSingleForm R (n + 1) s ≠ .error .unfinished := by
  rcases htok : getNextToken s with ⟨tok, rest⟩
  by_cases hnil : tok = []
  · subst hnil
    rw [readSingleForm_nothing htok]
    exact fun h => by cases h
  have hlen := length_getNextToken htok hnil
  cases hreplaced : readerMacro tok with
  | some replacement =>
    have hinner := forms (s := rest) (by omega)
    rw [readSingleForm_quotation htok hreplaced]
    cases hresult : readSingleForm R n rest with
    | error e =>
      intro h
      cases h
      exact hinner hresult
    | ok => exact fun h => by cases h
  | none =>
    cases hopens : terminatorOf tok with
    | some terminator =>
      rw [readSingleForm_list htok hopens]
      exact lists (by omega)
    | none =>
      obtain ⟨n, rfl⟩ : ∃ m, n = m + 1 := ⟨n - 1, by omega⟩
      rw [readSingleForm_atom htok hnil hreplaced hopens]
      cases hread : readAtom R tok rest with
      | error e =>
        intro h
        cases h
        exact readAtom_finishes hread
      | ok => exact fun h => by cases h

theorem readList_finishes {terminator s : Text}
    {pairs : List Object} {gotDot : Bool}
    (forms : ∀ {s}, 2 * s.length + 1 ≤ n → readSingleForm R n s ≠ .error .unfinished)
    (lists : ∀ {terminator pairs gotDot afterDot s}, 2 * s.length + 2 ≤ n →
      readList R n terminator pairs gotDot afterDot s ≠ .error .unfinished)
    (hn : 2 * s.length + 2 ≤ n + 1) :
    readList R (n + 1) terminator pairs gotDot afterDot s ≠ .error .unfinished := by
  rcases htok : getNextToken s with ⟨tok, rest⟩
  by_cases hnil : tok = []
  · subst hnil
    rw [readList_nil htok]
    exact fun h => by cases h
  have hlen := length_getNextToken htok hnil
  rw [readList_next htok hnil]
  by_cases hend : tok = terminator
  · rw [if_pos hend]
    exact fun h => by cases h
  rw [if_neg hend]
  by_cases hdot : tok = text "."
  · rw [if_pos hdot]
    split_ifs
    · exact fun h => by cases h
    · exact fun h => by cases h
    · exact lists (by omega)
  rw [if_neg hdot]
  have hfinishes : readElement R n tok rest s ≠ .error .unfinished := by
    unfold readElement
    split
    · exact lists (by omega)
    · exact forms (by omega)
  cases helement : readElement R n tok rest s with
  | error e =>
    intro h
    cases h
    exact hfinishes helement
  | ok result =>
    obtain ⟨o, rest₁⟩ := result
    have hshort : rest₁.length < s.length := by
      unfold readElement at helement
      split at helement
      · next hopens =>
        have hlist := length_reads (reads_of_read (p := .list _ _ _ _) helement)
        omega
      · exact length_reads_form (reads_of_read (p := .form) helement) (by rw [htok]; exact hnil)
    show (if gotDot then _ else _) ≠ _
    split_ifs
    · exact fun h => by cases h
    · exact lists (by omega)
    · exact lists (by omega)

theorem read_finishes {p : Pending} {s : Text}
    (hn : p.calls s ≤ n) : p.read R n s ≠ .error .unfinished := by
  induction n generalizing p s with
  | zero => cases p <;> simp [Pending.calls] at hn
  | succ n ih =>
    cases p with
    | form =>
      exact readSingleForm_finishes (ih (p := .form))
        (fun {terminator _} => ih (p := .list terminator [] false none)) hn
    | list =>
      exact readList_finishes (ih (p := .form))
        (fun {terminator pairs gotDot afterDot _} =>
          ih (p := .list terminator pairs gotDot afterDot)) hn

/-! ## Forms -/

theorem reads_seekPast :
    Reads R .form (seekPast .outer s) o rest ↔ Reads R .form s o rest := by
  have htoken := getNextToken_seekPast s
  constructor
  all_goals
    intro h
    cases h with
    | nothing token => exact .nothing (by simpa only [htoken] using token)
    | quotation token => exact .quotation (by simpa only [htoken] using token) ‹_› ‹_›
    | list token => exact .list (by simpa only [htoken] using token) ‹_› ‹_›
    | atom token => exact .atom (by simpa only [htoken] using token) ‹_› ‹_› ‹_› ‹_›
    | invalid token => exact .invalid (by simpa only [htoken] using token) ‹_› ‹_› ‹_› ‹_›

theorem getNextToken_fst_ne_nil {s : Text} (h : seekPast .outer s ≠ []) :
    (getNextToken s).1 ≠ [] := by
  intro htok
  have token : getNextToken s = ([], (getNextToken s).2) := Prod.ext htok rfl
  exact h (getNextToken_nil token).1

theorem readForms_iff {s : Text} (hn : 2 * s.length + 2 ≤ n)
    {forms : List Object} : readForms R n s = .ok forms ↔ ReadsForms R s forms := by
  induction n generalizing s forms with
  | zero => omega
  | succ n ih =>
    rw [readForms]
    split
    · next hends =>
      constructor
      · intro h
        cases h
        exact .done hends
      · intro h
        cases h with
        | done => rfl
        | form remains => exact absurd hends remains
    · next c s' hseek =>
      have hlen := length_seekPast .outer s
      rw [hseek, List.length_cons] at hlen
      have hremains : seekPast .outer s ≠ [] := by rw [hseek]; exact List.cons_ne_nil _ _
      constructor
      · intro h
        obtain ⟨⟨o, rest⟩, hform, h⟩ := except_bind_eq_ok.mp h
        obtain ⟨forms', hforms, h⟩ := except_bind_eq_ok.mp h
        cases h
        have hreads := reads_of_read (p := .form) hform
        rw [← hseek, reads_seekPast] at hreads
        have hshort := length_reads_form hreads (getNextToken_fst_ne_nil hremains)
        exact .form hremains hreads ((ih (by omega)).mp hforms)
      · intro h
        cases h with
        | done ends => exact absurd ends hremains
        | form _ reads more =>
          have hshort := length_reads_form reads (getNextToken_fst_ne_nil hremains)
          rw [← reads_seekPast, hseek] at reads
          have hform := read_of_reads reads (n := n) (by
            simp only [Pending.calls, List.length_cons]
            omega)
          simp only [Pending.read] at hform
          rw [hform]
          show (readForms R n _ >>= _) = _
          rw [(ih (by omega)).mpr more]
          rfl

theorem readForms_finishes {s : Text}
    (hn : 2 * s.length + 2 ≤ n) : readForms R n s ≠ .error .unfinished := by
  induction n generalizing s with
  | zero => omega
  | succ n ih =>
    rw [readForms]
    split
    · exact fun h => by cases h
    · next c s' hseek =>
      have hlen := length_seekPast .outer s
      rw [hseek, List.length_cons] at hlen
      cases hform : readSingleForm R n (c :: s') with
      | error e =>
        intro h
        cases h
        exact read_finishes (p := .form) (by
          simp only [Pending.calls, List.length_cons]
          omega) hform
      | ok result =>
        obtain ⟨o, rest⟩ := result
        have hreads := reads_of_read (p := .form) hform
        rw [← hseek, reads_seekPast] at hreads
        have hremains : seekPast .outer s ≠ [] := by rw [hseek]; exact List.cons_ne_nil _ _
        have hshort := length_reads_form hreads (getNextToken_fst_ne_nil hremains)
        show (readForms R n rest >>= _) ≠ _
        cases hforms : readForms R n rest with
        | error e =>
          intro h
          cases h
          exact ih (by omega) hforms
        | ok => exact fun h => by cases h

theorem readsForms_seekPast {s : Text} {forms : List Object} :
    ReadsForms R (seekPast .outer s) forms ↔ ReadsForms R s forms := by
  have hseek := seekPast_seekPast .outer s
  constructor
  all_goals
    intro h
    cases h with
    | done ends => exact .done (by simpa only [hseek] using ends)
    | form remains reads more =>
      exact .form (by simpa only [hseek] using remains)
        (by simpa only [reads_seekPast] using reads) more

/-- `read_from_string` returns the forms that the relation allows. -/
theorem readFromString_iff {str : Text} {forms : List Object} :
    readFromString R str = .ok (.pair (.symbol (text "top-level")) (.ofList forms)) ↔
      ReadsForms R (dropEncoding str) forms := by
  have hlen := length_seekPast .outer (dropEncoding str)
  have hforms : readForms R (2 * (dropEncoding str).length + 2)
      (seekPast .outer (dropEncoding str)) = .ok forms ↔
      ReadsForms R (seekPast .outer (dropEncoding str)) forms := readForms_iff (by omega)
  rw [readsForms_seekPast] at hforms
  rw [← hforms, readFromString]
  cases readForms R _ (seekPast .outer (dropEncoding str)) with
  | error =>
    constructor <;>
    · intro h
      cases h
  | ok forms' =>
    constructor
    · intro h
      have hlist := congrArg Object.elements (Object.pair.inj (Except.ok.inj h)).2
      simp only [Object.elements_ofList] at hlist
      rw [hlist]
    · intro h
      cases h
      rfl

theorem readFromString_finishes (R : ReaderEnvironment) (str : Text) :
    readFromString R str ≠ .error .unfinished := by
  have hlen := length_seekPast .outer (dropEncoding str)
  have hfinishes := readForms_finishes (R := R) (n := 2 * (dropEncoding str).length + 2)
    (s := seekPast .outer (dropEncoding str)) (by omega)
  rw [readFromString]
  cases hforms : readForms R _ (seekPast .outer (dropEncoding str)) with
  | error e =>
    intro h
    cases h
    exact hfinishes hforms
  | ok => exact fun h => by cases h

end Soot.Analysis.Script
