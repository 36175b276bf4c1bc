import Soot.Model.Script.Evaluation

/-!
# Quasiquotation fills templates

The loop over a template evaluates what is unquoted among its elements, from left to right, and
collects the elements of the template filled with the values. It never looks at a tail or at the
whole template, so quasiquotation fills exactly the templates that unquote elements only.
-/

set_option autoImplicit false

namespace Soot.Analysis.Script

open Soot.Computation Soot.Computation.StatefulExcept Soot.Program.Script Soot.Model.Script

variable {P : Printing} {ev : Evaluator} {env : ℕ} {w w' : World}

/-! ## Evaluation in order -/

theorem mapM_append_ok {α : Type} {f : α → Eval Object} (as : List α) {bs : List α} {values : List Object}
    (h : ((as ++ bs).mapM f).runFrom w = (.ok values, w')) :
    ∃ u, (as.mapM f).runFrom w = (.ok (values.take as.length), u) ∧
      (bs.mapM f).runFrom u = (.ok (values.drop as.length), w') := by
  induction as generalizing w values with
  | nil => exact ⟨w, rfl, h⟩
  | cons a as ih =>
    rw [List.cons_append, List.mapM_cons, runFrom_bind] at h
    cases ha : (f a).runFrom w with
    | mk result u =>
      cases result with
      | error e =>
        rw [ha] at h
        cases h
      | ok value =>
        rw [ha] at h
        simp only [runFrom_bind] at h
        cases htail : ((as ++ bs).mapM f).runFrom u with
        | mk result u' =>
          cases result with
          | error e =>
            rw [htail] at h
            cases h
          | ok tail =>
            rw [htail] at h
            cases h
            obtain ⟨v, has, hbs⟩ := ih htail
            refine ⟨v, ?_, hbs⟩
            rw [List.mapM_cons, runFrom_bind, ha]
            simp only [runFrom_bind, has]
            rfl

theorem mapM_singleton_ok {α : Type} {f : α → Eval Object} {a : α} {values : List Object}
    (h : ([a].mapM f).runFrom w = (.ok values, w')) :
    ∃ value, (f a).runFrom w = (.ok value, w') ∧ values = [value] := by
  rw [List.mapM_cons, runFrom_bind] at h
  cases ha : (f a).runFrom w with
  | mk result u =>
    rw [ha] at h
    cases result with
    | error e => cases h
    | ok value =>
      cases h
      exact ⟨value, rfl, rfl⟩

/-! ## Elements -/

theorem unquoted_eq_some {o : Object} {spliced : Bool} {e : Object}
    (h : unquoted o = some (spliced, e)) :
    o = .pair (.symbol (if spliced then text "unquote-splicing" else text "unquote"))
      (.pair e .emptyList) := by
  unfold unquoted at h
  split at h
  · split_ifs at h with hunquote hsplicing
    · cases h
      rw [hunquote]
      rfl
    · cases h
      rw [hsplicing]
      rfl
  · cases h

theorem embedded_of_unquoted {o : Object} {x : Bool × Object} (h : unquoted o = some x) :
    embedded o = [x] := by
  cases o with
  | pair car cdr => rw [embedded, h]
  | _ => cases h

theorem fill_of_unquoted {o : Object} {x : Bool × Object} (h : unquoted o = some x)
    (values : List Object) : fill o values = values.headD .none := by
  cases o with
  | pair car cdr => rw [fill, h]
  | _ => cases h

theorem embedded_pair {car cdr : Object} (h : unquoted (.pair car cdr) = none) :
    embedded (.pair car cdr) = embedded car ++ embedded cdr := by
  rw [embedded, h]

theorem headSymbol_of_unquoted_none {car : Object}
    (hwell : headSymbol car = some (text "unquote") ∨
      headSymbol car = some (text "unquote-splicing") → (unquoted car).isSome)
    (h : unquoted car = none) :
    headSymbol car ≠ some (text "unquote") ∧ headSymbol car ≠ some (text "unquote-splicing") := by
  rw [h] at hwell
  exact ⟨fun heq => absurd (hwell (.inl heq)) Bool.false_ne_true,
    fun heq => absurd (hwell (.inr heq)) Bool.false_ne_true⟩

theorem runFrom_quasiquoteFrom_unquote {form item e rest value : Object} {entries : List Object}
    (hitem : unquoted item = some (false, e)) (h : (ev e env).runFrom w = (.ok value, w')) :
    (quasiquoteFrom P ev env form entries (.pair item rest)).runFrom w =
      (quasiquoteFrom P ev env form (entries ++ [value]) rest).runFrom w' := by
  obtain rfl : item = .pair (.symbol (text "unquote")) (.pair e .emptyList) :=
    unquoted_eq_some hitem
  have hhead : headSymbol (.pair (.symbol (text "unquote")) (.pair e .emptyList)) =
      some (text "unquote") := rfl
  rw [quasiquoteFrom, if_pos hhead, runFrom_bind, evalUnquoteArg, h]

theorem runFrom_quasiquoteFrom_splicing {form item e rest : Object} {entries l : List Object}
    (hitem : unquoted item = some (true, e)) (h : (ev e env).runFrom w = (.ok (.ofList l), w')) :
    (quasiquoteFrom P ev env form entries (.pair item rest)).runFrom w =
      (quasiquoteFrom P ev env form (entries ++ l) rest).runFrom w' := by
  obtain rfl : item = .pair (.symbol (text "unquote-splicing")) (.pair e .emptyList) :=
    unquoted_eq_some hitem
  have hhead : headSymbol (.pair (.symbol (text "unquote-splicing")) (.pair e .emptyList)) =
      some (text "unquote-splicing") := rfl
  have hne : some (text "unquote-splicing") ≠ some (text "unquote") := by with_unfolding_all decide
  rw [quasiquoteFrom, if_neg (hhead ▸ hne), if_pos hhead, runFrom_bind, evalUnquoteArg, h]
  cases l with
  | nil =>
    rw [List.append_nil]
    rfl
  | cons o l =>
    have helements : (Object.ofList (o :: l)).elements = o :: l := Object.elements_ofList _
    have hpair : (Object.ofList (o :: l)).isPair = true := rfl
    simp only [hpair, if_true, helements]

theorem runFrom_quasiquoteFrom_element {form item rest processed : Object} {entries : List Object}
    (hunquote : headSymbol item ≠ some (text "unquote"))
    (hsplicing : headSymbol item ≠ some (text "unquote-splicing"))
    (h : (quasiquoteFrom P ev env item [] item).runFrom w = (.ok processed, w')) :
    (quasiquoteFrom P ev env form entries (.pair item rest)).runFrom w =
      (quasiquoteFrom P ev env form (entries ++ [processed]) rest).runFrom w' := by
  rw [quasiquoteFrom, if_neg hunquote, if_neg hsplicing, runFrom_bind]
  have hprocessed : (if item.isPair then quasiquoteFrom P ev env item [] item else pure item).runFrom
      w = (.ok processed, w') := by
    split_ifs with hpair
    · exact h
    · cases item with
      | pair car cdr => exact absurd rfl hpair
      | _ =>
        cases h
        rfl
  rw [hprocessed]

/-! ## Filling -/

@[elab_as_elim]
theorem induction_pairs {motive : Object → Prop}
    (pair : ∀ car cdr, motive car → motive cdr → motive (.pair car cdr))
    (other : ∀ o, o.isPair = false → motive o) : ∀ o, motive o
  | .pair car cdr =>
    pair car cdr (induction_pairs pair other car) (induction_pairs pair other cdr)
  | .none | .emptyList | .int _ | .float _ | .char _ | .symbol _ | .string _ | .array _
  | .function _ | .macroObject _ | .primitive _ | .specialForm _ | .heapObject _ _ => other _ rfl

theorem embedded_other {o : Object} (h : o.isPair = false) : embedded o = [] := by
  cases o with
  | pair car cdr => cases h
  | _ => rfl

theorem fill_other {o : Object} (h : o.isPair = false) (values : List Object) :
    fill o values = o := by
  cases o with
  | pair car cdr => cases h
  | _ => rfl

theorem quasiquoteFrom_other {form o : Object} {entries : List Object} (h : o.isPair = false) :
    (quasiquoteFrom P ev env form entries o).runFrom w = (.ok (entries.foldr .pair o), w) := by
  cases o with
  | pair car cdr => cases h
  | _ => rfl

theorem length_values {t : Object} {values : List Object}
    (h : ((embedded t).mapM fun e => ev e.2 env).runFrom w = (.ok values, w')) :
    values.length = (embedded t).length := by
  generalize embedded t = es at h
  induction es generalizing w values with
  | nil =>
    cases h
    rfl
  | cons e es ih =>
    obtain ⟨u, hhead, htail⟩ := mapM_append_ok [e] h
    obtain ⟨value, -, htake⟩ := mapM_singleton_ok hhead
    have hlength := ih htail
    rw [List.length_drop, List.length_singleton] at hlength
    have hone := congrArg List.length htake
    rw [List.length_take, List.length_singleton, List.length_singleton] at hone
    rw [List.length_cons]
    omega

theorem quasiquoteFrom_fill (t : Object) (hwell : WellFormed t) (h : UnquotesElements t)
    (form : Object) (entries : List Object) {values : List Object}
    (hrun : ((embedded t).mapM fun e => ev e.2 env).runFrom w = (.ok values, w'))
    (hlists : SplicesLists t values) :
    (quasiquoteFrom P ev env form entries t).runFrom w =
      (.ok (entries.foldr .pair (fill t values)), w') := by
  induction t using induction_pairs generalizing form entries values w w' with
  | other o ho =>
    rw [embedded_other ho] at hrun
    cases hrun
    rw [quasiquoteFrom_other ho, fill_other ho]
  | pair car cdr ihcar ihcdr =>
    obtain ⟨hhead, hcar, hcdr⟩ := hwell
    obtain ⟨hwhole, helement, htail⟩ := h
    rw [embedded_pair hwhole] at hrun
    obtain ⟨u, hhere, hrest⟩ := mapM_append_ok _ hrun
    have hlength : (values.take (embedded car).length).length = (embedded car).length :=
      length_values hhere
    have hzip : (embedded (.pair car cdr)).zip values =
        (embedded car).zip (values.take (embedded car).length) ++
          (embedded cdr).zip (values.drop (embedded car).length) := by
      rw [embedded_pair hwhole, ← List.zip_append hlength.symm, List.take_append_drop]
    have hlistsCar : SplicesLists car (values.take (embedded car).length) := by
      intro x hx
      exact hlists x (by rw [hzip]; exact List.mem_append_left _ hx)
    have hlistsCdr : SplicesLists cdr (values.drop (embedded car).length) := by
      intro x hx
      exact hlists x (by rw [hzip]; exact List.mem_append_right _ hx)
    rw [fill, hwhole]
    generalize values.take (embedded car).length = here at *
    cases hunquoted : unquoted car with
    | some x =>
      obtain ⟨spliced, e⟩ := x
      rw [embedded_of_unquoted hunquoted] at hhere
      obtain ⟨value, hvalue, rfl⟩ := mapM_singleton_ok hhere
      cases spliced with
      | false =>
        simp only [fill_of_unquoted hunquoted, List.headD_cons]
        rw [runFrom_quasiquoteFrom_unquote hunquoted hvalue,
          ihcdr hcdr htail form (entries ++ [value]) hrest hlistsCdr, List.foldr_append]
        rfl
      | true =>
        obtain ⟨l, hl⟩ := hlistsCar ((true, e), value) (by
          rw [embedded_of_unquoted hunquoted]
          exact List.mem_singleton_self _) rfl
        change value = .ofList l at hl
        subst hl
        simp only [List.headD_cons, Object.elements_ofList]
        rw [runFrom_quasiquoteFrom_splicing hunquoted hvalue,
          ihcdr hcdr htail form (entries ++ l) hrest hlistsCdr, List.foldr_append]
    | none =>
      obtain ⟨hunquote, hsplicing⟩ := headSymbol_of_unquoted_none hhead hunquoted
      have hprocessed := ihcar (hcar hunquoted) (helement hunquoted) car [] hhere hlistsCar
      rw [runFrom_quasiquoteFrom_element hunquote hsplicing hprocessed,
        ihcdr hcdr htail form _ hrest hlistsCdr, List.foldr_append]
      rfl

/-! ## Templates that unquote a tail -/

/-- An evaluator that gives the empty list. -/
def evalNothing : Evaluator := fun _ _ => pure .emptyList

/-- A template whose unquoted elements are replaced by the empty list or by nothing. -/
def emptied : Object → Object
  | .pair car cdr =>
    match unquoted car with
    | some (true, _) => emptied cdr
    | some (false, _) => .pair .emptyList (emptied cdr)
    | none => .pair (emptied car) (emptied cdr)
  | o => o

theorem emptied_other {o : Object} (h : o.isPair = false) : emptied o = o := by
  cases o with
  | pair car cdr => cases h
  | _ => rfl

theorem quasiquoteFrom_emptied (env : ℕ) (w : World) (t : Object) (hwell : WellFormed t) (form : Object)
    (entries : List Object) :
    (quasiquoteFrom P evalNothing env form entries t).runFrom w =
      (.ok (entries.foldr .pair (emptied t)), w) := by
  induction t using induction_pairs generalizing form entries with
  | other o ho => rw [quasiquoteFrom_other ho, emptied_other ho]
  | pair car cdr ihcar ihcdr =>
    obtain ⟨hhead, hcar, hcdr⟩ := hwell
    rw [emptied]
    cases hunquoted : unquoted car with
    | some x =>
      obtain ⟨spliced, e⟩ := x
      cases spliced with
      | false =>
        rw [runFrom_quasiquoteFrom_unquote hunquoted rfl, ihcdr hcdr, List.foldr_append]
        rfl
      | true =>
        rw [runFrom_quasiquoteFrom_splicing (l := []) hunquoted rfl, ihcdr hcdr, List.append_nil]
    | none =>
      obtain ⟨hunquote, hsplicing⟩ := headSymbol_of_unquoted_none hhead hunquoted
      rw [runFrom_quasiquoteFrom_element hunquote hsplicing (ihcar (hcar hunquoted) car []),
        ihcdr hcdr, List.foldr_append]
      rfl

theorem mapM_evalNothing (es : List (Bool × Object)) :
    (es.mapM fun e => evalNothing e.2 env).runFrom w =
      (.ok (List.replicate es.length .emptyList), w) := by
  induction es with
  | nil => rfl
  | cons e es ih =>
    rw [List.mapM_cons, runFrom_bind]
    simp only [evalNothing] at ih ⊢
    simp only [runFrom_pure, runFrom_bind, ih, List.length_cons, List.replicate_succ]

theorem unquotesElements_of_emptied (t : Object)
    (h : emptied t = fill t (List.replicate (embedded t).length .emptyList)) :
    UnquotesElements t := by
  induction t using induction_pairs with
  | other o ho =>
    cases o with
    | pair car cdr => cases ho
    | _ => trivial
  | pair car cdr ihcar ihcdr =>
    cases hwhole : unquoted (.pair car cdr) with
    | some x =>
      obtain ⟨spliced, e⟩ := x
      rw [fill_of_unquoted hwhole, embedded_of_unquoted hwhole] at h
      have hshape := unquoted_eq_some hwhole
      obtain ⟨rfl, rfl⟩ := Object.pair.inj hshape
      have hsymbol : ∀ name, unquoted (.symbol name) = none := fun _ => rfl
      rw [emptied, hsymbol] at h
      cases h
    | none =>
      rw [fill, hwhole, embedded_pair hwhole, List.length_append, ← List.replicate_append_replicate,
        List.take_left' List.length_replicate, List.drop_left' List.length_replicate, emptied] at h
      cases hunquoted : unquoted car with
      | some x =>
        obtain ⟨spliced, e⟩ := x
        refine ⟨hwhole, fun hnone => absurd hnone (by rw [hunquoted]; exact nofun), ihcdr ?_⟩
        rw [hunquoted, embedded_of_unquoted hunquoted] at h
        cases spliced with
        | false => exact (Object.pair.inj h).2
        | true => exact h
      | none =>
        rw [hunquoted] at h
        obtain ⟨hcar, hcdr⟩ := Object.pair.inj h
        exact ⟨hwhole, fun _ => ihcar hcar, ihcdr hcdr⟩

/-- Quasiquotation replaces what is unquoted in a template, for every way of evaluating expressions,
exactly if the template unquotes elements of lists only. SRCLINE: Interpreter.cpp:1363-1369 -/
theorem quasiquotes_iff (P : Printing) (t : Object) (hwell : WellFormed t) :
    (∀ ev, Quasiquotes P ev t) ↔ UnquotesElements t := by
  constructor
  · intro h
    refine unquotesElements_of_emptied t ?_
    have hlists : SplicesLists t (List.replicate (embedded t).length .emptyList) := by
      intro x hx _
      exact ⟨[], List.eq_of_mem_replicate (List.of_mem_zip hx).2⟩
    have hrun := h evalNothing .none 0 {} _ {} (mapM_evalNothing _) hlists
    have hemptied := quasiquoteFrom_emptied (P := P) 0 {} t hwell t []
    rw [evalQuasiquoteSpecial, quasiquoteHelper, hemptied] at hrun
    exact Except.ok.inj (congrArg Prod.fst hrun)
  · intro h ev form env w values w' hrun hlists
    exact quasiquoteFrom_fill t hwell h t [] hrun hlists

/-- `(a ,x (b ,@y) . c)`. -/
def elementsTemplate : Object :=
  .pair (.symbol (text "a")) (.pair
    (.ofList [.symbol (text "unquote"), .symbol (text "x")]) (.pair
    (.ofList [.symbol (text "b"),
      .ofList [.symbol (text "unquote-splicing"), .symbol (text "y")]])
    (.symbol (text "c"))))

theorem quasiquotes_iff_elements : WellFormed elementsTemplate ∧
    ∀ ev, Quasiquotes ⟨fun _ => [], fun _ => []⟩ ev elementsTemplate := by
  have hwell : WellFormed elementsTemplate := by
    with_unfolding_all decide
  have helements : UnquotesElements elementsTemplate := by
    with_unfolding_all decide
  exact ⟨hwell, (quasiquotes_iff _ _ hwell).mpr helements⟩

/-- The template `,1` as a whole is not replaced by 1. SRCLINE: Interpreter.cpp:1651-1721 -/
theorem not_quasiquotes :
    ¬∀ (B : Builtins) (n : ℕ) (t : Object), WellFormed t →
      Quasiquotes B.printing (evalWithRewind B n) t := by
  intro h
  let B : Builtins :=
    { printing := ⟨fun _ => [], fun _ => []⟩
      special := fun _ _ _ _ _ => throw .undefinedBehaviour
      specs := fun _ => {}
      isCustom := fun _ => false
      primitive := fun _ _ _ _ _ => throw .undefinedBehaviour
      deref := fun _ => throw .undefinedBehaviour }
  have hrun := h B 1 (.ofList [.symbol (text "unquote"), .int 1]) (by with_unfolding_all decide)
    .none 0 {}
    [.int 1] {} (by with_unfolding_all rfl) (by
      intro x hx hspliced
      have hx' : x ∈ [((false, Object.int 1), Object.int 1)] := by
        with_unfolding_all exact hx
      obtain rfl := List.mem_singleton.mp hx'
      cases hspliced)
  have hresult : (Except.ok (.ofList [.symbol (text "unquote"), .int 1]) : Except Failure Object) =
      .ok (.int 1) := by
    with_unfolding_all exact congrArg Prod.fst hrun
  cases hresult

end Soot.Analysis.Script
