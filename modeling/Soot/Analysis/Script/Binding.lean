import Soot.Analysis.Script.Application

/-!
# Binding keeps the promise of a lambda list

The specification that parsing makes of a lambda list has the parameters that the list declares. The
positional forms, the keywords and the rest of a call are then taken as the list promises, except
that keywords are not checked while `&key` is in force; so binding keeps the promise exactly if they
need no check and the parameters have different names.
-/

set_option autoImplicit false

namespace Soot.Analysis.Script

open Soot.Computation Soot.Computation.StatefulExcept Soot.Program.Script Soot.Model.Script

variable {bs : List (Text × Object)}

variable {P : Printing} {form : Object} {spec : ArgumentSpec} {l : LambdaList} {args : List Object}

/-! ## Lambda lists -/

/-- A positional parameter in a specification. -/
def positionalArg (parameter : Parameter) : PositionalArg :=
  match parameter.default with
  | none => ⟨parameter.name, false, .none⟩
  | some value => ⟨parameter.name, true, value⟩

/-- A key in a specification. -/
def namedArg (parameter : Parameter) : Text × NamedArg :=
  match parameter.default with
  | none => (parameter.name, {})
  | some value => (parameter.name, ⟨true, value⟩)

@[simp] theorem name_positionalArg (parameter : Parameter) :
    (positionalArg parameter).name = parameter.name := by
  unfold positionalArg
  split <;> rfl

@[simp] theorem fst_namedArg (parameter : Parameter) :
    (namedArg parameter).1 = parameter.name := by
  unfold namedArg
  split <;> rfl

/-- A specification has the parameters of a lambda list. -/
structure Declares (l : LambdaList) (spec : ArgumentSpec) : Prop where
  unnamed : spec.unnamed = l.positional.map positionalArg
  named : spec.named = l.keys.map namedArg
  rest : spec.rest = l.rest.getD []

theorem namedArg_keyParameter {arg : Object} {parsed : Text × NamedArg}
    (h : parseKey form arg = .ok parsed) : namedArg (keyParameter arg) = parsed := by
  unfold parseKey at h
  split at h
  · cases h
    rfl
  · cases h
    rfl
  · next name cdr hcdr =>
    cases h
    rw [keyParameter]
    · rfl
    · exact hcdr
  · cases h
  · cases h

theorem positionalArg_optionalParameter {arg : Object} {parsed : PositionalArg}
    (h : parseOptional P form arg = .ok parsed) :
    positionalArg (optionalParameter arg) = parsed := by
  unfold parseOptional at h
  split at h
  · cases h
    rfl
  · cases h
    rfl
  · next name cdr hcdr =>
    cases h
    rw [optionalParameter]
    · rfl
    · exact hcdr
  · cases h
  · cases h

theorem parseArgSpecFrom_declared (kind : ParameterKind) (current : Object)
    {result : ArgumentSpec} (hrest : spec.rest = [])
    (hparse : parseArgSpecFrom P form spec kind current = .ok result) :
    result.unnamed = spec.unnamed ++ (declaredFrom kind current).positional.map positionalArg ∧
      result.named = spec.named ++ (declaredFrom kind current).keys.map namedArg ∧
      result.rest = (declaredFrom kind current).rest.getD [] := by
  fun_induction parseArgSpecFrom P form spec kind current with
  | case1 spec kind =>
    cases hparse
    cases kind <;> simp [declaredFrom, hrest]
  | case2 spec kind arg current hword =>
    rw [declaredFrom, if_pos hword]
    cases hname : parseRest form current with
    | error e =>
      rw [hname] at hparse
      cases hparse
    | ok name =>
      rw [hname] at hparse
      cases hparse
      unfold parseRest at hname
      split at hname
      · next name' tail =>
        split at hname
        · cases hname
          simp [restParameter]
        · cases hname
      · cases hname
      · cases hname
  | case3 spec kind arg current hword hkey ih =>
    rw [declaredFrom, if_neg hword, if_pos hkey]
    exact ih hrest hparse
  | case4 spec kind arg current hword hkey hoptional ih =>
    rw [declaredFrom, if_neg hword, if_neg hkey, if_pos hoptional]
    exact ih hrest hparse
  | case5 => cases hparse
  | case6 => cases hparse
  | case7 spec arg current hword hkey hoptional name named hparsed hnew ih =>
    obtain ⟨hunnamed, hnamed, hrest'⟩ := ih hrest hparse
    rw [declaredFrom, if_neg hword, if_neg hkey, if_neg hoptional]
    refine ⟨hunnamed, ?_, hrest'⟩
    rw [hnamed, List.map_cons, namedArg_keyParameter hparsed, List.append_assoc]
    rfl
  | case8 => cases hparse
  | case9 spec arg current hword hkey hoptional optional hparsed ih =>
    obtain ⟨hunnamed, hnamed, hrest'⟩ := ih hrest hparse
    rw [declaredFrom, if_neg hword, if_neg hkey, if_neg hoptional]
    refine ⟨?_, hnamed, hrest'⟩
    rw [hunnamed, List.map_cons, positionalArg_optionalParameter hparsed, List.append_assoc]
    rfl
  | case10 spec current name hword hkey hoptional ih =>
    obtain ⟨hunnamed, hnamed, hrest'⟩ := ih hrest hparse
    rw [declaredFrom, if_neg hword, if_neg hkey, if_neg hoptional]
    refine ⟨?_, hnamed, hrest'⟩
    rw [hunnamed, List.map_cons, List.append_assoc]
    rfl
  | case11 => cases hparse
  | case12 => cases hparse

theorem declares_of_parseArgSpec {params : Object} (hparse : parseArgSpec P form params = .ok spec) :
    Declares (declared params) spec := by
  obtain ⟨hunnamed, hnamed, hrest⟩ := parseArgSpecFrom_declared .positional params rfl hparse
  exact ⟨hunnamed, hnamed, hrest⟩

/-! ## Positional parameters -/

theorem names_positionalBindings {parameters : List Parameter}
    (h : positionalBindings parameters args = some bs) :
    bs.map Prod.fst = parameters.map Parameter.name := by
  induction parameters generalizing args bs with
  | nil =>
    cases h
    rfl
  | cons parameter parameters ih =>
    rw [positionalBindings] at h
    obtain ⟨value, -, h⟩ := Option.bind_eq_some_iff.mp h
    obtain ⟨bs', hbs, h⟩ := Option.bind_eq_some_iff.mp h
    cases h
    rw [List.map_cons, List.map_cons, ih hbs]

theorem takePositional_eq (form : Object) (spec : ArgumentSpec) (parameters : List Parameter) (args : List Object) :
    (takePositional P form spec (parameters.map positionalArg) (.ofList args)).toOption =
      (positionalBindings parameters args).map fun bs =>
        (bs.map Prod.snd, .ofList (args.drop parameters.length)) := by
  induction parameters generalizing args with
  | nil => rfl
  | cons parameter parameters ih =>
    rw [List.map_cons, positionalBindings]
    cases args with
    | nil =>
      have hnil := ih []
      simp only [Object.ofList, takePositional, List.head?_nil, Option.none_or, List.tail_nil,
        List.drop_nil] at hnil ⊢
      obtain ⟨name, default⟩ := parameter
      cases default with
      | none => rfl
      | some value =>
        simp only [positionalArg, if_true, bind, Option.bind, pure]
        cases htake : takePositional P form spec (parameters.map positionalArg) .emptyList with
        | error e =>
          rw [htake] at hnil
          cases hbind : positionalBindings parameters [] with
          | none => rfl
          | some bs =>
            rw [hbind] at hnil
            cases hnil
        | ok taken =>
          rw [htake] at hnil
          cases hbind : positionalBindings parameters [] with
          | none =>
            rw [hbind] at hnil
            cases hnil
          | some bs =>
            rw [hbind] at hnil
            cases hnil
            rfl
    | cons arg args =>
      have hnext := ih args
      simp only [Object.ofList, takePositional, List.head?_cons, Option.some_or, List.tail_cons,
        List.length_cons, List.drop_succ_cons, bind, Option.bind, pure]
      cases htake : takePositional P form spec (parameters.map positionalArg) (.ofList args) with
      | error e =>
        rw [htake] at hnext
        cases hbind : positionalBindings parameters args with
        | none => rfl
        | some bs =>
          rw [hbind] at hnext
          cases hnext
      | ok taken =>
        rw [htake] at hnext
        cases hbind : positionalBindings parameters args with
        | none =>
          rw [hbind] at hnext
          cases hnext
        | some bs =>
          rw [hbind] at hnext
          cases hnext
          rfl

/-! ## Keywords -/

theorem lookup_cons_ite {α : Type} (name other : Text) (value : α) (named : List (Text × α)) :
    ((other, value) :: named).lookup name =
      if name = other then some value else named.lookup name := by
  rw [List.lookup_cons]
  by_cases h : name = other
  · rw [if_pos h, beq_iff_eq.mpr h]
  · rw [if_neg h, beq_eq_false_iff_ne.mpr h]

theorem any_eq_isSome_lookup {α : Type} (name : Text) (named : List (Text × α)) :
    named.any (·.1 = name) = (named.lookup name).isSome := by
  induction named with
  | nil => rfl
  | cons x named ih =>
    obtain ⟨other, value⟩ := x
    rw [lookup_cons_ite, List.any_cons, ih]
    by_cases h : name = other
    · simp [h]
    · simp [h, Ne.symm h]

theorem lookup_assign {α : Type} (name other : Text) (value : α) (named : List (Text × α)) :
    (Program.Script.assign name value named).lookup other =
      if other = name then some value else named.lookup other := by
  induction named with
  | nil => rw [Program.Script.assign, lookup_cons_ite]
  | cons x named ih =>
    obtain ⟨first, old⟩ := x
    rw [Program.Script.assign]
    by_cases hfirst : name = first
    · rw [if_pos hfirst, lookup_cons_ite, lookup_cons_ite, ← hfirst]
      split_ifs <;> rfl
    rw [if_neg hfirst]
    by_cases hlt : name < first
    · rw [if_pos hlt, lookup_cons_ite]
    · rw [if_neg hlt, lookup_cons_ite, lookup_cons_ite, ih]
      by_cases h : other = name
      · rw [if_pos h, if_pos h, if_neg]
        rintro rfl
        exact hfirst h.symm
      · rw [if_neg h, if_neg h]

/-- The keywords of a call are assigned one after another. -/
def assignAll (given named : List (Text × Object)) : List (Text × Object) :=
  given.foldl (fun named x => assign x.1 x.2 named) named

theorem isSome_lookup_assignAll (given named : List (Text × Object)) (name : Text) :
    ((assignAll given named).lookup name).isSome =
      ((given.lookup name).isSome || (named.lookup name).isSome) := by
  induction given generalizing named with
  | nil => rfl
  | cons x given ih =>
    obtain ⟨other, value⟩ := x
    rw [assignAll, List.foldl_cons, ← assignAll, ih, lookup_assign, lookup_cons_ite]
    by_cases h : name = other
    · simp [h]
    · simp [h]

theorem lookup_assignAll {given named : List (Text × Object)}
    (hnodup : (given.map Prod.fst).Nodup) (name : Text) :
    (assignAll given named).lookup name = (given.lookup name).or (named.lookup name) := by
  induction given generalizing named with
  | nil => rfl
  | cons x given ih =>
    obtain ⟨hnew, hrest⟩ := List.nodup_cons.mp hnodup
    rw [assignAll, List.foldl_cons, ← assignAll, ih hrest, lookup_assign]
    by_cases h : name = x.1
    · have hnone : given.lookup name = none := by
        rw [← Option.not_isSome_iff_eq_none, ← any_eq_isSome_lookup, List.any_eq_true]
        rintro ⟨y, hy, heq⟩
        exact hnew (List.mem_map.mpr ⟨y, hy, (of_decide_eq_true heq).trans h⟩)
      rw [hnone, if_pos h, lookup_cons_ite, if_pos h]
      rfl
    · rw [if_neg h, lookup_cons_ite, if_neg h]

/-- When keywords are checked, these are known and new. -/
def Checked (spec : ArgumentSpec) (named given : List (Text × Object)) : Prop :=
  spec.varkeys = false →
    (∀ name ∈ given.map Prod.fst, spec.named.any (·.1 = name) = true) ∧
      (given.map Prod.fst).Nodup ∧ ∀ name ∈ given.map Prod.fst, named.any (·.1 = name) = false

theorem checked_cons {named given : List (Text × Object)} {name : Text} {value : Object} :
    Checked spec named ((name, value) :: given) ↔
      (spec.varkeys = false →
        spec.named.any (·.1 = name) = true ∧ named.any (·.1 = name) = false) ∧
        Checked spec (assign name value named) given := by
  simp only [Checked, List.map_cons, List.forall_mem_cons, List.nodup_cons, any_assign,
    Bool.or_eq_false_iff, decide_eq_false_iff_not]
  constructor
  · intro h
    refine ⟨fun hv => ?_, fun hv => ?_⟩
    · obtain ⟨⟨hknown, -⟩, -, hnew, -⟩ := h hv
      exact ⟨hknown, hnew⟩
    · obtain ⟨⟨-, hknown⟩, ⟨hnotin, hnodup⟩, -, hnew⟩ := h hv
      refine ⟨hknown, hnodup, fun other hother => ⟨?_, hnew other hother⟩⟩
      rintro rfl
      exact hnotin hother
  · rintro ⟨hhead, htail⟩ hv
    obtain ⟨hknown, hnew⟩ := hhead hv
    obtain ⟨hknown', hnodup, hnew'⟩ := htail hv
    refine ⟨⟨hknown, hknown'⟩, ⟨?_, hnodup⟩, hnew, fun other hother => (hnew' other hother).2⟩
    intro hmem
    exact (hnew' name hmem).1 rfl

open Classical in
theorem takeNamed_keySection (hvarargs : spec.varargs = false)
    (hkeyed : (spec.varkeys || !spec.named.isEmpty) = true) (args : List Object)
    (named : List (Text × Object)) :
    (takeNamed P form spec named (.ofList args)).toOption =
      (keySection args).bind fun x =>
        if Checked spec named x.1 ∧ (x.2 = [] ∨ spec.rest ≠ []) then
          some (assignAll x.1 named, if x.2 = [] then .none else .ofList x.2)
        else none := by
  have hnothing : ∀ named, Checked spec named [] := fun named _ => ⟨nofun, List.nodup_nil, nofun⟩
  fun_induction keySection args generalizing named with
  | case1 => simp [Object.ofList, takeNamed, hnothing, assignAll, Except.toOption]
  | case2 arg args hname =>
    rw [Object.ofList, takeNamed, hname]
    simp only [Option.bind, hnothing, true_and, reduceCtorEq, false_or, if_false, hvarargs,
      Bool.false_eq_true, or_false]
    split_ifs with hrest <;> rfl
  | case3 arg name hname =>
    rw [Object.ofList, takeNamed, hname]
    simp only [hkeyed, if_true, Object.ofList, Option.bind]
    split_ifs <;> rfl
  | case4 arg name hname value args ih =>
    rw [Object.ofList, Object.ofList, takeNamed, hname]
    simp only [hkeyed, if_true]
    have hsection : ∀ x : List (Text × Object) × List Object,
        (Checked spec named ((name, value) :: x.1) ∧ (x.2 = [] ∨ spec.rest ≠ [])) ↔
          (spec.varkeys = false →
            spec.named.any (·.1 = name) = true ∧ named.any (·.1 = name) = false) ∧
            Checked spec (assign name value named) x.1 ∧ (x.2 = [] ∨ spec.rest ≠ []) := by
      intro x
      rw [checked_cons, and_assoc]
    split_ifs with hunknown htwice
    · cases keySection args with
      | none => rfl
      | some x =>
        simp only [bind, Option.bind, pure, hsection]
        rw [if_neg]
        · rfl
        · rintro ⟨hone, -⟩
          simp only [Bool.and_eq_true, Bool.not_eq_true'] at hunknown
          rw [(hone hunknown.1).1] at hunknown
          exact Bool.noConfusion hunknown.2
    · cases keySection args with
      | none => rfl
      | some x =>
        simp only [bind, Option.bind, pure, hsection]
        rw [if_neg]
        · rfl
        · rintro ⟨hone, -⟩
          simp only [Bool.and_eq_true, Bool.not_eq_true'] at htwice
          rw [(hone htwice.1).2] at htwice
          exact Bool.noConfusion htwice.2
    · have hone : spec.varkeys = false →
          spec.named.any (·.1 = name) = true ∧ named.any (·.1 = name) = false := by
        intro hv
        rw [hv, Bool.not_false, Bool.true_and, Bool.not_eq_true] at hunknown htwice
        rw [Bool.not_eq_false'] at hunknown
        exact ⟨hunknown, htwice⟩
      rw [ih]
      cases keySection args with
      | none => rfl
      | some x =>
        simp only [bind, Option.bind, pure]
        exact (if_congr ((hsection x).trans (and_iff_right hone)) rfl rfl).symm

theorem takeNamed_unkeyed (hvarargs : spec.varargs = false)
    (hkeyed : (spec.varkeys || !spec.named.isEmpty) = false) (args : List Object) :
    (takeNamed P form spec [] (.ofList args)).toOption =
      if args = [] ∨ spec.rest ≠ [] then
        some ([], if args = [] then .none else .ofList args)
      else none := by
  cases args with
  | nil => rfl
  | cons arg args =>
    rw [Object.ofList, takeNamed]
    simp only [hkeyed, Bool.false_eq_true, if_false, hvarargs, or_false, reduceCtorEq, false_or]
    split <;> split_ifs <;> rfl

/-! ## Defaults -/

theorem mapM_eq_none {α β : Type} {f : α → Option β} {as : List α} :
    as.mapM f = none ↔ ∃ a ∈ as, f a = none := by
  induction as with
  | nil => simp
  | cons a as ih =>
    rw [List.mapM_cons]
    cases ha : f a with
    | none => simp [ha]
    | some b =>
      cases htail : as.mapM f with
      | none => simp [ha, ← ih, htail]
      | some bs => simp [ha, ← ih, htail]

theorem fillNamed_eq (form : Object) (spec : ArgumentSpec) (keys : List Parameter) (named : List (Text × Object))
    (hnodup : (keys.map Parameter.name).Nodup) :
    ((∀ key ∈ keys, (named.lookup key.name).or key.default ≠ none) →
      ∃ filled, fillNamed P form spec (keys.map namedArg) named = .ok filled ∧
        (∀ name ∉ keys.map Parameter.name, filled.lookup name = named.lookup name) ∧
        ∀ key ∈ keys, filled.lookup key.name = (named.lookup key.name).or key.default) ∧
    ((∃ key ∈ keys, (named.lookup key.name).or key.default = none) →
      ∃ e, fillNamed P form spec (keys.map namedArg) named = .error e) := by
  induction keys generalizing named with
  | nil => exact ⟨fun _ => ⟨named, rfl, fun _ _ => rfl, nofun⟩, nofun⟩
  | cons key keys ih =>
    obtain ⟨hnew, hnodup'⟩ := List.nodup_cons.mp hnodup
    have hother : ∀ {other : Parameter}, other ∈ keys → other.name ≠ key.name := by
      rintro other hmem heq
      exact hnew (List.mem_map.mpr ⟨other, hmem, heq⟩)
    obtain ⟨name, default⟩ := key
    cases hgiven : named.lookup name with
    | some value =>
      have hany : named.any (·.1 = name) = true := by rw [any_eq_isSome_lookup, hgiven]; rfl
      have hskip : fillNamed P form spec ((⟨name, default⟩ :: keys).map namedArg) named =
          fillNamed P form spec (keys.map namedArg) named := by
        rw [List.map_cons]
        cases default <;> rw [namedArg, fillNamed, if_pos hany]
      obtain ⟨hok, herror⟩ := ih named hnodup'
      rw [hskip]
      constructor
      · intro hall
        obtain ⟨filled, hfill, hrest, hkeys⟩ := hok fun key hkey => hall key (.tail _ hkey)
        refine ⟨filled, hfill, fun other hmem => hrest other fun h => hmem (.tail _ h), ?_⟩
        intro key hkey
        rcases List.mem_cons.mp hkey with rfl | hkey
        · rw [hrest _ hnew, hgiven]
          rfl
        · exact hkeys key hkey
      · rintro ⟨key, hkey, hnone⟩
        rcases List.mem_cons.mp hkey with rfl | hkey
        · rw [hgiven] at hnone
          cases hnone
        · exact herror ⟨key, hkey, hnone⟩
    | none =>
      have hany : ¬named.any (·.1 = name) = true := by
        rw [any_eq_isSome_lookup, hgiven]
        exact Bool.false_ne_true
      cases default with
      | none =>
        have hfill : ∃ e, fillNamed P form spec ((⟨name, none⟩ :: keys).map namedArg) named =
            .error e := by
          rw [List.map_cons, namedArg, fillNamed, if_neg hany]
          exact ⟨_, rfl⟩
        refine ⟨fun hall => absurd ?_ (hall _ List.mem_cons_self), fun _ => hfill⟩
        rw [hgiven]
        rfl
      | some value =>
        have hstep : fillNamed P form spec ((⟨name, some value⟩ :: keys).map namedArg) named =
            fillNamed P form spec (keys.map namedArg) (assign name value named) := by
          rw [List.map_cons, namedArg, fillNamed, if_neg hany]
          rfl
        obtain ⟨hok, herror⟩ := ih (assign name value named) hnodup'
        have hsame : ∀ key ∈ keys, (assign name value named).lookup key.name =
            named.lookup key.name := by
          intro key hkey
          rw [lookup_assign, if_neg (hother hkey)]
        rw [hstep]
        constructor
        · intro hall
          obtain ⟨filled, hfill, hrest, hkeys⟩ := hok fun key hkey => by
            rw [hsame key hkey]
            exact hall key (.tail _ hkey)
          refine ⟨filled, hfill, fun other hmem => ?_, ?_⟩
          · rw [List.map_cons, List.mem_cons, not_or] at hmem
            rw [hrest other hmem.2, lookup_assign, if_neg hmem.1]
          · intro key hkey
            rcases List.mem_cons.mp hkey with rfl | hkey
            · rw [hrest _ hnew, lookup_assign, if_pos rfl, hgiven]
              rfl
            · rw [hkeys key hkey, hsame key hkey]
        · rintro ⟨key, hkey, hnone⟩
          rcases List.mem_cons.mp hkey with rfl | hkey
          · rw [hgiven] at hnone
            cases hnone
          · exact herror ⟨key, hkey, by rw [hsame key hkey, hnone]⟩

theorem names_keyBindings {given kb : List (Text × Object)} {keys : List Parameter}
    (h : keyBindings given keys = some kb) : kb.map Prod.fst = keys.map Parameter.name := by
  induction keys generalizing kb with
  | nil =>
    cases h
    rfl
  | cons key keys ih =>
    rw [keyBindings, List.mapM_cons] at h
    obtain ⟨x, hx, h⟩ := Option.bind_eq_some_iff.mp h
    obtain ⟨kb', hkb, h⟩ := Option.bind_eq_some_iff.mp h
    obtain ⟨value, -, rfl⟩ := Option.map_eq_some_iff.mp hx
    cases h
    rw [List.map_cons, List.map_cons, ih hkb]

theorem filterMap_keyBindings {given kb filled : List (Text × Object)} {keys : List Parameter}
    (h : keyBindings given keys = some kb)
    (hfilled : ∀ key ∈ keys, filled.lookup key.name = (given.lookup key.name).or key.default) :
    (keys.map namedArg).filterMap (fun x => (filled.lookup x.1).map ((x.1, ·))) = kb := by
  induction keys generalizing kb with
  | nil =>
    cases h
    rfl
  | cons key keys ih =>
    rw [keyBindings, List.mapM_cons] at h
    obtain ⟨x, hx, h⟩ := Option.bind_eq_some_iff.mp h
    obtain ⟨kb', hkb, h⟩ := Option.bind_eq_some_iff.mp h
    rw [← hfilled key List.mem_cons_self] at hx
    cases h
    rw [List.map_cons, List.filterMap_cons, fst_namedArg, hx]
    exact congrArg _ (ih hkb fun key hkey => hfilled key (.tail _ hkey))

/-! ## Arguments -/

theorem ok_of_toOption {ε α : Type} {x : Except ε α} {a : α} (h : x.toOption = some a) :
    x = .ok a := by
  cases x with
  | error e => cases h
  | ok b =>
    cases h
    rfl

theorem error_of_toOption {ε α : Type} {x : Except ε α} (h : x.toOption = none) :
    ∃ e, x = .error e := by
  cases x with
  | error e => exact ⟨e, rfl⟩
  | ok b => cases h

theorem any_named (hl : Declares l spec) (name : Text) :
    spec.named.any (·.1 = name) = true ↔ name ∈ l.keys.map Parameter.name := by
  rw [hl.named, List.any_map, List.any_eq_true, List.mem_map]
  refine exists_congr fun key => and_congr_right fun _ => ?_
  rw [Function.comp_apply, fst_namedArg, decide_eq_true_iff]

open Classical in
theorem takeNamed_eq (form : Object) (hl : Declares l spec) (hvarargs : spec.varargs = false)
    (args : List Object) :
    (takeNamed P form spec [] (.ofList (args.drop l.positional.length))).toOption =
      (l.keysTaken spec.varkeys args).bind fun x =>
        if (spec.varkeys = false → KnownOnce x.1 l.keys) ∧ (x.2 = [] ∨ spec.rest ≠ []) then
          some (assignAll x.1 [], if x.2 = [] then .none else .ofList x.2)
        else none := by
  have hempty : spec.named.isEmpty = l.keys.isEmpty := by
    rw [hl.named, List.isEmpty_map]
  have hchecked : ∀ given, Checked spec [] given ↔
      (spec.varkeys = false → KnownOnce given l.keys) := by
    intro given
    simp only [Checked, any_named hl, KnownOnce, List.any_nil, implies_true, and_true]
  by_cases hkeyed : (spec.varkeys || !spec.named.isEmpty) = true
  · have htaken : l.keysTaken spec.varkeys args = keySection (args.drop l.positional.length) := by
      rw [LambdaList.keysTaken, LambdaList.keyArguments]
      rw [hempty] at hkeyed
      cases hv : spec.varkeys with
      | true => rfl
      | false =>
        rw [hv, Bool.false_or, Bool.not_eq_true'] at hkeyed
        simp [hkeyed]
    rw [takeNamed_keySection hvarargs hkeyed, htaken]
    simp only [hchecked]
  · rw [Bool.not_eq_true] at hkeyed
    rw [takeNamed_unkeyed hvarargs hkeyed]
    obtain ⟨hv, hnamed⟩ := Bool.or_eq_false_iff.mp hkeyed
    rw [hempty, Bool.not_eq_false'] at hnamed
    have hknown : KnownOnce [] l.keys := ⟨nofun, List.nodup_nil⟩
    rw [LambdaList.keysTaken, LambdaList.keyArguments, hv, if_neg Bool.false_ne_true, if_pos hnamed]
    simp only [Option.bind, hknown, implies_true, true_and]
    rfl

theorem getArgsWithSpec_rejected (form : Object) (hl : Declares l spec) (hspec : Parsed spec)
    (h : l.Rejected spec.varkeys args) :
    ∃ e, getArgsWithSpec P form (.ofList args) spec = .error e := by
  have hpositional := takePositional_eq (P := P) form spec l.positional args
  have hnamed := takeNamed_eq (P := P) form hl hspec.varargs args
  have hkeys : (l.keys.map Parameter.name).Nodup := by
    have hnodup := hspec.nodup
    rw [hl.named, List.map_map] at hnodup
    simpa [Function.comp_def] using hnodup
  rw [getArgsWithSpec, hl.unnamed]
  cases hbind : positionalBindings l.positional args with
  | none =>
    rw [hbind] at hpositional
    obtain ⟨e, he⟩ := error_of_toOption hpositional
    exact ⟨e, by rw [he]; rfl⟩
  | some bs =>
    rw [hbind] at hpositional
    rw [ok_of_toOption hpositional]
    obtain hnone | htaken := h
    · rw [hbind] at hnone
      cases hnone
    cases hsection : l.keysTaken spec.varkeys args with
    | none =>
      rw [hsection] at hnamed
      obtain ⟨e, he⟩ := error_of_toOption hnamed
      exact ⟨e, by simp only [bind, Except.bind, he]⟩
    | some x =>
      obtain ⟨given, tail⟩ := x
      rw [hsection] at hnamed htaken
      simp only [Option.bind] at hnamed
      by_cases haccepted : (spec.varkeys = false → KnownOnce given l.keys) ∧
          (tail = [] ∨ spec.rest ≠ [])
      · rw [if_pos haccepted] at hnamed
        have hok := ok_of_toOption hnamed
        obtain hkb | ⟨htail, hrest⟩ | ⟨hv, hunknown⟩ := htaken
        · obtain ⟨-, herror⟩ := fillNamed_eq (P := P) form spec l.keys
            (assignAll given []) hkeys
          rw [keyBindings, mapM_eq_none] at hkb
          obtain ⟨key, hkey, hnone⟩ := hkb
          obtain ⟨e, he⟩ := herror ⟨key, hkey, by
            rw [Option.map_eq_none_iff, Option.or_eq_none_iff] at hnone
            have hsome := isSome_lookup_assignAll given [] key.name
            rw [hnone.1] at hsome
            rw [Option.or_eq_none_iff, ← Option.not_isSome_iff_eq_none, hsome]
            exact ⟨Bool.false_ne_true, hnone.2⟩⟩
          rw [← hl.named] at he
          exact ⟨e, by simp only [bind, Except.bind, hok, he]⟩
        · rw [← hl.rest] at hrest
          rcases haccepted.2 with hnil | hne
          · exact absurd hnil htail
          · exact absurd hrest hne
        · exact absurd (haccepted.1 hv) hunknown
      · rw [if_neg haccepted] at hnamed
        obtain ⟨e, he⟩ := error_of_toOption hnamed
        exact ⟨e, by simp only [bind, Except.bind, he]⟩

/-- A call that is not rejected, with the positional bindings, the keywords, what follows, and the
values of the keys. -/
structure Taken (l : LambdaList) (varkeys : Bool) (args : List Object)
    (bs given : List (Text × Object)) (tail : List Object) (kb : List (Text × Object)) : Prop where
  positional : positionalBindings l.positional args = some bs
  section_eq : l.keysTaken varkeys args = some (given, tail)
  keys : keyBindings given l.keys = some kb
  rest : tail = [] ∨ l.rest.getD [] ≠ []
  known : varkeys = false → KnownOnce given l.keys

theorem taken_of_not_rejected {varkeys : Bool} (h : ¬l.Rejected varkeys args) :
    ∃ bs given tail kb, Taken l varkeys args bs given tail kb := by
  rw [LambdaList.Rejected, not_or] at h
  obtain ⟨hpositional, hsection⟩ := h
  obtain ⟨bs, hbs⟩ := Option.ne_none_iff_exists'.mp hpositional
  cases htaken : l.keysTaken varkeys args with
  | none =>
    rw [htaken] at hsection
    exact absurd trivial hsection
  | some x =>
    obtain ⟨given, tail⟩ := x
    rw [htaken] at hsection
    simp only [not_or] at hsection
    obtain ⟨hkeys, hrest, hknown⟩ := hsection
    obtain ⟨kb, hkb⟩ := Option.ne_none_iff_exists'.mp hkeys
    refine ⟨bs, given, tail, kb, hbs, htaken, hkb, ?_, fun hv => ?_⟩
    · by_contra hne
      rw [not_or, not_not] at hne
      exact hrest hne
    · by_contra hunknown
      exact hknown ⟨hv, hunknown⟩

theorem getArgsWithSpec_taken (form : Object) (hl : Declares l spec) (hspec : Parsed spec)
    {bs given : List (Text × Object)} {tail : List Object} {kb : List (Text × Object)}
    (h : Taken l spec.varkeys args bs given tail kb) :
    ∃ filled, getArgsWithSpec P form (.ofList args) spec =
        .ok ⟨bs.map Prod.snd, filled, if tail = [] then .none else .ofList tail⟩ ∧
      (∀ key ∈ l.keys, filled.lookup key.name ≠ none) ∧
      ((given.map Prod.fst).Nodup → ∀ key ∈ l.keys,
        filled.lookup key.name = (given.lookup key.name).or key.default) := by
  have hpositional := takePositional_eq (P := P) form spec l.positional args
  have hnamed := takeNamed_eq (P := P) form hl hspec.varargs args
  have hkeys : (l.keys.map Parameter.name).Nodup := by
    have hnodup := hspec.nodup
    rw [hl.named, List.map_map] at hnodup
    simpa [Function.comp_def] using hnodup
  rw [h.positional] at hpositional
  rw [h.section_eq] at hnamed
  have hrest := h.rest
  rw [← hl.rest] at hrest
  simp only [Option.bind] at hnamed
  rw [if_pos ⟨h.known, hrest⟩] at hnamed
  have hgiven : ∀ key ∈ l.keys, ((assignAll given []).lookup key.name).or key.default ≠ none := by
    intro key hkey hnone
    have hkb : keyBindings given l.keys = none := by
      rw [keyBindings, mapM_eq_none]
      refine ⟨key, hkey, ?_⟩
      rw [Option.or_eq_none_iff, ← Option.not_isSome_iff_eq_none, isSome_lookup_assignAll] at hnone
      rw [Option.map_eq_none_iff, Option.or_eq_none_iff, ← Option.not_isSome_iff_eq_none]
      simpa using hnone
    rw [h.keys] at hkb
    cases hkb
  obtain ⟨hfill, -⟩ := fillNamed_eq (P := P) form spec l.keys
    (assignAll given []) hkeys
  obtain ⟨filled, hfilled, -, hlookup⟩ := hfill hgiven
  refine ⟨filled, ?_, ?_, ?_⟩
  · rw [← hl.named] at hfilled
    rw [getArgsWithSpec, hl.unnamed, ok_of_toOption hpositional]
    simp only [bind, Except.bind, ok_of_toOption hnamed, hfilled]
    rfl
  · intro key hkey
    rw [hlookup key hkey]
    exact hgiven key hkey
  · intro hnodup key hkey
    rw [hlookup key hkey, lookup_assignAll hnodup]
    simp

/-! ## Binding -/

theorem bindFrom_eq_some (hnodup : (bs.map Prod.fst).Nodup)
    (vars : Text → Option Object) (name : Text) (value : Object) :
    bindFrom vars bs name = some value ↔
      (name, value) ∈ bs ∨ name ∉ bs.map Prod.fst ∧ vars name = some value := by
  induction bs generalizing vars with
  | nil => simp [bindFrom]
  | cons x bs ih =>
    obtain ⟨first, given⟩ := x
    obtain ⟨hnew, hrest⟩ := List.nodup_cons.mp hnodup
    change bindFrom (Function.update vars first (some given)) bs name = some value ↔ _
    rw [ih hrest]
    by_cases h : name = first
    · subst h
      have hout : (name, value) ∉ bs := fun hmem => hnew (List.mem_map.mpr ⟨_, hmem, rfl⟩)
      have hnew' : name ∉ bs.map Prod.fst := hnew
      simp only [Function.update_self, hout, hnew', List.mem_cons, Prod.mk.injEq, true_and,
        not_false_eq_true, false_or, or_false, List.map_cons, not_true_eq_false, false_and,
        Option.some.injEq]
      exact eq_comm
    · simp [h]

theorem mem_of_bindFrom (hnodup : (bs.map Prod.fst).Nodup)
    (name : Text) (value : Object) :
    bindFrom (fun _ => none) bs name = some value ↔ (name, value) ∈ bs := by
  rw [bindFrom_eq_some hnodup]
  simp

theorem zip_positional {parameters : List Parameter}
    (h : bs.map Prod.fst = parameters.map Parameter.name) :
    ((parameters.map positionalArg).zip (bs.map Prod.snd)).map (fun x => (x.1.name, x.2)) = bs := by
  induction parameters generalizing bs with
  | nil =>
    obtain rfl := List.map_eq_nil_iff.mp h
    rfl
  | cons parameter parameters ih =>
    cases bs with
    | nil => cases h
    | cons x bs =>
      obtain ⟨hname, hnames⟩ := List.cons.inj h
      simp only [List.map_cons, List.zip_cons_cons, name_positionalArg, ih hnames, ← hname]

/-- The bindings that a call makes. -/
def made (l : LambdaList) (filled bs : List (Text × Object)) (tail : List Object) :
    List (Text × Object) :=
  bs ++ (l.keys.map namedArg).filterMap (fun x => (filled.lookup x.1).map ((x.1, ·))) ++
    if l.rest.getD [] = [] then [] else [(l.rest.getD [], .ofList tail)]

theorem bindArguments_taken (form : Object) (hl : Declares l spec) (hspec : Parsed spec)
    {bs given : List (Text × Object)} {tail : List Object} {kb : List (Text × Object)}
    (h : Taken l spec.varkeys args bs given tail kb) (w : World) :
    ∃ filled, (bindArguments P form (.ofList args) spec).runFrom w =
        (.ok w.environments.length,
          enterWorld w (withVars {} (bindFrom (fun _ => none) (made l filled bs tail)))) ∧
      (∀ key ∈ l.keys, filled.lookup key.name ≠ none) ∧
      ((given.map Prod.fst).Nodup → ∀ key ∈ l.keys,
        filled.lookup key.name = (given.lookup key.name).or key.default) := by
  obtain ⟨filled, hargs, hsome, hlookup⟩ := getArgsWithSpec_taken (P := P) form hl hspec h
  refine ⟨filled, ?_, hsome, hlookup⟩
  have hlength : bs.length = l.positional.length := by
    have hnames := congrArg List.length (names_positionalBindings h.positional)
    rwa [List.length_map, List.length_map] at hnames
  have hvalue : ∀ rest : Object, rest = (if tail = [] then .none else .ofList tail) →
      (if rest.isNone then Object.emptyList else rest) = .ofList tail := by
    rintro rest rfl
    cases tail with
    | nil => rfl
    | cons o tail => rfl
  have hfits : Fits spec ⟨bs.map Prod.snd, filled, if tail = [] then .none else .ofList tail⟩ := by
    constructor
    · intro _
      rw [List.length_map, hl.unnamed, List.length_map, hlength]
    · change spec.unnamed.length ≤ (bs.map Prod.snd).length
      exact Nat.le_of_eq (by rw [List.length_map, hl.unnamed, List.length_map, hlength])
    · intro x hx
      rw [hl.named] at hx
      obtain ⟨key, hkey, rfl⟩ := List.mem_map.mp hx
      rw [fst_namedArg]
      exact hsome key hkey
    · intro hrest
      rw [hl.rest] at hrest
      rcases h.rest with rfl | hne
      · rfl
      · exact absurd hrest hne
  have hzip : (spec.unnamed.zip (bs.map Prod.snd)).map (fun x => (x.1.name, x.2)) = bs := by
    rw [hl.unnamed]
    exact zip_positional (names_positionalBindings h.positional)
  have hmade : bindings spec ⟨bs.map Prod.snd, filled, if tail = [] then .none else .ofList tail⟩ =
      made l filled bs tail := by
    rw [bindings, made]
    simp only [hzip, hl.named, hl.rest, hvalue _ rfl]
  rw [bindArguments, runFrom_bind, hargs]
  have henter := enter_fits (w := w) form {} hfits
  rw [hmade] at henter
  exact henter

theorem bindArguments_rejected (hl : Declares l spec) (hspec : Parsed spec)
    (h : l.Rejected spec.varkeys args) (w w' : World) (env : ℕ) :
    (bindArguments P form (.ofList args) spec).runFrom w ≠ (.ok env, w') := by
  obtain ⟨e, he⟩ := getArgsWithSpec_rejected (P := P) form hl hspec h
  rw [bindArguments, runFrom_bind, he]
  exact nofun

theorem length_keySection {given : List (Text × Object)} {tail : List Object}
    (h : keySection args = some (given, tail)) :
    args.length = 2 * given.length + tail.length := by
  fun_induction keySection args generalizing given tail with
  | case1 =>
    cases h
    rfl
  | case2 arg args hname =>
    cases h
    simp
  | case3 => cases h
  | case4 arg name hname value args ih =>
    obtain ⟨⟨given', tail'⟩, hsection, h⟩ := Option.bind_eq_some_iff.mp h
    cases h
    have hlength := ih hsection
    simp only [List.length_cons]
    omega

theorem tail_of_keySection_nil {tail : List Object} (h : keySection args = some ([], tail)) :
    tail = args := by
  unfold keySection at h
  split at h
  · cases h
    rfl
  · split at h
    · cases h
      rfl
    · split at h
      · cases h
      · obtain ⟨x, -, h⟩ := Option.bind_eq_some_iff.mp h
        cases h

theorem restBindings_eq {rest : Option Text} {tail : List Object} {rb : List (Text × Object)}
    (h : restBindings rest tail = some rb) :
    rb = rest.toList.map fun name => (name, Object.ofList tail) := by
  cases rest with
  | none =>
    cases tail with
    | nil =>
      cases h
      rfl
    | cons o tail => cases h
  | some rest =>
    rw [restBindings] at h
    cases h
    rfl

theorem expected_eq_some {expected : List (Text × Object)} :
    l.expected args = some expected ↔ ∃ bs given tail kb rb,
      positionalBindings l.positional args = some bs ∧ l.keyArguments args = some (given, tail) ∧
        KnownOnce given l.keys ∧ keyBindings given l.keys = some kb ∧
        restBindings l.rest tail = some rb ∧ bs ++ kb ++ rb = expected := by
  constructor
  · intro h
    obtain ⟨bs, hbs, h⟩ := Option.bind_eq_some_iff.mp h
    obtain ⟨⟨given, tail⟩, htaken, h⟩ := Option.bind_eq_some_iff.mp h
    simp only at h
    split_ifs at h with hknown
    obtain ⟨kb, hkb, h⟩ := Option.bind_eq_some_iff.mp h
    obtain ⟨rb, hrb, h⟩ := Option.bind_eq_some_iff.mp h
    exact ⟨bs, given, tail, kb, rb, hbs, htaken, hknown, hkb, hrb, Option.some.inj h⟩
  · rintro ⟨bs, given, tail, kb, rb, hbs, htaken, hknown, hkb, hrb, rfl⟩
    rw [LambdaList.expected]
    simp only [hbs, htaken, hkb, hrb, bind, Option.bind, if_pos hknown]
    rfl

theorem names_expected {expected : List (Text × Object)} (h : l.expected args = some expected) :
    expected.map Prod.fst = l.names := by
  obtain ⟨bs, given, tail, kb, rb, hbs, -, -, hkb, hrb, rfl⟩ := expected_eq_some.mp h
  rw [List.map_append, List.map_append, names_positionalBindings hbs, names_keyBindings hkb,
    restBindings_eq hrb, List.map_map, LambdaList.names]
  simp [Function.comp_def]

theorem expected_taken {bs given : List (Text × Object)} {tail : List Object}
    {kb filled : List (Text × Object)} {varkeys : Bool}
    (h : Taken l varkeys args bs given tail kb) (hrest : l.rest ≠ some [])
    (hknown : KnownOnce given l.keys)
    (hfilled : ∀ key ∈ l.keys, filled.lookup key.name = (given.lookup key.name).or key.default) :
    l.expected args = some (made l filled bs tail) := by
  have htaken : l.keyArguments args = some (given, tail) := by
    have hsection := h.section_eq
    rw [LambdaList.keysTaken] at hsection
    split_ifs at hsection with hv
    · rw [LambdaList.keyArguments]
      split_ifs with hkeys
      · have hgiven : given = [] := by
          cases given with
          | nil => rfl
          | cons x given =>
            have hmem := hknown.1 x.1 List.mem_cons_self
            rw [List.isEmpty_iff.mp hkeys] at hmem
            cases hmem
        rw [hgiven] at hsection ⊢
        rw [tail_of_keySection_nil hsection]
      · exact hsection
    · exact hsection
  obtain ⟨rb, hrb⟩ : ∃ rb, restBindings l.rest tail = some rb := by
    have htail := h.rest
    cases hname : l.rest with
    | none =>
      rw [hname] at htail
      rcases htail with rfl | hne
      · exact ⟨_, rfl⟩
      · exact absurd rfl hne
    | some name => exact ⟨_, rfl⟩
  refine expected_eq_some.mpr ⟨bs, given, tail, kb, rb, h.positional, htaken, hknown, h.keys, hrb, ?_⟩
  rw [made, filterMap_keyBindings h.keys hfilled, restBindings_eq hrb]
  congr 1
  cases hname : l.rest with
  | none => rfl
  | some name =>
    have hne : name ≠ [] := by
      rintro rfl
      exact hrest hname
    simp [hne]

theorem names_made {filled bs : List (Text × Object)} (tail : List Object)
    (hbs : positionalBindings l.positional args = some bs)
    (hsome : ∀ key ∈ l.keys, filled.lookup key.name ≠ none) :
    (made l filled bs tail).map Prod.fst =
      l.positional.map Parameter.name ++ l.keys.map Parameter.name ++
        l.rest.toList.filter (· ≠ []) := by
  have hkeys : ((l.keys.map namedArg).filterMap
      fun x => (filled.lookup x.1).map ((x.1, ·))).map Prod.fst = l.keys.map Parameter.name := by
    generalize l.keys = keys at hsome ⊢
    induction keys with
    | nil => rfl
    | cons key keys ih =>
      obtain ⟨value, hvalue⟩ := Option.ne_none_iff_exists'.mp (hsome key List.mem_cons_self)
      rw [List.map_cons, List.filterMap_cons, fst_namedArg, hvalue]
      exact congrArg _ (ih fun key hkey => hsome key (.tail _ hkey))
  rw [made, List.map_append, List.map_append, names_positionalBindings hbs, hkeys]
  congr 1
  cases l.rest with
  | none => rfl
  | some name =>
    by_cases hname : name = []
    · simp [hname]
    · simp [hname]

theorem getElem?_enterWorld (w : World) (E : Environment) :
    (enterWorld w E).environments[w.environments.length]? = some E := List.getElem?_concat_length

theorem value_unique (hnodup : (bs.map Prod.fst).Nodup) {name : Text}
    {value value' : Object} (h : (name, value) ∈ bs) (h' : (name, value') ∈ bs) :
    value = value' := by
  have hvalue := (mem_of_bindFrom hnodup name value).mpr h
  rw [(mem_of_bindFrom hnodup name value').mpr h'] at hvalue
  exact (Option.some.inj hvalue).symm

/-- For every lambda list that is accepted, binding keeps its promise exactly if the parameters have
different names and, if `&key` is in force, the keywords are known and given once; or the call is
rejected for another reason. SRCLINE: Interpreter.cpp:1821-1917, 2010-2135, 390-427 -/
theorem bindsParameters_iff (P : Printing) (form params : Object) (spec : ArgumentSpec)
    (args : List Object) (hparse : parseArgSpec P form params = .ok spec) :
    BindsParameters P (declared params) spec args ↔
      (declared params).BindsWhen spec.varkeys args := by
  have hl := declares_of_parseArgSpec hparse
  have hspec : Parsed spec :=
    parseArgSpecFrom_parsed form {} .positional params ⟨rfl, List.nodup_nil⟩ hparse
  generalize declared params = l at *
  by_cases hrejected : l.Rejected spec.varkeys args
  · refine iff_of_true (fun form w env w' hrun => ?_) (.inl hrejected)
    exact absurd hrun (bindArguments_rejected hl hspec hrejected w w' env)
  obtain ⟨bs, given, tail, kb, htaken⟩ := taken_of_not_rejected hrejected
  constructor
  · intro hbinds
    refine .inr ?_
    obtain ⟨filled, hrun, hsome, -⟩ := bindArguments_taken (P := P) form hl hspec htaken {}
    obtain ⟨expected, E, hexpected, hnodup, henv, hvars⟩ := hbinds form {} _ _ hrun
    have hnames := names_expected hexpected
    rw [hnames] at hnodup
    have hmadeNames := names_made tail htaken.positional hsome
    have hE : E = withVars {} (bindFrom (fun _ => none) (made l filled bs tail)) := by
      have hlast := henv.symm.trans (getElem?_enterWorld _ _)
      exact Option.some.inj hlast
    have hmadeNodup : ((made l filled bs tail).map Prod.fst).Nodup := by
      rw [hmadeNames]
      rw [LambdaList.names] at hnodup
      exact hnodup.sublist (List.filter_sublist.append_left _)
    have hbound : ∀ name value, (name, value) ∈ expected → (name, value) ∈ made l filled bs tail := by
      intro name value hmem
      have hvalue := (hvars name value).mpr hmem
      rw [hE] at hvalue
      exact (mem_of_bindFrom hmadeNodup name value).mp hvalue
    obtain ⟨bs', given', tail', kb', rb', -, htaken', hknown', -, hrb, hall⟩ :=
      expected_eq_some.mp hexpected
    have hrestBound : ∀ name, l.rest = some name → name ≠ [] ∧ tail' = tail := by
      intro name hname
      have hmem : (name, Object.ofList tail') ∈ expected := by
        rw [← hall, restBindings_eq hrb, hname]
        simp
      have hin := hbound _ _ hmem
      rw [LambdaList.names, hname, List.nodup_append] at hnodup
      have hnew : name ∉ l.positional.map Parameter.name ++ l.keys.map Parameter.name := by
        intro hmem
        exact hnodup.2.2 name hmem name (by simp) rfl
      have hne : name ≠ [] := by
        rintro rfl
        have hname' := List.mem_map_of_mem (f := Prod.fst) hin
        rw [hmadeNames, hname] at hname'
        exact hnew (by simpa using hname')
      have hlast : (name, Object.ofList tail) ∈ made l filled bs tail := by
        rw [made, hname]
        simp [hne]
      have heq := value_unique hmadeNodup hin hlast
      refine ⟨hne, ?_⟩
      have helements := congrArg Object.elements heq
      rwa [Object.elements_ofList, Object.elements_ofList] at helements
    refine ⟨hnodup, fun hname => (hrestBound [] hname).1 rfl, ?_⟩
    intro hv given₁ tail₁ hsection
    rw [htaken.section_eq] at hsection
    cases hsection
    have hkeySection := htaken.section_eq
    rw [LambdaList.keysTaken, if_pos hv] at hkeySection
    rw [LambdaList.keyArguments] at htaken'
    split_ifs at htaken' with hkeys
    · -- there are no keys: what was taken as keywords belongs to the rest list, or is left over
      cases htaken'
      have hlength := length_keySection hkeySection
      have hzero : given = [] := by
        rw [← List.length_eq_zero_iff]
        cases hname : l.rest with
        | none =>
          rw [hname] at hrb
          cases hdrop : args.drop l.positional.length with
          | nil =>
            rw [hdrop] at hlength
            simp only [List.length_nil] at hlength
            omega
          | cons o tail =>
            rw [hdrop] at hrb
            cases hrb
        | some name =>
          rw [(hrestBound name hname).2] at hlength
          omega
      rw [hzero]
      exact hknown'
    · rw [hkeySection] at htaken'
      cases htaken'
      exact hknown'
  · rintro (hrej | ⟨hnodup, hrest, hknown⟩)
    · exact absurd hrej hrejected
    have hgiven : KnownOnce given l.keys := by
      cases hv : spec.varkeys with
      | true => exact hknown hv given tail htaken.section_eq
      | false => exact htaken.known hv
    intro form' w env w' hrun
    obtain ⟨filled, hmade, -, hfilled⟩ :=
      bindArguments_taken (P := P) form' hl hspec htaken w
    rw [hrun] at hmade
    cases hmade
    have hexpected := expected_taken htaken hrest hgiven (hfilled hgiven.2)
    have hnames := names_expected hexpected
    exact ⟨_, _, hexpected, hnames ▸ hnodup, getElem?_enterWorld _ _,
      mem_of_bindFrom (hnames ▸ hnodup)⟩

/-- A printing that prints nothing. -/
def silent : Printing := ⟨fun _ => [], fun _ => []⟩

/-- `(a &optional (b 2))` is bound by the call with one argument. -/
theorem bindsParameters_iff_optional :
    BindsParameters silent
      (declared (.ofList [.symbol (text "a"), .symbol (text "&optional"),
        .ofList [.symbol (text "b"), .int 2]]))
      { unnamed := [⟨text "a", false, .none⟩, ⟨text "b", true, .int 2⟩] } [.int 1] :=
  (bindsParameters_iff silent .none _ _ _ (by with_unfolding_all rfl)).mpr
    (.inr ⟨by with_unfolding_all decide, by with_unfolding_all decide, nofun⟩)

/-- `(&key (b 1))` accepts the keyword `:c`. SRCLINE: Interpreter.cpp:1857-1869 -/
theorem not_bindsParameters :
    ¬∀ (P : Printing) (form params : Object) (spec : ArgumentSpec) (args : List Object),
      parseArgSpec P form params = .ok spec → BindsParameters P (declared params) spec args := by
  intro h
  have hbinds := h silent .none
    (.ofList [.symbol (text "&key"), .ofList [.symbol (text "b"), .int 1]]) _
    [.symbol (text ":c"), .int 2] (by with_unfolding_all rfl)
  obtain ⟨w', hrun⟩ : ∃ w', (bindArguments silent .none
      (.ofList [.symbol (text ":c"), .int 2])
      { varkeys := true, named := [(text "b", ⟨true, .int 1⟩)] }).runFrom {} = (.ok 0, w') :=
    ⟨_, by with_unfolding_all rfl⟩
  obtain ⟨expected, E, hexpected, -⟩ := hbinds .none {} 0 w' hrun
  have hnone : (declared (.ofList [.symbol (text "&key"),
      .ofList [.symbol (text "b"), .int 1]])).expected [.symbol (text ":c"), .int 2] = none := by
    with_unfolding_all rfl
  rw [hnone] at hexpected
  cases hexpected

end Soot.Analysis.Script
