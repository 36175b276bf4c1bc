import Mathlib.Data.List.Forall2
import Soot.Model.Script.Evaluation

/-!
# When the ways of applying a function are alike

Each way makes an environment with the function's bindings or fails
(`setArgsInEnv_fresh`); the call form's arguments are put in order first
(`getArgsWithSpec_quoted`) and evaluated. What differs is that only the call form has defaults and
only `apply` forgets the rest list.
-/

set_option autoImplicit false

namespace Soot.Analysis.Script

open Soot.Computation Soot.Computation.StatefulExcept Soot.Program.Script Soot.Model.Script

variable {B : Builtins} {P : Printing} {ev : Evaluator} {n depth : ℕ} {w : World} {env : ℕ}

/-! ## Quoted arguments -/

theorem find_dynamicStack (w : World) (s : List ℕ) (name : Text) (k : ℕ) (env : Option ℕ) :
    World.find { w with dynamicStack := s } name k env = w.find name k env := by
  induction k generalizing env with
  | zero => rfl
  | succ k ih =>
    cases env with
    | none => rfl
    | some env => simp only [World.find, ih]

@[simp] theorem lookup_dynamicStack (w : World) (s : List ℕ) (name : Text) (env : ℕ) :
    World.lookup { w with dynamicStack := s } name env = w.lookup name env := by
  simp only [World.lookup, find_dynamicStack]

theorem evalWithRewind_symbol {name : Text} {value : Object} (hn : 1 ≤ n)
    (hname : (Object.symbol name).keywordName = none) (hlookup : w.lookup name env = some value) :
    (evalWithRewind B n (.symbol name) env).runFrom w = (.ok value, w) := by
  obtain ⟨k, rfl⟩ := Nat.exists_eq_add_of_le' hn
  have heval : (eval B (evalWithRewind B k) k (.symbol name) env).runFrom
      { w with dynamicStack := env :: w.dynamicStack } =
        (.ok value, { w with dynamicStack := env :: w.dynamicStack }) := by
    simp [eval, hname, evalSymbol, runFrom_bind, hlookup]
  show rewind B (evalWithRewind B k) k (.symbol name) env w = _
  unfold rewind
  rw [heval]
  rfl

theorem evalWithRewind_quoted (hn : 2 ≤ n)
    (hquote : w.lookup (text "quote") env = some (.specialForm .quote)) (a : Object) :
    (evalWithRewind B n (quoted a) env).runFrom w = (.ok a, w) := by
  obtain ⟨k, rfl⟩ := Nat.exists_eq_add_of_le' hn
  have hname : (Object.symbol (text "quote")).keywordName = none := by with_unfolding_all decide
  have hsymbol := evalWithRewind_symbol (B := B) (n := k + 1)
    (w := { w with dynamicStack := env :: w.dynamicStack }) (by omega) hname
    (by rw [lookup_dynamicStack]; exact hquote)
  have heval : (eval B (evalWithRewind B (k + 1)) (k + 1) (quoted a) env).runFrom
      { w with dynamicStack := env :: w.dynamicStack } =
        (.ok a, { w with dynamicStack := env :: w.dynamicStack }) := by
    show (evalPair B (evalWithRewind B (k + 1)) (k + 1) (quoted a) env).runFrom _ = _
    simp only [evalPair, quoted, Object.ofList, runFrom_bind, hsymbol]
    rfl
  show rewind B (evalWithRewind B (k + 1)) (k + 1) (quoted a) env w = _
  unfold rewind
  rw [heval]
  rfl

/-- Evaluation of quoted objects in a world gives them. -/
def Quotes (ev : Evaluator) (env : ℕ) (w : World) : Prop :=
  ∀ a, (ev (quoted a) env).runFrom w = (.ok a, w)

theorem mapM_quoted (h : Quotes ev env w) (l : List Object) :
    ((l.map quoted).mapM fun arg => ev arg env).runFrom w = (.ok l, w) := by
  induction l with
  | nil => rfl
  | cons a l ih =>
    rw [List.map_cons, List.mapM_cons, runFrom_bind, h a]
    simp only [runFrom_bind, ih, runFrom_pure]

/-! ## Environments -/

/-- An environment with other bindings. -/
def withVars (E : Environment) (vars : Text → Option Object) : Environment :=
  { E with vars := vars }

theorem modify_append_length {α : Type} (l : List α) (a : α) (g : α → α) :
    (l ++ [a]).modify l.length g = l ++ [g a] := by
  induction l with
  | nil => rfl
  | cons b l ih => simp [ih]

theorem runFrom_setVar (name : Text) (value : Object) (vars : Text → Option Object)
    (E : Environment) :
    (setVar w.environments.length name value).runFrom (enterWorld w (withVars E vars)) =
      (.ok ⟨⟩, enterWorld w (withVars E (Function.update vars name (some value)))) := by
  simp only [setVar, runFrom_modify, enterWorld, modify_append_length, Environment.set, withVars]

theorem runFrom_forM_unnamed (l : List (PositionalArg × Object)) (vars : Text → Option Object)
    (E : Environment) :
    (l.forM fun x => setVar w.environments.length x.1.name x.2).runFrom
        (enterWorld w (withVars E vars)) =
      (.ok ⟨⟩, enterWorld w (withVars E (bindFrom vars (l.map fun x => (x.1.name, x.2))))) := by
  induction l generalizing vars with
  | nil => rfl
  | cons x l ih =>
    show (setVar w.environments.length x.1.name x.2 >>= fun _ => l.forM _).runFrom _ = _
    rw [runFrom_bind, runFrom_setVar]
    exact ih _

theorem runFrom_forM_named (args : Arguments) (named : List (Text × NamedArg))
    (vars : Text → Option Object) (E : Environment)
    (h : ∀ x ∈ named, args.named.lookup x.1 ≠ none) :
    (named.forM fun x => setNamed args w.environments.length x.1).runFrom
        (enterWorld w (withVars E vars)) =
      (.ok ⟨⟩, enterWorld w (withVars E (bindFrom vars
        (named.filterMap fun x => (args.named.lookup x.1).map ((x.1, ·)))))) := by
  induction named generalizing vars with
  | nil => rfl
  | cons x named ih =>
    show (setNamed args w.environments.length x.1 >>= fun _ => named.forM _).runFrom _ = _
    cases hx : args.named.lookup x.1 with
    | none => exact absurd hx (h x List.mem_cons_self)
    | some value =>
      have hset : (setNamed args w.environments.length x.1).runFrom
          (enterWorld w (withVars E vars)) =
            (.ok ⟨⟩, enterWorld w (withVars E (Function.update vars x.1 (some value)))) := by
        simp only [setNamed, hx, runFrom_setVar]
      rw [runFrom_bind, hset]
      simp only [List.filterMap_cons, hx, Option.map_some]
      exact ih _ fun y hy => h y (List.mem_cons_of_mem x hy)

theorem runFrom_forM_named_missing (args : Arguments) (named : List (Text × NamedArg)) (u : World)
    (h : ∃ x ∈ named, args.named.lookup x.1 = none) :
    ∃ u', (named.forM fun x => setNamed args w.environments.length x.1).runFrom u =
      (.error .outOfRange, u') := by
  induction named generalizing u with
  | nil => simp at h
  | cons x named ih =>
    show ∃ u', (setNamed args w.environments.length x.1 >>= fun _ => named.forM _).runFrom u = _
    cases hx : args.named.lookup x.1 with
    | none =>
      refine ⟨u, ?_⟩
      simp only [runFrom_bind, setNamed, hx, runFrom_throw]
    | some value =>
      obtain ⟨y, hy, hnone⟩ := h
      have hy' : y ∈ named := by
        rcases List.mem_cons.mp hy with rfl | hy
        · rw [hx] at hnone
          cases hnone
        · exact hy
      have hset : ∃ u', (setNamed args w.environments.length x.1).runFrom u = (.ok ⟨⟩, u') := by
        simp only [setNamed, hx, setVar, runFrom_modify]
        exact ⟨_, rfl⟩
      obtain ⟨u', hset⟩ := hset
      rw [runFrom_bind, hset]
      exact ih u' ⟨y, hy', hnone⟩

theorem bindFrom_append (vars : Text → Option Object) (l l' : List (Text × Object)) :
    bindFrom vars (l ++ l') = bindFrom (bindFrom vars l) l' := List.foldl_append

/-- Arguments that can be bound. -/
structure Fits (spec : ArgumentSpec) (args : Arguments) : Prop where
  same : spec.rest = [] → args.unnamed.length = spec.unnamed.length
  enough : spec.unnamed.length ≤ args.unnamed.length
  named : ∀ x ∈ spec.named, args.named.lookup x.1 ≠ none
  rest : spec.rest = [] → args.hasRest = false

theorem setArgsInEnv_fits {spec : ArgumentSpec} {args : Arguments} (form : Object)
    (h : Fits spec args) (E : Environment) :
    (setArgsInEnv form args spec w.environments.length).runFrom (enterWorld w E) =
      (.ok ⟨⟩, enterWorld w (withVars E (bindFrom E.vars (bindings spec args)))) := by
  have hunnamed := runFrom_forM_unnamed (w := w) (spec.unnamed.zip args.unnamed) E.vars E
  have hnamed := runFrom_forM_named (w := w) args spec.named
    (bindFrom E.vars ((spec.unnamed.zip args.unnamed).map fun x => (x.1.name, x.2))) E h.named
  have hlt : ¬ args.unnamed.length < spec.unnamed.length := by
    have := h.enough
    omega
  have hE : withVars E E.vars = E := rfl
  rw [hE] at hunnamed
  unfold setArgsInEnv
  by_cases hrest : spec.rest = []
  · have hbind : bindings spec args =
        (spec.unnamed.zip args.unnamed).map (fun x => (x.1.name, x.2)) ++
          spec.named.filterMap (fun x => (args.named.lookup x.1).map ((x.1, ·))) := by
      simp [bindings, hrest]
    simp only [hrest, h.same hrest, h.rest hrest, ne_eq, not_true_eq_false, and_false, if_false,
      false_and, Bool.false_eq_true, runFrom_bind, runFrom_pure, hunnamed, hnamed, hbind,
      bindFrom_append]
  · have hbind : bindings spec args =
        (spec.unnamed.zip args.unnamed).map (fun x => (x.1.name, x.2)) ++
          spec.named.filterMap (fun x => (args.named.lookup x.1).map ((x.1, ·))) ++
            [(spec.rest, if args.rest.isNone then .emptyList else args.rest)] := by
      simp [bindings, hrest]
    simp only [hrest, hlt, ne_eq, not_false_eq_true, and_false, if_false, if_true, false_and,
      runFrom_bind, hunnamed, hnamed, hbind, bindFrom_append, runFrom_setVar]
    rfl

theorem setArgsInEnv_not_fits {spec : ArgumentSpec} {args : Arguments} (form : Object)
    (h : ¬ Fits spec args) (E : Environment) :
    ∃ e u, (setArgsInEnv form args spec w.environments.length).runFrom (enterWorld w E) =
      (.error e, u) ∧ e ≠ .unfinished := by
  have hunnamed := runFrom_forM_unnamed (w := w) (spec.unnamed.zip args.unnamed) E.vars E
  have hE : withVars E E.vars = E := rfl
  rw [hE] at hunnamed
  unfold setArgsInEnv
  by_cases hsame : spec.rest = [] ∧ args.unnamed.length ≠ spec.unnamed.length
  · rw [if_pos hsame]
    exact ⟨_, _, rfl, by simp [evalError]⟩
  · rw [if_neg hsame]
    by_cases hlt : spec.rest ≠ [] ∧ args.unnamed.length < spec.unnamed.length
    · rw [if_pos hlt]
      exact ⟨_, _, rfl, by simp [evalError]⟩
    · rw [if_neg hlt]
      simp only [runFrom_bind, hunnamed]
      by_cases hnamed : ∃ x ∈ spec.named, args.named.lookup x.1 = none
      · obtain ⟨u, hrun⟩ := runFrom_forM_named_missing (w := w) args spec.named
          (enterWorld w (withVars E (bindFrom E.vars
            ((spec.unnamed.zip args.unnamed).map fun x => (x.1.name, x.2))))) hnamed
        rw [hrun]
        exact ⟨_, _, rfl, by simp⟩
      · have hall : ∀ x ∈ spec.named, args.named.lookup x.1 ≠ none := by
          intro x hx hnone
          exact hnamed ⟨x, hx, hnone⟩
        rw [runFrom_forM_named args spec.named _ E hall]
        by_cases hrest : spec.rest = []
        · by_cases hhas : args.hasRest = true
          · simp only [hrest, hhas, ne_eq, not_true_eq_false, if_false, if_true]
            exact ⟨_, _, rfl, by simp [evalError]⟩
          · refine absurd ⟨fun _ => ?_, ?_, hall, fun _ => by simpa using hhas⟩ h
            · by_contra hne
              exact hsame ⟨hrest, hne⟩
            · by_contra hne
              exact hsame ⟨hrest, by omega⟩
        · refine absurd ⟨fun hnil => absurd hnil hrest, ?_, hall,
            fun hnil => absurd hnil hrest⟩ h
          by_contra hne
          exact hlt ⟨hrest, by omega⟩

theorem enter_fits {spec : ArgumentSpec} {args : Arguments} (form : Object) (E : Environment)
    (h : Fits spec args) :
    (do let lamEnv ← newEnvironment E
        setArgsInEnv form args spec lamEnv
        return lamEnv : Eval ℕ).runFrom w =
      (.ok w.environments.length,
        enterWorld w (withVars E (bindFrom E.vars (bindings spec args)))) := by
  have hnew : (newEnvironment E).runFrom w = (.ok w.environments.length, enterWorld w E) := rfl
  simp only [runFrom_bind, hnew, setArgsInEnv_fits form h, runFrom_pure]

theorem enter_not_fits {spec : ArgumentSpec} {args : Arguments} (form : Object) (E : Environment)
    (h : ¬ Fits spec args) :
    ∃ e u, (do let lamEnv ← newEnvironment E
               setArgsInEnv form args spec lamEnv
               return lamEnv : Eval ℕ).runFrom w = (.error e, u) ∧ e ≠ .unfinished := by
  have hnew : (newEnvironment E).runFrom w = (.ok w.environments.length, enterWorld w E) := rfl
  obtain ⟨e, u, hrun, he⟩ := setArgsInEnv_not_fits (w := w) form h E
  refine ⟨e, u, ?_, he⟩
  simp only [runFrom_bind, hnew, hrun]

/-! ## Lambda lists -/

/-- What parsing keeps of a specification. -/
structure Parsed (spec : ArgumentSpec) : Prop where
  varargs : spec.varargs = false
  nodup : (spec.named.map Prod.fst).Nodup

theorem parseArgSpecFrom_parsed (form : Object) (spec : ArgumentSpec) (kind : ParameterKind)
    (current : Object) {result : ArgumentSpec} (h : Parsed spec)
    (hparse : parseArgSpecFrom P form spec kind current = .ok result) : Parsed result := by
  fun_induction parseArgSpecFrom P form spec kind current with
  | case1 spec kind =>
    cases hparse
    exact h
  | case2 spec kind arg current hrest =>
    cases hname : parseRest form current with
    | error e =>
      rw [hname] at hparse
      cases hparse
    | ok name =>
      rw [hname] at hparse
      cases hparse
      exact ⟨h.varargs, h.nodup⟩
  | case3 spec kind arg current hrest hkey ih => exact ih ⟨h.varargs, h.nodup⟩ hparse
  | case4 spec kind arg current hrest hkey hoptional ih => exact ih ⟨h.varargs, h.nodup⟩ hparse
  | case5 => cases hparse
  | case6 => cases hparse
  | case7 spec arg current hrest hkey hoptional name named hparsed hnew ih =>
    refine ih ⟨h.varargs, ?_⟩ hparse
    rw [List.map_append, List.nodup_append]
    refine ⟨h.nodup, by simp, ?_⟩
    intro a ha b hb heq
    obtain ⟨x, hx, rfl⟩ := List.mem_map.mp ha
    have hb : b = name := by simpa using hb
    exact hnew (List.any_eq_true.mpr ⟨x, hx, by simpa using heq.trans hb⟩)
  | case8 => cases hparse
  | case9 spec arg current hrest hkey hoptional optional hparsed ih =>
    exact ih ⟨h.varargs, h.nodup⟩ hparse
  | case10 spec current name hrest hkey hoptional ih => exact ih ⟨h.varargs, h.nodup⟩ hparse
  | case11 => cases hparse
  | case12 => cases hparse

theorem parsed_of_userDefined {lam : FunctionObject} (h : UserDefined P lam) : Parsed lam.args := by
  obtain ⟨form, params, hparse⟩ := h
  exact parseArgSpecFrom_parsed form {} .positional params ⟨rfl, List.nodup_nil⟩ hparse

/-! ## The call form's arguments -/

theorem takePositional_quoted (form : Object) (spec : ArgumentSpec)
    (parameters : List PositionalArg) (args : List Object) :
    ((∀ parameter ∈ parameters.drop args.length, parameter.isOptional = true) →
      takePositional P form spec parameters (.ofList (args.map quoted)) =
        .ok ((args.map quoted).take parameters.length ++
            (parameters.drop args.length).map (·.defaultValue),
          .ofList ((args.drop parameters.length).map quoted))) ∧
    ((∃ parameter ∈ parameters.drop args.length, parameter.isOptional = false) →
      ∃ e, takePositional P form spec parameters (.ofList (args.map quoted)) = .error (.eval e)) := by
  induction parameters generalizing args with
  | nil => simp [takePositional]
  | cons parameter parameters ih =>
    cases args with
    | nil =>
      obtain ⟨hok, herror⟩ := ih []
      simp only [List.map_nil, Object.ofList, List.length_nil, List.drop_zero] at hok herror ⊢
      unfold takePositional
      constructor
      · intro h
        rw [hok fun p hp => h p (List.mem_cons_of_mem _ hp),
          if_pos (h parameter List.mem_cons_self)]
        simp [Except.map]
      · rintro ⟨p, hp, hfalse⟩
        by_cases hoptional : parameter.isOptional = true
        · rcases List.mem_cons.mp hp with rfl | hp
          · rw [hoptional] at hfalse
            cases hfalse
          · obtain ⟨e, he⟩ := herror ⟨p, hp, hfalse⟩
            rw [if_pos hoptional, he]
            exact ⟨e, rfl⟩
        · rw [if_neg hoptional]
          exact ⟨_, rfl⟩
    | cons a args =>
      obtain ⟨hok, herror⟩ := ih args
      simp only [List.map_cons, Object.ofList, List.length_cons, List.drop_succ_cons]
        at hok herror ⊢
      unfold takePositional
      constructor
      · intro h
        rw [hok h]
        simp [Except.map]
      · intro h
        obtain ⟨e, he⟩ := herror h
        rw [he]
        exact ⟨e, rfl⟩

theorem takeNamed_quoted (form : Object) (spec : ArgumentSpec) (hvarargs : spec.varargs = false)
    (args : List Object) :
    (args = [] → takeNamed P form spec [] (.ofList (args.map quoted)) = .ok ([], .none)) ∧
    (args ≠ [] → spec.rest ≠ [] →
      takeNamed P form spec [] (.ofList (args.map quoted)) =
        .ok ([], .ofList (args.map quoted))) ∧
    (args ≠ [] → spec.rest = [] →
      ∃ e, takeNamed P form spec [] (.ofList (args.map quoted)) = .error (.eval e)) := by
  cases args with
  | nil => exact ⟨fun _ => rfl, by simp, by simp⟩
  | cons a args =>
    have hkey : (quoted a).keywordName = none := rfl
    refine ⟨by simp, fun _ hrest => ?_, fun _ hrest => ?_⟩
    · simp only [List.map_cons, Object.ofList, takeNamed, hkey, hrest, ne_eq, not_false_eq_true,
        true_or, if_true]
    · simp only [List.map_cons, Object.ofList, takeNamed, hkey, hrest, hvarargs, ne_eq,
        not_true_eq_false, Bool.false_eq_true, or_self, if_false]
      exact ⟨_, rfl⟩

theorem any_assign {α : Type} (name other : Text) (value : α) (named : List (Text × α)) :
    (Program.Script.assign name value named).any (·.1 = other) =
      (decide (name = other) || named.any (·.1 = other)) := by
  induction named with
  | nil => simp [Program.Script.assign]
  | cons x named ih =>
    obtain ⟨key, old⟩ := x
    unfold Program.Script.assign
    by_cases hkey : name = key
    · subst hkey
      by_cases h : name = other <;> simp [h]
    · by_cases hlt : name < key
      · simp [hkey, hlt]
      · simp only [hkey, hlt, if_false, List.any_cons, ih]
        cases decide (name = other) <;> simp

theorem fillNamed_defaults (form : Object) (spec : ArgumentSpec)
    (parameters : List (Text × NamedArg)) (named : List (Text × Object))
    (hnodup : (parameters.map Prod.fst).Nodup)
    (hnew : ∀ x ∈ parameters, named.any (·.1 = x.1) = false) :
    ((∀ x ∈ parameters, x.2.hasDefault = true) →
      fillNamed P form spec parameters named = .ok (parameters.foldl
        (fun named (name, parameter) => assign name parameter.defaultValue named) named)) ∧
    ((∃ x ∈ parameters, x.2.hasDefault = false) →
      ∃ e, fillNamed P form spec parameters named = .error (.eval e)) := by
  induction parameters generalizing named with
  | nil => simp [fillNamed]
  | cons x parameters ih =>
    obtain ⟨name, parameter⟩ := x
    have hnodup' := List.nodup_cons.mp hnodup
    have hname : named.any (·.1 = name) = false := hnew _ List.mem_cons_self
    obtain ⟨hok, herror⟩ := ih (assign name parameter.defaultValue named) hnodup'.2 (by
      intro y hy
      rw [any_assign, hnew y (List.mem_cons_of_mem _ hy), Bool.or_false, decide_eq_false_iff_not]
      rintro rfl
      exact hnodup'.1 (List.mem_map.mpr ⟨y, hy, rfl⟩))
    unfold fillNamed
    simp only [hname, Bool.false_eq_true, if_false]
    constructor
    · intro h
      rw [if_pos (h _ List.mem_cons_self)]
      exact hok fun y hy => h y (List.mem_cons_of_mem _ hy)
    · rintro ⟨y, hy, hfalse⟩
      by_cases hdefault : parameter.hasDefault = true
      · rw [if_pos hdefault]
        rcases List.mem_cons.mp hy with rfl | hy
        · rw [hdefault] at hfalse
          cases hfalse
        · exact herror ⟨y, hy, hfalse⟩
      · rw [if_neg hdefault]
        exact ⟨_, rfl⟩

variable {lam : FunctionObject} {args : List Object}

/-- The arguments of a call form can be put in order. -/
structure Orders (lam : FunctionObject) (args : List Object) : Prop where
  optional : ∀ parameter ∈ lam.args.unnamed.drop args.length, parameter.isOptional = true
  rest : lam.args.unnamed.length < args.length → lam.args.rest ≠ []
  defaults : ∀ parameter ∈ lam.args.named, parameter.2.hasDefault = true

theorem getArgsWithSpec_quoted (form : Object) (hspec : Parsed lam.args) (h : Orders lam args) :
    getArgsWithSpec P form (.ofList (args.map quoted)) lam.args =
      .ok (formArguments lam args) := by
  obtain ⟨hpositional, -⟩ := takePositional_quoted (P := P) form lam.args lam.args.unnamed args
  obtain ⟨hnone, hsome, -⟩ := takeNamed_quoted (P := P) form lam.args hspec.varargs
    (args.drop lam.args.unnamed.length)
  obtain ⟨hnamed, -⟩ := fillNamed_defaults (P := P) form lam.args lam.args.named [] hspec.nodup
    (by simp)
  have hrest : takeNamed P form lam.args []
      (.ofList ((args.drop lam.args.unnamed.length).map quoted)) =
        .ok ([], (formArguments lam args).rest) := by
    by_cases hle : args.length ≤ lam.args.unnamed.length
    · rw [hnone (by simpa using hle)]
      simp [formArguments, hle]
    · rw [hsome (by simpa using hle) (h.rest (by omega))]
      simp [formArguments, hle]
  simp only [getArgsWithSpec, hpositional h.optional, bind, Except.bind, hrest,
    hnamed h.defaults, pure, Except.pure]
  rfl

theorem getArgsWithSpec_quoted_error (form : Object) (hspec : Parsed lam.args)
    (h : ¬ Orders lam args) :
    ∃ e, getArgsWithSpec P form (.ofList (args.map quoted)) lam.args = .error (.eval e) := by
  obtain ⟨hpositional, hmissing⟩ :=
    takePositional_quoted (P := P) form lam.args lam.args.unnamed args
  obtain ⟨hnone, hsome, hmany⟩ := takeNamed_quoted (P := P) form lam.args hspec.varargs
    (args.drop lam.args.unnamed.length)
  obtain ⟨-, hdefault⟩ := fillNamed_defaults (P := P) form lam.args lam.args.named []
    hspec.nodup (by simp)
  unfold getArgsWithSpec
  by_cases hoptional : ∀ parameter ∈ lam.args.unnamed.drop args.length,
      parameter.isOptional = true
  · simp only [hpositional hoptional, bind, Except.bind]
    by_cases hrest : lam.args.unnamed.length < args.length → lam.args.rest ≠ []
    · have hsomeDefault : ∃ x ∈ lam.args.named, x.2.hasDefault = false := by
        by_contra hall
        refine h ⟨hoptional, hrest, fun x hx => ?_⟩
        by_contra hfalse
        exact hall ⟨x, hx, by simpa using hfalse⟩
      obtain ⟨e, he⟩ := hdefault hsomeDefault
      by_cases hle : args.length ≤ lam.args.unnamed.length
      · rw [hnone (by simpa using hle)]
        exact ⟨e, by simp only [he]⟩
      · rw [hsome (by simpa using hle) (hrest (by omega))]
        exact ⟨e, by simp only [he]⟩
    · obtain ⟨hlt, hnil⟩ := Classical.not_imp.mp hrest
      obtain ⟨e, he⟩ := hmany (by simpa using hlt) (by simpa using hnil)
      exact ⟨e, by simp only [he]⟩
  · have hsome : ∃ parameter ∈ lam.args.unnamed.drop args.length,
        parameter.isOptional = false := by
      by_contra hall
      refine hoptional fun parameter hmem => ?_
      by_contra hfalse
      exact hall ⟨parameter, hmem, by simpa using hfalse⟩
    obtain ⟨e, he⟩ := hmissing hsome
    exact ⟨e, by simp only [he, bind, Except.bind]⟩

theorem evalArgs_keeps {forms values : Arguments} {u : World}
    (h : (evalArgs ev forms env).runFrom w = (.ok values, u)) :
    values.unnamed.length = forms.unnamed.length ∧
      values.named.map Prod.fst = forms.named.map Prod.fst ∧
      (forms.rest = .none → values.rest = .none) := by
  have hmapM : ∀ {α β : Type} (g : α → Eval β) (l : List α) (l' : List β) (s t : World),
      (l.mapM g).runFrom s = (.ok l', t) →
        List.Forall₂ (fun a b => ∃ s t, (g a).runFrom s = (.ok b, t)) l l' := by
    intro α β g l
    induction l with
    | nil =>
      intro l' s t hrun
      cases hrun
      exact .nil
    | cons a l ih =>
      intro l' s t hrun
      rw [List.mapM_cons, runFrom_bind_ok] at hrun
      obtain ⟨b, s', hb, hrun⟩ := hrun
      obtain ⟨l'', s'', hl, hrun⟩ := runFrom_bind_ok.mp hrun
      cases hrun
      exact .cons ⟨s, s', hb⟩ (ih _ _ _ hl)
  unfold evalArgs at h
  obtain ⟨unnamed, s₁, hunnamed, h⟩ := runFrom_bind_ok.mp h
  obtain ⟨named, s₂, hnamed, h⟩ := runFrom_bind_ok.mp h
  obtain ⟨rest, s₃, hrest, h⟩ := runFrom_bind_ok.mp h
  cases h
  refine ⟨(hmapM _ _ _ _ _ hunnamed).length_eq.symm, ?_, ?_⟩
  · have hnames : ∀ l l' : List (Text × Object),
        List.Forall₂ (fun x y => ∃ s t, (do return (x.1, ← ev x.2 env) :
          Eval (Text × Object)).runFrom s = (.ok y, t)) l l' →
            l'.map Prod.fst = l.map Prod.fst := by
      intro l l' hl
      induction hl with
      | nil => rfl
      | cons hx _ ih =>
        obtain ⟨s, t, hx⟩ := hx
        obtain ⟨v, s', hv, hx⟩ := runFrom_bind_ok.mp hx
        cases hx
        rw [List.map_cons, List.map_cons, ih]
    exact hnames _ _ (hmapM _ _ _ _ _ hnamed)
  · intro hnone
    rw [hnone] at hrest
    cases hrest
    rfl

/-! ## The three ways -/

theorem ending_error {e : Failure} (h : e ≠ .unfinished) : ending (.error e) = .error := by
  cases e with
  | unfinished => exact absurd rfl h
  | eval e => rfl
  | runtime s => rfl
  | outOfRange => rfl
  | undefinedBehaviour => rfl

variable {f : Text} {ref : ℕ} {form ctx : Object}

theorem runs_entered {enter : Eval ℕ} {u : World} {E : Environment}
    (h : enter.runFrom w = (.ok u.environments.length, enterWorld u E)) :
    ending ((enter >>= fun lamEnv => evalListReturnLast P ev lamEnv lam.body).runFrom w).1 =
        bodyEnding P ev u lam E ∧
      ∀ vars, StartsFrom enter w vars ↔ vars = E.vars := by
  constructor
  · rw [runFrom_bind, h]
    rfl
  · intro vars
    have hvars : ((enterWorld u E).environments[u.environments.length]?).map (·.vars) =
        some E.vars := by
      simp [enterWorld]
    constructor
    · rintro ⟨env', w', hrun, hstart⟩
      rw [h] at hrun
      cases hrun
      rw [hvars] at hstart
      exact (Option.some.inj hstart).symm
    · rintro rfl
      exact ⟨_, _, h, hvars⟩

theorem runs_error {enter : Eval ℕ} {e : Failure} {u : World}
    (h : enter.runFrom w = (.error e, u)) :
    ending ((enter >>= fun lamEnv => evalListReturnLast P ev lamEnv lam.body).runFrom w).1 =
        ending (.error e) ∧
      ∀ vars, ¬ StartsFrom enter w vars := by
  constructor
  · rw [runFrom_bind, h]
  · rintro vars ⟨env', w', hrun, -⟩
    rw [h] at hrun
    cases hrun

theorem runFrom_applied (hlam : w.functions[ref]? = some lam) :
    (applied B n depth env ref form args).runFrom w =
      (enterApply form ref lam { unnamed := args } >>= fun lamEnv =>
        evalListReturnLast B.printing (evalWithRewind B n) lamEnv lam.body).runFrom w := by
  have hcheck : varargCheck B.printing form { unnamed := [.function ref, .ofList args] }
      [[text "symbol", text "function", text "primitive", text "specialform"], []] = .ok () := by
    simp [varargCheck, Object.typeName]
    rfl
  have hfunction : (functionAt ref).runFrom w = (.ok lam, w) := by
    simp [functionAt, runFrom_bind, hlam]
  unfold applied evalApply
  rw [runFrom_bind, hcheck]
  show (functionAt ref >>= fun lam => enterApply form ref lam
    { unnamed := (Object.ofList args).elements } >>= fun lamEnv =>
      evalListReturnLast B.printing (evalWithRewind B n) lamEnv lam.body).runFrom w = _
  rw [runFrom_bind, hfunction, Object.elements_ofList]

theorem runFrom_called (hlam : w.functions[ref]? = some lam) :
    (called B n ref ctx args).runFrom w =
      (enterLambda ctx ref lam args >>= fun lamEnv =>
        evalListReturnLast B.printing (evalWithRewind B n) lamEnv lam.body).runFrom w := by
  have hfunction : (functionAt ref).runFrom w = (.ok lam, w) := by
    simp [functionAt, runFrom_bind, hlam]
  unfold called callLambdaInternal
  rw [runFrom_bind, hfunction]

theorem runFrom_evaluated (hlam : w.functions[ref]? = some lam)
    (hhead : (evalWithRewind B n (.symbol f) env).runFrom w = (.ok (.function ref), w)) :
    (evaluated B n depth env f args).runFrom w =
      (enterForm B.printing (evalWithRewind B n) (callForm f args)
          (.ofList (args.map quoted)) ref lam env >>= fun lamEnv =>
        evalListReturnLast B.printing (evalWithRewind B n) lamEnv lam.body).runFrom w := by
  have hfunction : (functionAt ref).runFrom w = (.ok lam, w) := by
    simp [functionAt, runFrom_bind, hlam]
  unfold evaluated
  have hpair : evalPair B (evalWithRewind B n) depth (callForm f args) env =
      (evalWithRewind B n (.symbol f) env >>= fun evalHead => _) := rfl
  rw [hpair, runFrom_bind, hhead]
  show (functionAt ref >>= fun lam => enterForm B.printing (evalWithRewind B n) (callForm f args)
    (.ofList (args.map quoted)) ref lam env >>= fun lamEnv =>
      evalListReturnLast B.printing (evalWithRewind B n) lamEnv lam.body).runFrom w = _
  rw [runFrom_bind, hfunction]

theorem applied_fits (hlam : w.functions[ref]? = some lam)
    (h : Fits lam.args { unnamed := args }) :
    ending ((applied B n depth env ref form args).runFrom w).1 =
        bodyEnding B.printing (evalWithRewind B n) w lam
          (bodyEnvironment (text "apply") form ref lam { unnamed := args }) ∧
      ∀ vars, StartsFrom (enterApply form ref lam { unnamed := args }) w vars ↔
        vars = bindFrom (fun _ => none) (bindings lam.args { unnamed := args }) := by
  rw [runFrom_applied hlam]
  exact runs_entered (enter_fits form _ h)

theorem applied_not_fits (hlam : w.functions[ref]? = some lam)
    (h : ¬ Fits lam.args { unnamed := args }) :
    ending ((applied B n depth env ref form args).runFrom w).1 = .error ∧
      ∀ vars, ¬ StartsFrom (enterApply form ref lam { unnamed := args }) w vars := by
  obtain ⟨e, u, hrun, he⟩ := enter_not_fits (w := w) form
    { name := text "apply", ctx := form, isFunction := true, ownerFunction := .function ref,
      parentEnv := lam.parentEnv } h
  rw [runFrom_applied hlam, ← ending_error he]
  exact runs_error hrun

/-- Whether `call_lambda_internal` accepts so many arguments. -/
def Accepts (lam : FunctionObject) (args : List Object) : Prop :=
  lam.args.named = [] ∧ lam.args.unnamed.length ≤ args.length ∧
    (lam.args.rest = [] → args.length = lam.args.unnamed.length)

theorem bindings_congr {spec : ArgumentSpec} {args args' : Arguments}
    (hunnamed : args.unnamed = args'.unnamed) (hnamed : args.named = args'.named)
    (hrest : spec.rest ≠ [] →
      (if args.rest.isNone then Object.emptyList else args.rest) =
        if args'.rest.isNone then .emptyList else args'.rest) :
    bindings spec args = bindings spec args' := by
  unfold bindings
  rw [hunnamed, hnamed]
  by_cases h : spec.rest = []
  · simp [h]
  · simp only [h, if_false, hrest h]

theorem isNone_ofList (l : List Object) : (Object.ofList l).isNone = false := by
  cases l with
  | nil => rfl
  | cons a l => rfl

theorem fits_restArguments (rest : Object) (h : Accepts lam args)
    (hrest : lam.args.rest = [] → rest = .none) : Fits lam.args (restArguments lam args rest) := by
  have hlength : (args.take lam.args.unnamed.length).length = lam.args.unnamed.length := by
    rw [List.length_take]
    have := h.2.1
    omega
  refine ⟨fun _ => hlength, Nat.le_of_eq hlength.symm, ?_, fun hnil => ?_⟩
  · rw [h.1]
    simp
  · rw [restArguments, hrest hnil]
    rfl

theorem called_accepts (hlam : w.functions[ref]? = some lam) (hspec : Parsed lam.args)
    (h : Accepts lam args) :
    ending ((called B n ref ctx args).runFrom w).1 =
        bodyEnding B.printing (evalWithRewind B n) w lam
          (bodyEnvironment (text "lambda-call") ctx ref lam
            (restArguments lam args (.ofList (args.drop lam.args.unnamed.length)))) ∧
      ∀ vars, StartsFrom (enterLambda ctx ref lam args) w vars ↔
        vars = bindFrom (fun _ => none) (bindings lam.args
          (restArguments lam args (.ofList (args.drop lam.args.unnamed.length)))) := by
  have haccept : ¬ (args.length < lam.args.unnamed.length ∨
      (¬ (lam.args.rest ≠ [] ∨ lam.args.varargs = true) ∧
        args.length > lam.args.unnamed.length)) := by
    rintro (hlt | ⟨hrest, hgt⟩)
    · have := h.2.1
      omega
    · have := h.2.2 (by simpa using (not_or.mp hrest).1)
      omega
  have hbind : bindings lam.args (restArguments lam args
      (if lam.args.rest ≠ [] ∨ lam.args.varargs = true then
        .ofList (args.drop lam.args.unnamed.length) else .none)) =
      bindings lam.args (restArguments lam args (.ofList (args.drop lam.args.unnamed.length))) := by
    refine bindings_congr rfl rfl fun hrest => ?_
    simp [restArguments, hrest, isNone_ofList]
  have henter : (enterLambda ctx ref lam args).runFrom w =
      (.ok w.environments.length, enterWorld w (bodyEnvironment (text "lambda-call") ctx ref lam
        (restArguments lam args (.ofList (args.drop lam.args.unnamed.length))))) := by
    have hfits := fits_restArguments (if lam.args.rest ≠ [] ∨ lam.args.varargs = true then
      .ofList (args.drop lam.args.unnamed.length) else .none) h (by
        intro hnil
        simp [hnil, hspec.varargs])
    have hrun := enter_fits (w := w) (.symbol (text "call-lambda"))
      { name := text "lambda-call", parentEnv := lam.parentEnv, isFunction := true,
        ownerFunction := .function ref, ctx := ctx } hfits
    rw [hbind] at hrun
    unfold enterLambda
    rw [if_neg haccept]
    exact hrun
  rw [runFrom_called hlam]
  exact runs_entered henter

theorem called_not_accepts (hlam : w.functions[ref]? = some lam) (hspec : Parsed lam.args)
    (h : ¬ Accepts lam args) :
    ending ((called B n ref ctx args).runFrom w).1 = .error ∧
      ∀ vars, ¬ StartsFrom (enterLambda ctx ref lam args) w vars := by
  have henter : ∃ e u, (enterLambda ctx ref lam args).runFrom w = (.error e, u) ∧
      e ≠ .unfinished := by
    unfold enterLambda
    by_cases haccept : args.length < lam.args.unnamed.length ∨
        (¬ (lam.args.rest ≠ [] ∨ lam.args.varargs = true) ∧
          args.length > lam.args.unnamed.length)
    · rw [if_pos haccept]
      exact ⟨_, _, rfl, by simp [evalError]⟩
    · rw [if_neg haccept]
      refine enter_not_fits (w := w) _ _ fun hfits => h ⟨?_, ?_, ?_⟩
      · by_contra hne
        obtain ⟨x, hx⟩ := List.exists_mem_of_ne_nil _ hne
        exact hfits.named x hx rfl
      · by_contra hlt
        exact haccept (.inl (by omega))
      · intro hnil
        by_contra hne
        refine haccept (.inr ⟨by simp [hnil, hspec.varargs], ?_⟩)
        by_contra hle
        exact haccept (.inl (by omega))
  obtain ⟨e, u, hrun, he⟩ := henter
  rw [runFrom_called hlam, ← ending_error he]
  exact runs_error hrun

theorem fits_values (h : Orders lam args) {values : Arguments} {u : World}
    (hvalues : (evalArgs ev (formArguments lam args) env).runFrom w = (.ok values, u)) :
    Fits lam.args values := by
  obtain ⟨hunnamed, hnamed, hrest⟩ := evalArgs_keeps hvalues
  have hlength : values.unnamed.length = lam.args.unnamed.length := by
    rw [hunnamed]
    simp only [formArguments, List.length_append, List.length_take, List.length_map,
      List.length_drop]
    omega
  have hassigned : ∀ (l : List (Text × NamedArg)) (named : List (Text × Object)) (name : Text),
      (l.foldl (fun named (x : Text × NamedArg) => assign x.1 x.2.defaultValue named) named).any
          (·.1 = name) = (l.any (·.1 = name) || named.any (·.1 = name)) := by
    intro l
    induction l with
    | nil => simp
    | cons x l ih =>
      intro named name
      rw [List.foldl_cons, ih, any_assign, List.any_cons, ← Bool.or_assoc, Bool.or_comm (l.any _)]
  refine ⟨fun _ => hlength, Nat.le_of_eq hlength.symm, ?_, ?_⟩
  · intro x hx hnone
    rw [List.lookup_eq_none_iff] at hnone
    have hany : (formArguments lam args).named.any (·.1 = x.1) = true := by
      have := hassigned lam.args.named [] x.1
      rw [formArguments, this, Bool.or_eq_true]
      exact .inl (List.any_eq_true.mpr ⟨x, hx, by simp⟩)
    obtain ⟨y, hy, heq⟩ := List.any_eq_true.mp hany
    have hmem : y.1 ∈ values.named.map Prod.fst := by
      rw [hnamed]
      exact List.mem_map_of_mem hy
    obtain ⟨z, hz, hzy⟩ := List.mem_map.mp hmem
    have := hnone z hz
    simp only [decide_eq_true_eq] at heq
    simp [hzy, heq] at this
  · intro hnil
    have hle : args.length ≤ lam.args.unnamed.length := by
      by_contra hlt
      exact h.rest (by omega) hnil
    have hnone : values.rest = .none := hrest (by simp [formArguments, hle])
    simp [Arguments.hasRest, hnone, Object.isNone]

theorem formFails_of_orders (h : Orders lam args) :
    FormFails B n w env f ref lam args ↔
      match (evalArgs (evalWithRewind B n) (formArguments lam args) env).runFrom w with
      | (.error e, _) => ending (.error e) = .error
      | (.ok values, w') =>
        bodyEnding B.printing (evalWithRewind B n) w' lam
          (bodyEnvironment (text "lambda-call") (callForm f args) ref lam values) = .error := by
  constructor
  · rintro (⟨p, hp, hfalse⟩ | ⟨hlt, hnil⟩ | ⟨p, hp, hfalse⟩ | hlate)
    · rw [h.optional p hp] at hfalse
      cases hfalse
    · exact absurd hnil (h.rest hlt)
    · rw [h.defaults p hp] at hfalse
      cases hfalse
    · exact hlate
  · exact fun hlate => .inr (.inr (.inr hlate))

theorem formFails_iff (hlam : w.functions[ref]? = some lam) (hspec : Parsed lam.args)
    (hhead : (evalWithRewind B n (.symbol f) env).runFrom w = (.ok (.function ref), w)) :
    FormFails B n w env f ref lam args ↔
      ending ((evaluated B n depth env f args).runFrom w).1 = .error := by
  rw [runFrom_evaluated hlam hhead]
  by_cases h : Orders lam args
  · rw [formFails_of_orders h]
    have hargs : (ofExcept (getArgsWithSpec B.printing (callForm f args)
        (.ofList (args.map quoted)) lam.args) : Eval Arguments).runFrom w =
          (.ok (formArguments lam args), w) := by
      rw [runFrom_ofExcept, getArgsWithSpec_quoted _ hspec h]
    cases hvalues : (evalArgs (evalWithRewind B n) (formArguments lam args) env).runFrom w with
    | mk result u =>
      cases result with
      | error e =>
        have henter : (enterForm B.printing (evalWithRewind B n) (callForm f args)
            (.ofList (args.map quoted)) ref lam env).runFrom w = (.error e, u) := by
          unfold enterForm
          rw [runFrom_bind, hargs]
          simp only
          rw [runFrom_bind, hvalues]
        rw [(runs_error henter).1]
      | ok values =>
        have henter : (enterForm B.printing (evalWithRewind B n) (callForm f args)
            (.ofList (args.map quoted)) ref lam env).runFrom w =
              (.ok u.environments.length, enterWorld u (bodyEnvironment (text "lambda-call")
                (callForm f args) ref lam values)) := by
          unfold enterForm
          rw [runFrom_bind, hargs]
          simp only
          rw [runFrom_bind, hvalues]
          exact enter_fits _ _ (fits_values h hvalues)
        rw [(runs_entered henter).1]
  · have hright : FormFails B n w env f ref lam args := by
      by_contra hfails
      obtain ⟨hoptional, hrest, hdefaults, -⟩ :
          (¬ ∃ parameter ∈ lam.args.unnamed.drop args.length, parameter.isOptional = false) ∧
          (¬ (lam.args.unnamed.length < args.length ∧ lam.args.rest = [])) ∧
          (¬ ∃ parameter ∈ lam.args.named, parameter.2.hasDefault = false) ∧ True := by
        refine ⟨fun hs => hfails (.inl hs), fun hs => hfails (.inr (.inl hs)),
          fun hs => hfails (.inr (.inr (.inl hs))), trivial⟩
      refine h ⟨fun p hp => ?_, fun hlt hnil => hrest ⟨hlt, hnil⟩, fun p hp => ?_⟩
      · by_contra hne
        exact hoptional ⟨p, hp, by simpa using hne⟩
      · by_contra hne
        exact hdefaults ⟨p, hp, by simpa using hne⟩
    refine ⟨fun _ => ?_, fun _ => hright⟩
    obtain ⟨e, he⟩ := getArgsWithSpec_quoted_error (P := B.printing) (callForm f args) hspec h
    have henter : (enterForm B.printing (evalWithRewind B n) (callForm f args)
        (.ofList (args.map quoted)) ref lam env).runFrom w = (.error (.eval e), w) := by
      unfold enterForm
      rw [runFrom_bind, runFrom_ofExcept, he]
    rw [(runs_error henter).1]
    rfl

theorem evaluated_accepts (hlam : w.functions[ref]? = some lam) (hspec : Parsed lam.args)
    (hhead : (evalWithRewind B n (.symbol f) env).runFrom w = (.ok (.function ref), w))
    (hquotes : Quotes (evalWithRewind B n) env w) (h : Accepts lam args) :
    ending ((evaluated B n depth env f args).runFrom w).1 =
        bodyEnding B.printing (evalWithRewind B n) w lam
          (bodyEnvironment (text "lambda-call") (callForm f args) ref lam
            (restArguments lam args (.ofList (args.drop lam.args.unnamed.length)))) ∧
      ∀ vars, StartsFrom (enterForm B.printing (evalWithRewind B n) (callForm f args)
          (.ofList (args.map quoted)) ref lam env) w vars ↔
        vars = bindFrom (fun _ => none) (bindings lam.args
          (restArguments lam args (.ofList (args.drop lam.args.unnamed.length)))) := by
  have horders : Orders lam args := by
    refine ⟨?_, fun hlt hnil => ?_, ?_⟩
    · rw [List.drop_eq_nil_of_le h.2.1]
      simp
    · have := h.2.2 hnil
      omega
    · rw [h.1]
      simp
  have hforms : formArguments lam args =
      { unnamed := (args.take lam.args.unnamed.length).map quoted
        rest := (formArguments lam args).rest } := by
    simp [formArguments, h.1, List.drop_eq_nil_of_le h.2.1, List.map_take]
  have hrest : ∃ rest, (evalRest (evalWithRewind B n) (formArguments lam args).rest env).runFrom w =
      (.ok rest, w) ∧ (if rest.isNone then Object.emptyList else rest) =
        .ofList (args.drop lam.args.unnamed.length) := by
    by_cases hle : args.length ≤ lam.args.unnamed.length
    · refine ⟨.none, ?_, ?_⟩
      · simp [formArguments, hle, evalRest, Object.isPair]
      · rw [List.drop_eq_nil_of_le hle]
        rfl
    · refine ⟨.ofList (args.drop lam.args.unnamed.length), ?_, by simp [isNone_ofList]⟩
      cases hdrop : args.drop lam.args.unnamed.length with
      | nil => exact absurd (List.drop_eq_nil_iff.mp hdrop) hle
      | cons a l =>
        have hpair : (formArguments lam args).rest = .ofList ((a :: l).map quoted) := by
          simp [formArguments, hle, hdrop]
        have hisPair : (Object.ofList ((a :: l).map quoted)).isPair = true := rfl
        rw [hpair, evalRest, if_pos hisPair, Object.elements_ofList, runFrom_bind,
          mapM_quoted hquotes]
        rfl
  obtain ⟨rest, hrun, hrest⟩ := hrest
  have hvalues : (evalArgs (evalWithRewind B n) (formArguments lam args) env).runFrom w =
      (.ok { unnamed := args.take lam.args.unnamed.length, rest := rest }, w) := by
    rw [hforms]
    unfold evalArgs
    rw [runFrom_bind, mapM_quoted hquotes]
    simp only [List.mapM_nil, runFrom_bind, runFrom_pure, hrun]
  have hbind : bindings lam.args { unnamed := args.take lam.args.unnamed.length, rest := rest } =
      bindings lam.args (restArguments lam args (.ofList (args.drop lam.args.unnamed.length))) := by
    refine bindings_congr rfl rfl fun _ => ?_
    simp only [hrest, restArguments, isNone_ofList, Bool.false_eq_true, if_false]
  have henter : (enterForm B.printing (evalWithRewind B n) (callForm f args)
      (.ofList (args.map quoted)) ref lam env).runFrom w =
        (.ok w.environments.length, enterWorld w (bodyEnvironment (text "lambda-call")
          (callForm f args) ref lam
          (restArguments lam args (.ofList (args.drop lam.args.unnamed.length))))) := by
    have hfits := enter_fits (w := w) (callForm f args)
      { name := text "lambda-call", ctx := callForm f args, isFunction := true,
        ownerFunction := .function ref, parentEnv := lam.parentEnv } (fits_values horders hvalues)
    rw [hbind] at hfits
    unfold enterForm
    rw [runFrom_bind, runFrom_ofExcept, getArgsWithSpec_quoted _ hspec horders]
    simp only
    rw [runFrom_bind, hvalues]
    exact hfits
  rw [runFrom_evaluated hlam hhead]
  exact runs_entered henter

theorem not_fits_unnamed
    (h : lam.args.named ≠ [] ∨ args.length < lam.args.unnamed.length ∨
      (lam.args.unnamed.length < args.length ∧ lam.args.rest = [])) :
    ¬ Fits lam.args { unnamed := args } := by
  intro hfits
  rcases h with hnamed | hlt | ⟨hlt, hnil⟩
  · obtain ⟨x, hx⟩ := List.exists_mem_of_ne_nil _ hnamed
    exact hfits.named x hx rfl
  · have := hfits.enough
    simp only at this
    omega
  · have := hfits.same hnil
    simp only at this
    omega

theorem zip_take_length {α β : Type} (l : List α) (l' : List β) :
    l.zip (l'.take l.length) = l.zip l' := by
  induction l generalizing l' with
  | nil => rfl
  | cons a l ih =>
    cases l' with
    | nil => rfl
    | cons b l' => simp [ih]

theorem fits_unnamed (hnamed : lam.args.named = [])
    (hle : lam.args.unnamed.length ≤ args.length)
    (hrest : lam.args.rest = [] → args.length = lam.args.unnamed.length) :
    Fits lam.args { unnamed := args } ∧
      bindings lam.args { unnamed := args } =
        bindings lam.args (restArguments lam args .emptyList) := by
  refine ⟨⟨hrest, hle, by simp [hnamed], fun _ => rfl⟩, ?_⟩
  simp only [bindings, restArguments, zip_take_length, hnamed]
  simp [Object.isNone]

theorem bindFrom_rest {rest : Object} (h : lam.args.rest ≠ []) :
    bindFrom (fun _ => none) (bindings lam.args (restArguments lam args rest)) lam.args.rest =
      some (if rest.isNone then .emptyList else rest) := by
  simp only [bindings, h, if_false, bindFrom_append, restArguments]
  exact Function.update_self _ _ _

/-- The ways of applying a function to arguments are alike exactly on the condition.
SRCLINE: Interpreter.cpp:390-429,662-727,1004-1099,1821-1917,3375-3430 -/
theorem appliedAlike_iff (hlam : w.functions[ref]? = some lam)
    (hdefined : UserDefined B.printing lam) (hn : 2 ≤ n)
    (hname : (Object.symbol f).keywordName = none)
    (hf : w.lookup f env = some (.function ref))
    (hquote : w.lookup (text "quote") env = some (.specialForm .quote)) :
    AppliedAlike B n depth w env f ref lam form ctx args ↔
      Condition B n w env f ref lam form ctx args := by
  have hspec := parsed_of_userDefined hdefined
  have hhead : (evalWithRewind B n (.symbol f) env).runFrom w = (.ok (.function ref), w) :=
    evalWithRewind_symbol (by omega) hname hf
  have hquotes : Quotes (evalWithRewind B n) env w := evalWithRewind_quoted hn hquote
  have hform : FormFails B n w env f ref lam args ↔
      ending ((evaluated B n depth env f args).runFrom w).1 = .error :=
    formFails_iff hlam hspec hhead
  -- keys, or a parameter left out: only the call form can succeed
  by_cases hcall : lam.args.named ≠ [] ∨ args.length < lam.args.unnamed.length
  · have hnot : ¬ Accepts lam args := by
      rintro ⟨hnamed, hle, -⟩
      rcases hcall with hne | hlt
      · exact hne hnamed
      · omega
    have hfits : ¬ Fits lam.args { unnamed := args } :=
      not_fits_unnamed (hcall.imp id .inl)
    obtain ⟨happlied, hstart⟩ :
        ending ((applied B n depth env ref form args).runFrom w).1 = .error ∧ _ :=
      applied_not_fits hlam hfits
    obtain ⟨hcalled, -⟩ : ending ((called B n ref ctx args).runFrom w).1 = .error ∧ _ :=
      called_not_accepts hlam hspec hnot
    constructor
    · rintro (⟨-, -, herror⟩ | ⟨vars, e, ⟨henter, -⟩, -⟩)
      · exact .inr (.inr (.inr ⟨hcall, hform.mpr herror⟩))
      · exact absurd henter (hstart vars)
    · rintro (⟨hnamed, hsame, -⟩ | ⟨hnamed, hlt, -⟩ | ⟨hnamed, hlt, -⟩ | ⟨-, hfails⟩)
      · rcases hcall with hne | hlt
        · exact absurd hnamed hne
        · omega
      · rcases hcall with hne | hlt'
        · exact absurd hnamed hne
        · omega
      · rcases hcall with hne | hlt'
        · exact absurd hnamed hne
        · omega
      · exact .inl ⟨happlied, hcalled, hform.mp hfails⟩
  · obtain ⟨hnamed, hle⟩ := not_or.mp hcall
    have hnamed : lam.args.named = [] := by simpa using hnamed
    have hle : lam.args.unnamed.length ≤ args.length := by omega
    by_cases hmany : lam.args.unnamed.length < args.length ∧ lam.args.rest = []
    -- more arguments than parameters, and no rest list
    · have hfits : ¬ Fits lam.args { unnamed := args } := not_fits_unnamed (.inr (.inr hmany))
      have hnot : ¬ Accepts lam args := fun haccepts => by
        have := haccepts.2.2 hmany.2
        omega
      refine ⟨fun _ => .inr (.inl ⟨hnamed, hmany⟩), fun _ => .inl ⟨?_, ?_, ?_⟩⟩
      · exact (applied_not_fits hlam hfits).1
      · exact (called_not_accepts hlam hspec hnot).1
      · exact hform.mp (.inr (.inl hmany))
    · have hrest : lam.args.rest = [] → args.length = lam.args.unnamed.length := by
        intro hnil
        by_contra hne
        exact hmany ⟨by omega, hnil⟩
      obtain ⟨hfits, hbind⟩ := fits_unnamed hnamed hle hrest
      have haccepts : Accepts lam args := ⟨hnamed, hle, hrest⟩
      obtain ⟨happlied, hstartA⟩ :
          ending ((applied B n depth env ref form args).runFrom w).1 = _ ∧ _ :=
        applied_fits hlam hfits
      obtain ⟨hcalled, hstartC⟩ : ending ((called B n ref ctx args).runFrom w).1 = _ ∧ _ :=
        called_accepts hlam hspec haccepts
      obtain ⟨hevaluated, hstartF⟩ :
          ending ((evaluated B n depth env f args).runFrom w).1 = _ ∧ _ :=
        evaluated_accepts hlam hspec hhead hquotes haccepts
      have hA : bodyEnvironment (text "apply") form ref lam { unnamed := args } =
          bodyEnvironment (text "apply") form ref lam (restArguments lam args .emptyList) := by
        simp only [bodyEnvironment, hbind]
      rw [hA] at happlied
      rw [hbind] at hstartA
      by_cases hsame : args.length = lam.args.unnamed.length
      -- every parameter has its argument
      · have hdrop : args.drop lam.args.unnamed.length = [] :=
          List.drop_eq_nil_of_le (by omega)
        rw [hdrop] at hcalled hstartC hevaluated hstartF
        constructor
        · rintro (⟨hendA, hendC, hendF⟩ | ⟨vars, e, ⟨-, hendA⟩, ⟨-, hendC⟩, ⟨-, hendF⟩⟩)
          · rw [happlied] at hendA
            rw [hcalled] at hendC
            rw [hevaluated] at hendF
            exact .inl ⟨hnamed, hsame, hendA.trans hendC.symm, hendC.trans hendF.symm⟩
          · rw [happlied] at hendA
            rw [hcalled] at hendC
            rw [hevaluated] at hendF
            exact .inl ⟨hnamed, hsame, hendA.trans hendC.symm, hendC.trans hendF.symm⟩
        · rintro (⟨-, -, hAC, hCF⟩ | ⟨-, hlt, -⟩ | ⟨-, hlt, -⟩ | ⟨hor, -⟩)
          · refine .inr ⟨_, _, ⟨(hstartA _).mpr rfl, happlied⟩, ⟨(hstartC _).mpr rfl, ?_⟩,
              ⟨(hstartF _).mpr rfl, ?_⟩⟩
            · exact hcalled.trans hAC.symm
            · exact hevaluated.trans (hCF.symm.trans hAC.symm)
          · omega
          · omega
          · exact absurd hor hcall
      -- `apply` loses the rest list
      · have hlt : lam.args.unnamed.length < args.length := by omega
        have hsome : lam.args.rest ≠ [] := fun hnil => hsame (hrest hnil)
        constructor
        · rintro (⟨hendA, hendC, hendF⟩ | ⟨vars, e, ⟨hA, -⟩, ⟨hC, -⟩, -⟩)
          · rw [happlied] at hendA
            rw [hcalled] at hendC
            rw [hevaluated] at hendF
            exact .inr (.inr (.inl ⟨hnamed, hlt, hsome, hendA, hendC, hendF⟩))
          · have hvars := ((hstartA vars).mp hA).symm.trans ((hstartC vars).mp hC)
            have hvalue := congrFun hvars lam.args.rest
            rw [bindFrom_rest hsome, bindFrom_rest hsome] at hvalue
            cases hdrop : args.drop lam.args.unnamed.length with
            | nil => exact absurd (List.drop_eq_nil_iff.mp hdrop) (by omega)
            | cons a l =>
              rw [hdrop] at hvalue
              cases hvalue
        · rintro (⟨-, heq, -⟩ | ⟨-, -, hnil⟩ | ⟨-, -, -, hendA, hendC, hendF⟩ | ⟨hor, -⟩)
          · omega
          · exact absurd hnil hsome
          · exact .inl ⟨happlied.trans hendA, hcalled.trans hendC, hevaluated.trans hendF⟩
          · exact absurd hor hcall

/-- `quote`, and one function `f`. -/
def quoteAndFunction (name : Text) : Option Object :=
  if name = text "quote" then some (.specialForm .quote)
  else if name = text "f" then some (.function 0)
  else none

/-- A world with them in its only environment. -/
def oneFunction (lam : FunctionObject) : World where
  environments := [{ vars := quoteAndFunction }]
  functions := [lam]

/-- No primitives. -/
def noBuiltins : Builtins where
  printing := ⟨fun _ => [], fun _ => []⟩
  special := fun _ _ _ _ _ => throw .undefinedBehaviour
  specs := fun _ => {}
  isCustom := fun _ => false
  primitive := fun _ _ _ _ _ => throw .undefinedBehaviour
  deref := fun _ => throw .undefinedBehaviour

/-- `(lambda (x) x)`, applied to five. -/
theorem appliedAlike_iff_identity :
    AppliedAlike noBuiltins 3 1 (oneFunction ⟨some 0, .ofList [.symbol (text "x")],
        { unnamed := [⟨text "x", false, .none⟩] }⟩) 0 (text "f") 0
        ⟨some 0, .ofList [.symbol (text "x")], { unnamed := [⟨text "x", false, .none⟩] }⟩
        .emptyList .emptyList [.int 5] ↔
      Condition noBuiltins 3 (oneFunction ⟨some 0, .ofList [.symbol (text "x")],
        { unnamed := [⟨text "x", false, .none⟩] }⟩) 0 (text "f") 0
        ⟨some 0, .ofList [.symbol (text "x")], { unnamed := [⟨text "x", false, .none⟩] }⟩
        .emptyList .emptyList [.int 5] :=
  appliedAlike_iff rfl
    ⟨.emptyList, .ofList [.symbol (text "x")], by
      have hrest : ¬ (some (text "x") = some (text "&rest")) := by with_unfolding_all decide
      have hkey : ¬ (some (text "x") = some (text "&key")) := by with_unfolding_all decide
      have hoptional : ¬ (some (text "x") = some (text "&optional")) := by with_unfolding_all decide
      simp [parseArgSpec, Object.ofList, parseArgSpecFrom, Object.symbolName, hrest, hkey,
        hoptional]⟩
    (by omega) (by with_unfolding_all decide) (by with_unfolding_all rfl)
    (by with_unfolding_all rfl)

/-- `(lambda (&rest r) r)`, applied to one: `apply` returns the empty list. -/
theorem not_appliedAlike :
    ¬ AppliedAlike noBuiltins 3 1 (oneFunction ⟨some 0, .ofList [.symbol (text "r")],
        { rest := text "r" }⟩) 0 (text "f") 0
        ⟨some 0, .ofList [.symbol (text "r")], { rest := text "r" }⟩
        .emptyList .emptyList [.int 1] := by
  have happlied : ending ((applied noBuiltins 3 1 0 0 .emptyList [.int 1]).runFrom
      (oneFunction ⟨some 0, .ofList [.symbol (text "r")], { rest := text "r" }⟩)).1 =
        .value .emptyList := by
    rw [runFrom_applied rfl]
    with_unfolding_all rfl
  have hcalled : ending ((called noBuiltins 3 0 .emptyList [.int 1]).runFrom
      (oneFunction ⟨some 0, .ofList [.symbol (text "r")], { rest := text "r" }⟩)).1 =
        .value (.pair (.int 1) .emptyList) := by
    with_unfolding_all rfl
  rintro (⟨herror, -, -⟩ | ⟨vars, e, ⟨-, hA⟩, ⟨-, hC⟩, -⟩)
  · rw [happlied] at herror
    cases herror
  · rw [happlied] at hA
    rw [hcalled, ← hA] at hC
    cases hC

end Soot.Analysis.Script
