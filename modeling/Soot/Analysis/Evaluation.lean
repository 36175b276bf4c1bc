import Soot.Model.Source

/-!
# Facts about the evaluation

An evaluation that meets no hazard is the evaluation without the guard, so what is proved about
the emitted code for the guarded evaluation holds for the plain one wherever no hazard is met.
An evaluation leaves alone the variables its tree does not assign.
-/

set_option autoImplicit false

namespace Soot.Analysis

open Soot.Program Soot.Model

/-- The guarded outcome is a hazard, or the outcome without the guard. -/
def Guards (o o' : Outcome) : Prop := o = .hazard ∨ o = o'

theorem Guards.refl (o : Outcome) : Guards o o := Or.inr rfl

theorem Guards.bind {o o' : Outcome} {k k' : Val → Env → Outcome} (h : Guards o o')
    (hk : ∀ v env, Guards (k v env) (k' v env)) : Guards (o.bind k) (o'.bind k') := by
  rcases h with rfl | rfl
  · exact Or.inl rfl
  · cases o with
    | value v env => exact hk v env
    | returned v env => exact Or.inr rfl
    | error kind => exact Or.inr rfl
    | unspecified => exact Or.inr rfl
    | hazard => exact Or.inr rfl
    | outOfFuel => exact Or.inr rfl

theorem Guards.bindSpecified {o o' : Outcome} {k k' : Variant → Env → Outcome}
    (h : Guards o o') (hk : ∀ v env, Guards (k v env) (k' v env)) :
    Guards (o.bindSpecified k) (o'.bindSpecified k') := by
  refine h.bind ?_
  intro v env
  cases v with
  | none => exact Or.inr rfl
  | some x => exact hk x env

theorem Guards.guarded {P : Prop} [Decidable P] {o o' : Outcome} (h : Guards o o') :
    Guards (.guarded true P o) (.guarded false P o') := by
  unfold Outcome.guarded
  rw [if_neg (show ¬ (false = true ∧ P) by simp)]
  by_cases hP : P
  · exact Or.inl (if_pos ⟨rfl, hP⟩)
  · rw [if_neg fun hh => hP hh.2]
    exact h

section Eval

variable {fpu : FloatUnit}

theorem guards_operands {left : Node} {op : Variant → Variant → Except VmErrorKind Variant}
    {isHazard : Variant → Variant → Bool} {l l' r r' : Evaluation}
    (hl : ∀ env, Guards (l env) (l' env)) (hr : ∀ env, Guards (r env) (r' env)) (env : Env) :
    Guards (evalOperands true left op isHazard l r env)
      (evalOperands false left op isHazard l' r' env) := by
  refine (hl env).bind fun v env₁ => (hr env₁).bindSpecified fun y env₂ => ?_
  cases v with
  | none => exact Guards.refl _
  | some x => exact Guards.guarded (Guards.refl _)

theorem guards_unary {op : Variant → Except VmErrorKind Variant} {e e' : Evaluation}
    (he : ∀ env, Guards (e env) (e' env)) (env : Env) :
    Guards (evalUnary op e env) (evalUnary op e' env) :=
  (he env).bindSpecified fun _ _ => Guards.refl _

theorem guards_if {th : Node} {en : Option Node} {c c' t t' : Evaluation}
    {e e' : Option Evaluation} (hc : ∀ env, Guards (c env) (c' env))
    (ht : ∀ env, Guards (t env) (t' env)) (hsome : e.isSome = e'.isSome)
    (he : ∀ x ∈ e, ∀ x' ∈ e', ∀ env, Guards (x env) (x' env)) (env : Env) :
    Guards (evalIf fpu true th en c t e env) (evalIf fpu false th en c' t' e' env) := by
  refine (hc env).bindSpecified fun v env₁ => ?_
  by_cases hv : v.toBool fpu = true
  · rw [if_pos hv, if_pos hv]
    exact ht env₁
  · rw [if_neg hv, if_neg hv]
    cases en with
    | none => exact Guards.refl _
    | some n =>
      cases e with
      | none =>
        cases e' with
        | none => exact Guards.refl _
        | some x' => cases hsome
      | some x =>
        cases e' with
        | none => cases hsome
        | some x' =>
          exact (he x rfl x' rfl env₁).bind fun _ _ => Guards.guarded (Guards.refl _)

theorem guards_loop {c c' b b' : Evaluation} (hc : ∀ env, Guards (c env) (c' env))
    (hb : ∀ env, Guards (b env) (b' env)) (n : ℕ) (env : Env) :
    Guards (evalLoop fpu c b n env) (evalLoop fpu c' b' n env) := by
  induction n generalizing env with
  | zero => exact Guards.refl _
  | succ n ih =>
    refine (hc env).bindSpecified fun v env₁ => ?_
    by_cases hv : v.toBool fpu = true
    · rw [if_pos hv, if_pos hv]
      exact (hb env₁).bind fun _ env₂ => ih env₂
    · rw [if_neg hv, if_neg hv]
      exact Guards.refl _

theorem guards_bindings {fuel : ℕ} {bs : List (String × Node)} {k k' : Env → Outcome}
    (hbs : ∀ p ∈ bs, ∀ env, Guards (eval fpu true fuel p.2 env) (eval fpu false fuel p.2 env))
    (hk : ∀ env, Guards (k env) (k' env)) (env : Env) :
    Guards (evalBindings (evals₂ fpu true fuel bs) k env)
      (evalBindings (evals₂ fpu false fuel bs) k' env) := by
  induction bs generalizing env with
  | nil => exact hk env
  | cons p bs ih =>
    obtain ⟨hp, hps⟩ := List.forall_mem_cons.mp hbs
    exact (hp env).bind fun v env₁ => ih hps _

theorem guards_sequence {fuel : ℕ} {ns : List Node}
    (hns : ∀ n ∈ ns, ∀ env, Guards (eval fpu true fuel n env) (eval fpu false fuel n env))
    (v : Val) (env : Env) :
    Guards (evalSequence (evals fpu true fuel ns) v env)
      (evalSequence (evals fpu false fuel ns) v env) := by
  induction ns generalizing v env with
  | nil => exact Guards.refl _
  | cons n ns ih =>
    obtain ⟨hn, hrest⟩ := List.forall_mem_cons.mp hns
    exact (hn env).bind fun v₁ env₁ => ih hrest v₁ env₁

theorem guards_eval {declared : String → Prop} {n : Node} (hn : Computes declared n) (fuel : ℕ)
    (env : Env) : Guards (eval fpu true fuel n env) (eval fpu false fuel n env) := by
  induction hn generalizing env with
  | constInt v => exact Guards.refl _
  | variableNode type isHeap elemType hx => exact Guards.refl _
  | binaryNode op _ _ ihl ihr => exact guards_operands ihl ihr env
  | compareNode op _ _ ihl ihr => exact guards_operands ihl ihr env
  | unaryNode op _ ihe => exact guards_unary ihe env
  | ifThen _ _ ihc iht => exact guards_if ihc iht rfl (by simp) env
  | ifElse _ _ _ ihc iht ihe =>
    refine guards_if ihc iht (by rfl) ?_ env
    intro x hx x' hx'
    obtain rfl := Option.mem_some.mp hx
    obtain rfl := Option.mem_some.mp hx'
    exact ihe
  | whileNode label _ _ ihc ihb => exact guards_loop ihc ihb fuel env
  | letNode _ _ _ ihbs ihb => exact guards_bindings ihbs ihb env
  | setVariable hx _ ihv => exact (ihv env).bind fun _ _ => Guards.refl _
  | sequenceNode _ ih => exact guards_sequence ih none env
  | returnVoid => exact Guards.refl _
  | returnValue _ ihv => exact (ihv env).bind fun _ _ => Guards.refl _

theorem guards_evalBody {declared : String → Prop} {n : Node} (hn : Computes declared n)
    (fuel : ℕ) (env : Env) :
    Guards (evalBody fpu true fuel n env) (evalBody fpu false fuel n env) :=
  (guards_eval hn fuel env).bind fun _ _ => Guards.guarded (Guards.refl _)

end Eval

/-! ## Variables that are not assigned -/

/-- The variable still has its value where the evaluation ends. -/
def Leaves (x : String) (env : Env) : Outcome → Prop
  | .value _ env' => env' x = env x
  | .returned _ env' => env' x = env x
  | _ => True

theorem Leaves.bind {x : String} {env : Env} {o : Outcome} {k : Val → Env → Outcome}
    (h : Leaves x env o) (hk : ∀ v env', env' x = env x → Leaves x env (k v env')) :
    Leaves x env (o.bind k) := by
  cases o with
  | value v env' => exact hk v env' h
  | returned v env' => exact h
  | error kind => trivial
  | unspecified => trivial
  | hazard => trivial
  | outOfFuel => trivial

theorem Leaves.bindSpecified {x : String} {env : Env} {o : Outcome}
    {k : Variant → Env → Outcome} (h : Leaves x env o)
    (hk : ∀ v env', env' x = env x → Leaves x env (k v env')) :
    Leaves x env (o.bindSpecified k) := by
  refine h.bind ?_
  intro v env' henv
  cases v with
  | none => trivial
  | some y => exact hk y env' henv

theorem Leaves.of_eq {x : String} {env env' : Env} {o : Outcome} (h : Leaves x env' o)
    (henv : env' x = env x) : Leaves x env o := by
  cases o with
  | value v env₁ => exact Eq.trans h henv
  | returned v env₁ => exact Eq.trans h henv
  | error kind => trivial
  | unspecified => trivial
  | hazard => trivial
  | outOfFuel => trivial

theorem Leaves.guarded {x : String} {env : Env} {o : Outcome} {guard : Bool} {P : Prop}
    [Decidable P] (h : Leaves x env o) : Leaves x env (.guarded guard P o) := by
  unfold Outcome.guarded
  split
  · trivial
  · exact h

theorem leaves_ofExcept {x : String} {env env' : Env} (henv : env' x = env x)
    (e : Except VmErrorKind Variant) : Leaves x env (.ofExcept env' e) := by
  cases e with
  | ok v => exact henv
  | error kind => trivial

section Assigned

variable {fpu : FloatUnit} {guard : Bool} {x : String}

theorem leaves_operands {left : Node} {op : Variant → Variant → Except VmErrorKind Variant}
    {isHazard : Variant → Variant → Bool} {l r : Evaluation} (hl : ∀ env, Leaves x env (l env))
    (hr : ∀ env, Leaves x env (r env)) (env : Env) :
    Leaves x env (evalOperands guard left op isHazard l r env) := by
  refine (hl env).bind fun v env₁ h₁ => ((hr env₁).of_eq h₁).bindSpecified fun y env₂ h₂ => ?_
  cases v with
  | none => trivial
  | some z => exact Leaves.guarded (leaves_ofExcept h₂ _)

theorem leaves_if {th : Node} {en : Option Node} {c t : Evaluation} {e : Option Evaluation}
    (hc : ∀ env, Leaves x env (c env)) (ht : ∀ env, Leaves x env (t env))
    (he : ∀ ev ∈ e, ∀ env, Leaves x env (ev env)) (env : Env) :
    Leaves x env (evalIf fpu guard th en c t e env) := by
  refine (hc env).bindSpecified fun v env₁ h₁ => ?_
  by_cases hv : v.toBool fpu = true
  · rw [if_pos hv]
    exact (ht env₁).of_eq h₁
  · rw [if_neg hv]
    cases en with
    | none => exact h₁
    | some n =>
      cases e with
      | none => exact h₁
      | some ev =>
        exact ((he ev rfl env₁).of_eq h₁).bind fun _ _ h₂ => Leaves.guarded h₂

theorem leaves_loop {c b : Evaluation} (hc : ∀ env, Leaves x env (c env))
    (hb : ∀ env, Leaves x env (b env)) (n : ℕ) (env : Env) :
    Leaves x env (evalLoop fpu c b n env) := by
  induction n generalizing env with
  | zero => trivial
  | succ n ih =>
    refine (hc env).bindSpecified fun v env₁ h₁ => ?_
    by_cases hv : v.toBool fpu = true
    · rw [if_pos hv]
      exact ((hb env₁).of_eq h₁).bind fun _ env₂ h₂ => (ih env₂).of_eq h₂
    · rw [if_neg hv]
      exact h₁

theorem leaves_bindings {fuel : ℕ} {bs : List (String × Node)} {k : Env → Outcome}
    (hbs : ∀ p ∈ bs, x ∉ assigned p.2 → ∀ env, Leaves x env (eval fpu guard fuel p.2 env))
    (hx : x ∉ assignedBindings bs) (hk : ∀ env, Leaves x env (k env)) (env : Env) :
    Leaves x env (evalBindings (evals₂ fpu guard fuel bs) k env) := by
  induction bs generalizing env with
  | nil => exact hk env
  | cons p bs ih =>
    obtain ⟨y, n⟩ := p
    obtain ⟨hp, hps⟩ := List.forall_mem_cons.mp hbs
    simp only [assignedBindings, List.cons_append, List.mem_cons, List.mem_append, not_or] at hx
    obtain ⟨hne, hn, hrest⟩ := hx
    refine (hp hn env).bind fun v env₁ h₁ => (ih hps hrest _).of_eq ?_
    rw [Function.update_of_ne hne]
    exact h₁

theorem leaves_sequence {fuel : ℕ} {ns : List Node}
    (hns : ∀ n ∈ ns, x ∉ assigned n → ∀ env, Leaves x env (eval fpu guard fuel n env))
    (hx : x ∉ assignedEach ns) (v : Val) (env : Env) :
    Leaves x env (evalSequence (evals fpu guard fuel ns) v env) := by
  induction ns generalizing v env with
  | nil => exact rfl
  | cons n ns ih =>
    obtain ⟨hn, hrest⟩ := List.forall_mem_cons.mp hns
    simp only [assignedEach, List.mem_append, not_or] at hx
    exact (hn hx.1 env).bind fun v₁ env₁ h₁ => (ih hrest hx.2 v₁ env₁).of_eq h₁

theorem leaves_eval {declared : String → Prop} {n : Node} (hn : Computes declared n) (fuel : ℕ)
    (hx : x ∉ assigned n) (env : Env) : Leaves x env (eval fpu guard fuel n env) := by
  induction hn generalizing env with
  | constInt v => exact rfl
  | variableNode type isHeap elemType _ => exact rfl
  | binaryNode op _ _ ihl ihr =>
    obtain ⟨hl, hr⟩ := not_or.mp (List.mem_append.not.mp hx)
    exact leaves_operands (ihl hl) (ihr hr) env
  | compareNode op _ _ ihl ihr =>
    obtain ⟨hl, hr⟩ := not_or.mp (List.mem_append.not.mp hx)
    exact leaves_operands (ihl hl) (ihr hr) env
  | unaryNode op _ ihe =>
    exact (ihe hx env).bindSpecified fun v env₁ h₁ => leaves_ofExcept h₁ _
  | ifThen _ _ ihc iht =>
    obtain ⟨hc, ht⟩ := not_or.mp (List.mem_append.not.mp hx)
    exact leaves_if (ihc hc) (iht ht) (by simp) env
  | ifElse _ _ _ ihc iht ihe =>
    simp only [assigned, List.mem_append, not_or] at hx
    refine leaves_if (ihc hx.1.1) (iht hx.1.2) ?_ env
    intro ev hev
    obtain rfl := Option.mem_some.mp hev
    exact ihe hx.2
  | whileNode label _ _ ihc ihb =>
    obtain ⟨hc, hb⟩ := not_or.mp (List.mem_append.not.mp hx)
    exact leaves_loop (ihc hc) (ihb hb) fuel env
  | letNode _ _ _ ihbs ihb =>
    obtain ⟨hbs, hb⟩ := not_or.mp (List.mem_append.not.mp hx)
    exact leaves_bindings ihbs hbs (ihb hb) env
  | setVariable _ _ ihv =>
    obtain ⟨hne, hv⟩ := not_or.mp (List.mem_cons.not.mp hx)
    refine (ihv hv env).bind fun v env₁ h₁ => ?_
    show Function.update env₁ _ v x = env x
    rw [Function.update_of_ne hne]
    exact h₁
  | sequenceNode _ ih => exact leaves_sequence ih hx none env
  | returnVoid => exact rfl
  | returnValue _ ihv => exact (ihv hx env).bind fun _ _ h₁ => h₁

theorem leaves_evalBody {declared : String → Prop} {n : Node} (hn : Computes declared n)
    (fuel : ℕ) (hx : x ∉ assigned n) (env : Env) :
    Leaves x env (evalBody fpu guard fuel n env) :=
  (leaves_eval hn fuel hx env).bind fun _ _ h => Leaves.guarded h

end Assigned

theorem evalBody_ne_value (fpu : FloatUnit) (guard : Bool) (fuel : ℕ) (n : Node) (env env' : Env)
    (v : Val) : evalBody fpu guard fuel n env ≠ .value v env' := by
  unfold evalBody Outcome.bind Outcome.guarded
  intro h
  cases ho : eval fpu guard fuel n env with
  | value w env₁ =>
    rw [ho] at h
    dsimp only at h
    split at h <;> cases h
  | returned w env₁ =>
    rw [ho] at h
    cases h
  | error kind =>
    rw [ho] at h
    cases h
  | unspecified =>
    rw [ho] at h
    cases h
  | hazard =>
    rw [ho] at h
    cases h
  | outOfFuel =>
    rw [ho] at h
    cases h

end Soot.Analysis
