import Mathlib.Tactic.Common

/-!
# Computations that record what they do

A computation on a state that may stop early and that records, before each step worth naming,
the step and the state it is taken in. A computation *meets* a postcondition from a state when,
provided every step it records satisfies a condition, every step it records keeps a promise, and
where it ends the postcondition holds. Conditions and promises speak of a step and the state
before it, so the rules follow a computation step by step, and the condition on a step may be
used from that step on.
-/

set_option autoImplicit false

namespace Soot.Computation

/-- How a computation went: its result or why it stopped, the state it left, and the steps it
recorded, in order, each with the state before it. -/
structure Run (κ ι ε α : Type) where
  result : Except ε α
  state : κ
  steps : List (ι × κ)

/-- A computation on a state that records its steps and may stop. -/
def Recording (κ ι ε α : Type) := κ → Run κ ι ε α

namespace Recording

variable {κ ι ε α β : Type}

instance : Monad (Recording κ ι ε) where
  pure a := fun k => ⟨.ok a, k, []⟩
  bind x f := fun k =>
    match (x k).result with
    | .error e => ⟨.error e, (x k).state, (x k).steps⟩
    | .ok a =>
      ⟨(f a (x k).state).result, (f a (x k).state).state,
        (x k).steps ++ (f a (x k).state).steps⟩

def observe : Recording κ ι ε κ := fun k => ⟨.ok k, k, []⟩

def change (f : κ → κ) : Recording κ ι ε Unit := fun k => ⟨.ok (), f k, []⟩

def note (a : ι) : Recording κ ι ε Unit := fun k => ⟨.ok (), k, [(a, k)]⟩

def stop (e : ε) : Recording κ ι ε α := fun k => ⟨.error e, k, []⟩

def forEach (f : α → Recording κ ι ε Unit) : List α → Recording κ ι ε Unit
  | [] => pure ()
  | a :: l => do
    f a
    forEach f l

theorem bind_of_ok {x : Recording κ ι ε α} {f : α → Recording κ ι ε β} {k : κ} {a : α}
    (h : (x k).result = .ok a) : (x >>= f) k =
      ⟨(f a (x k).state).result, (f a (x k).state).state,
        (x k).steps ++ (f a (x k).state).steps⟩ := by
  show (match (x k).result with
    | .error e => (⟨.error e, (x k).state, (x k).steps⟩ : Run κ ι ε β)
    | .ok a => ⟨(f a (x k).state).result, (f a (x k).state).state,
        (x k).steps ++ (f a (x k).state).steps⟩) = _
  rw [h]

theorem bind_of_error {x : Recording κ ι ε α} {f : α → Recording κ ι ε β} {k : κ} {e : ε}
    (h : (x k).result = .error e) : (x >>= f) k = ⟨.error e, (x k).state, (x k).steps⟩ := by
  show (match (x k).result with
    | .error e => (⟨.error e, (x k).state, (x k).steps⟩ : Run κ ι ε β)
    | .ok a => ⟨(f a (x k).state).result, (f a (x k).state).state,
        (x k).steps ++ (f a (x k).state).steps⟩) = _
  rw [h]

/-! ## Ending with a result -/

def Ends (x : Recording κ ι ε α) (k : κ) (a : α) (t : κ) : Prop :=
  (x k).result = .ok a ∧ (x k).state = t

section Ending

variable {k t u : κ}

theorem ends_pure (a : α) : Ends (pure a : Recording κ ι ε α) k a k := ⟨rfl, rfl⟩

theorem ends_observe : Ends (observe : Recording κ ι ε κ) k k k := ⟨rfl, rfl⟩

theorem ends_change (f : κ → κ) : Ends (change f : Recording κ ι ε Unit) k () (f k) := ⟨rfl, rfl⟩

theorem ends_note (a : ι) : Ends (note a : Recording κ ι ε Unit) k () k := ⟨rfl, rfl⟩

theorem ends_bind {x : Recording κ ι ε α} {f : α → Recording κ ι ε β} {a : α} {b : β}
    (hx : Ends x k a t) (hf : Ends (f a) t b u) : Ends (x >>= f) k b u := by
  obtain ⟨hresult, rfl⟩ := hx
  rw [Ends, bind_of_ok hresult]
  exact hf

theorem Ends.of_bind {x : Recording κ ι ε α} {f : α → Recording κ ι ε β} {b : β}
    (h : Ends (x >>= f) k b u) : ∃ a t, Ends x k a t ∧ Ends (f a) t b u := by
  obtain ⟨hresult, hstate⟩ := h
  cases hx : (x k).result with
  | error e =>
    rw [bind_of_error hx] at hresult
    cases hresult
  | ok a =>
    rw [bind_of_ok hx] at hresult hstate
    exact ⟨a, (x k).state, ⟨hx, rfl⟩, hresult, hstate⟩

end Ending

/-! ## Meeting a postcondition -/

/-- From a state, when every step recorded satisfies `C`: every step recorded keeps `P`, a
result is as `Q` says, and a stop as `E` says. -/
def Meets (C P : ι → κ → Prop) (E : ε → Prop) (x : Recording κ ι ε α) (k : κ)
    (Q : α → κ → Prop) : Prop :=
  (∀ step ∈ (x k).steps, C step.1 step.2) → (∀ step ∈ (x k).steps, P step.1 step.2) ∧
    match (x k).result with
    | .ok a => Q a (x k).state
    | .error e => E e

section Rules

variable {C P : ι → κ → Prop} {E : ε → Prop} {k : κ}

theorem meets_pure {Q : α → κ → Prop} {a : α} (h : Q a k) :
    Meets C P E (pure a : Recording κ ι ε α) k Q :=
  fun _ => ⟨by simp [pure], h⟩

theorem meets_stop {Q : α → κ → Prop} {e : ε} (h : E e) :
    Meets C P E (stop e : Recording κ ι ε α) k Q :=
  fun _ => ⟨by simp [stop], h⟩

theorem meets_observe {Q : κ → κ → Prop} (h : Q k k) :
    Meets C P E (observe : Recording κ ι ε κ) k Q :=
  fun _ => ⟨by simp [observe], h⟩

theorem meets_change {f : κ → κ} {Q : Unit → κ → Prop} (h : Q () (f k)) :
    Meets C P E (change f : Recording κ ι ε Unit) k Q :=
  fun _ => ⟨by simp [change], h⟩

theorem meets_note {a : ι} {Q : Unit → κ → Prop} (h : C a k → P a k ∧ Q () k) :
    Meets C P E (note a : Recording κ ι ε Unit) k Q := by
  intro hsteps
  obtain ⟨hp, hq⟩ := h (hsteps (a, k) (by simp [note]))
  exact ⟨by simpa [note] using hp, hq⟩

theorem meets_bind {x : Recording κ ι ε α} {f : α → Recording κ ι ε β} {Q : β → κ → Prop}
    (h : Meets C P E x k fun a t => Meets C P E (f a) t Q) : Meets C P E (x >>= f) k Q := by
  intro hsteps
  cases hresult : (x k).result with
  | error e =>
    rw [bind_of_error hresult] at hsteps ⊢
    obtain ⟨hp, he⟩ := h hsteps
    rw [hresult] at he
    exact ⟨hp, he⟩
  | ok a =>
    rw [bind_of_ok hresult] at hsteps ⊢
    obtain ⟨hp, hf⟩ := h fun step hstep => hsteps step (List.mem_append_left _ hstep)
    rw [hresult] at hf
    obtain ⟨hp', hq⟩ := hf fun step hstep => hsteps step (List.mem_append_right _ hstep)
    refine ⟨?_, hq⟩
    intro step hstep
    rcases List.mem_append.mp hstep with hstep | hstep
    · exact hp step hstep
    · exact hp' step hstep

theorem Meets.mono {x : Recording κ ι ε α} {Q Q' : α → κ → Prop} (h : Meets C P E x k Q)
    (hQ : ∀ a t, Q a t → Q' a t) : Meets C P E x k Q' := by
  intro hsteps
  obtain ⟨hp, hq⟩ := h hsteps
  refine ⟨hp, ?_⟩
  cases hresult : (x k).result with
  | error e =>
    rw [hresult] at hq
    exact hq
  | ok a =>
    rw [hresult] at hq
    exact hQ a _ hq

theorem Meets.result {x : Recording κ ι ε α} {Q : α → κ → Prop} (h : Meets C P E x k Q)
    (hsteps : ∀ step ∈ (x k).steps, C step.1 step.2) {a : α} (hresult : (x k).result = .ok a) :
    Q a (x k).state := by
  have hq := (h hsteps).2
  rw [hresult] at hq
  exact hq

theorem meets_forEach {f : α → Recording κ ι ε Unit} {I : List α → κ → Prop}
    (hround : ∀ a l k, I (a :: l) k → Meets C P E (f a) k fun _ t => I l t) {l : List α}
    (h : I l k) : Meets C P E (forEach f l) k fun _ t => I [] t := by
  induction l generalizing k with
  | nil => exact meets_pure h
  | cons a l ih =>
    rw [forEach]
    refine meets_bind ((hround a l k h).mono ?_)
    intro _ t ht
    exact ih ht

/-! ## Keeping an invariant -/

variable {I : κ → Prop} {R : κ → κ → Prop}

end Rules

end Recording

end Soot.Computation
