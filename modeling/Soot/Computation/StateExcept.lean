import Mathlib.Tactic.Common

/-!
# Stateful computations that may throw

Inversion rules for `StateT σ (Except ε)`: what a successful run of a compound computation
says about the runs of its parts. A relation between the state before and the state after is
*preserved* by a computation when every successful run respects it; the rules lift a
reflexive and transitive relation from the primitives of a development to everything built
from them by sequencing.
-/

set_option autoImplicit false

namespace Soot.Computation

variable {σ ε α β : Type}

theorem except_bind_eq_ok {x : Except ε α} {f : α → Except ε β} {b : β} :
    (x >>= f) = .ok b ↔ ∃ a, x = .ok a ∧ f a = .ok b := by
  cases x with
  | error e =>
    constructor
    · intro h
      cases h
    · rintro ⟨a, h, -⟩
      cases h
  | ok a =>
    constructor
    · intro h
      exact ⟨a, rfl, h⟩
    · rintro ⟨a', h, hf⟩
      cases h
      exact hf

theorem bind_eq_ok {x : StateT σ (Except ε) α} {f : α → StateT σ (Except ε) β} {s u : σ}
    {b : β} :
    (x >>= f) s = .ok (b, u) ↔ ∃ a t, x s = .ok (a, t) ∧ f a t = .ok (b, u) := by
  show (x s >>= fun p => f p.1 p.2) = .ok (b, u) ↔ _
  cases hx : x s with
  | error e =>
    constructor
    · intro h
      cases h
    · rintro ⟨a, t, h, -⟩
      cases h
  | ok p =>
    constructor
    · intro h
      exact ⟨p.1, p.2, rfl, h⟩
    · rintro ⟨a, t, h, hf⟩
      cases h
      exact hf

theorem bind_of_ok {x : StateT σ (Except ε) α} {f : α → StateT σ (Except ε) β} {s t : σ} {a : α}
    (h : x s = .ok (a, t)) : (x >>= f) s = f a t := by
  show (x s >>= fun p => f p.1 p.2) = _
  rw [h]
  rfl

theorem bind_of_error {x : StateT σ (Except ε) α} {f : α → StateT σ (Except ε) β} {s : σ} {e : ε}
    (h : x s = .error e) : (x >>= f) s = .error e := by
  show (x s >>= fun p => f p.1 p.2) = _
  rw [h]
  rfl

theorem map_eq_ok {x : StateT σ (Except ε) α} {f : α → β} {s u : σ} {b : β} :
    (f <$> x) s = .ok (b, u) ↔ ∃ a, x s = .ok (a, u) ∧ f a = b := by
  have hmap : f <$> x = x >>= fun a => pure (f a) := rfl
  rw [hmap, bind_eq_ok]
  constructor
  · rintro ⟨a, t, hx, hp⟩
    cases hp
    exact ⟨a, hx, rfl⟩
  · rintro ⟨a, hx, rfl⟩
    exact ⟨a, u, hx, rfl⟩

theorem pure_eq_ok {a b : α} {s t : σ} :
    (pure a : StateT σ (Except ε) α) s = .ok (b, t) ↔ a = b ∧ s = t := by
  show Except.ok (a, s) = .ok (b, t) ↔ _
  simp

theorem throw_ne_ok {e : ε} {b : α} {s t : σ} :
    ¬ (throw e : StateT σ (Except ε) α) s = .ok (b, t) := by
  intro h
  cases h

theorem get_eq_ok {a s t : σ} :
    (get : StateT σ (Except ε) σ) s = .ok (a, t) ↔ s = a ∧ s = t := by
  show Except.ok (s, s) = .ok (a, t) ↔ _
  simp

theorem modify_eq_ok {f : σ → σ} {u : PUnit} {s t : σ} :
    (modify f : StateT σ (Except ε) PUnit) s = .ok (u, t) ↔ f s = t := by
  show Except.ok (PUnit.unit, f s) = .ok (u, t) ↔ _
  simp

/-- Every successful run of `x` relates the state before to the state after. -/
def Preserves (R : σ → σ → Prop) (x : StateT σ (Except ε) α) : Prop :=
  ∀ ⦃s a t⦄, x s = .ok (a, t) → R s t

namespace Preserves

variable {R : σ → σ → Prop}

theorem pure (hrefl : ∀ s, R s s) (a : α) :
    Preserves R (Pure.pure a : StateT σ (Except ε) α) := by
  intro s b t h
  obtain ⟨-, rfl⟩ := pure_eq_ok.mp h
  exact hrefl s

theorem throw (e : ε) : Preserves R (MonadExcept.throw e : StateT σ (Except ε) α) := by
  intro s b t h
  exact absurd h throw_ne_ok

theorem get (hrefl : ∀ s, R s s) : Preserves R (MonadState.get : StateT σ (Except ε) σ) := by
  intro s b t h
  obtain ⟨-, rfl⟩ := get_eq_ok.mp h
  exact hrefl s

theorem modify {f : σ → σ} (hf : ∀ s, R s (f s)) :
    Preserves R (modify f : StateT σ (Except ε) PUnit) := by
  intro s b t h
  obtain rfl := modify_eq_ok.mp h
  exact hf s

theorem bind (htrans : ∀ ⦃s t u⦄, R s t → R t u → R s u) {x : StateT σ (Except ε) α}
    {f : α → StateT σ (Except ε) β} (hx : Preserves R x) (hf : ∀ a, Preserves R (f a)) :
    Preserves R (x >>= f) := by
  intro s b u h
  obtain ⟨a, t, hxs, hft⟩ := bind_eq_ok.mp h
  exact htrans (hx hxs) (hf a hft)

theorem map {x : StateT σ (Except ε) α} (f : α → β) (hx : Preserves R x) :
    Preserves R (f <$> x) := by
  intro s b t h
  obtain ⟨a, hxs, -⟩ := map_eq_ok.mp h
  exact hx hxs

end Preserves

end Soot.Computation
