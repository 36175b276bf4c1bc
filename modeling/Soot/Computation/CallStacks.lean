import Mathlib.Tactic.Common

/-!
# Stacks of frames

A stack of frames, innermost first. A step changes the innermost frame, or pushes a frame on it, or
takes it away and changes the frame below; a change keeps a relation between the frame before and
after. While a stack stays above a height, the frames below the height are as they were, and the
frame at the height has only changed as the relation allows.
-/

set_option autoImplicit false

namespace Soot.Computation

variable {φ σ : Type*}

/-- A step of a stack, in which a frame changes only as `keeps` allows. -/
inductive StackStep (keeps : φ → φ → Prop) : List φ → List φ → Prop
  | change {f g : φ} (below : List φ) (h : keeps f g) : StackStep keeps (f :: below) (g :: below)
  | call {f g : φ} (callee : φ) (below : List φ) (h : keeps f g) :
      StackStep keeps (f :: below) (callee :: g :: below)
  | leave {p g : φ} (f : φ) (below : List φ) (h : keeps p g) :
      StackStep keeps (f :: p :: below) (g :: below)

/-- A stack that has a frame, as it may have changed, on some frames that have not. -/
def StandsOn (keeps : φ → φ → Prop) (g : φ) (below stack : List φ) : Prop :=
  ∃ inner h, stack = inner ++ h :: below ∧ keeps g h

inductive RunsAbove (step : σ → σ → Prop) (height : σ → ℕ) (bound : ℕ) (s : σ) : σ → Prop
  | refl (h : bound < height s) : RunsAbove step height bound s s
  | tail {t u : σ} (hrun : RunsAbove step height bound s t) (hstep : step t u)
      (h : bound < height u) : RunsAbove step height bound s u

variable {keeps : φ → φ → Prop} {g : φ} {below s t : List φ}

theorem StackStep.standsOn (htrans : ∀ f g h, keeps f g → keeps g h → keeps f h)
    (hstep : StackStep keeps s t) (hs : StandsOn keeps g below s)
    (hlong : below.length < t.length) : StandsOn keeps g below t := by
  obtain ⟨inner, h, rfl, hkeeps⟩ := hs
  cases inner with
  | nil =>
    cases hstep with
    | change below hchange => exact ⟨[], _, rfl, htrans _ _ _ hkeeps hchange⟩
    | call callee below hchange => exact ⟨[callee], _, rfl, htrans _ _ _ hkeeps hchange⟩
    | leave f below hchange => simp at hlong
  | cons top inner =>
    rw [List.cons_append] at hstep
    generalize hrest : inner ++ h :: below = rest at hstep
    cases hstep with
    | change _ hchange => exact ⟨_ :: inner, h, by rw [← hrest]; rfl, hkeeps⟩
    | call callee _ hchange => exact ⟨callee :: _ :: inner, h, by rw [← hrest]; rfl, hkeeps⟩
    | leave _ below' hchange =>
      cases inner with
      | nil =>
        obtain ⟨rfl, rfl⟩ := List.cons.inj hrest
        exact ⟨[], _, rfl, htrans _ _ _ hkeeps hchange⟩
      | cons p inner =>
        obtain ⟨rfl, rfl⟩ := List.cons.inj hrest
        exact ⟨_ :: inner, h, rfl, hkeeps⟩

theorem StackStep.leaves (hstep : StackStep keeps s t) (hs : StandsOn keeps g below s)
    (hshort : t.length ≤ below.length) : ∃ h p q rest, s = h :: p :: rest ∧ below = p :: rest ∧
      t = q :: rest ∧ keeps g h := by
  obtain ⟨inner, h, rfl, hkeeps⟩ := hs
  generalize hstack : inner ++ h :: below = stack at hstep
  have hlength := congrArg List.length hstack
  rw [List.length_append, List.length_cons] at hlength
  cases hstep with
  | change below' _ =>
    rw [List.length_cons] at hlength hshort
    omega
  | call callee below' _ =>
    rw [List.length_cons] at hlength hshort
    rw [List.length_cons] at hshort
    omega
  | @leave p q f below' _ =>
    rw [List.length_cons, List.length_cons] at hlength
    rw [List.length_cons] at hshort
    have hinner : inner = [] := List.eq_nil_of_length_eq_zero (by omega)
    subst hinner
    obtain ⟨rfl, rfl⟩ := List.cons.inj hstack
    exact ⟨h, p, q, below', rfl, rfl, rfl, hkeeps⟩

theorem RunsAbove.standsOn {step : σ → σ → Prop} {stack : σ → List φ} {a b : σ}
    (htrans : ∀ f g h, keeps f g → keeps g h → keeps f h)
    (hstep : ∀ s t, step s t → StackStep keeps (stack s) (stack t))
    (hrun : RunsAbove step (fun s => (stack s).length) below.length a b)
    (ha : StandsOn keeps g below (stack a)) : StandsOn keeps g below (stack b) := by
  induction hrun with
  | refl h => exact ha
  | tail hrun hnext h ih => exact (hstep _ _ hnext).standsOn htrans ih h

end Soot.Computation
