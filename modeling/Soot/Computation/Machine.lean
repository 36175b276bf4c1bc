import Mathlib.Tactic.Common

/-!
# Deterministic machines

A machine is a step function into "the next state" or "the result it halts with".
Everything here is about such a function over arbitrary state and result types:
running it for a number of steps, halting, diverging, and the rules by which a
simulation proof composes runs. Divergence is *every* bounded run being unfinished, so a
proof of divergence is a proof that runs of every length exist.
-/

set_option autoImplicit false

namespace Soot.Computation

variable {σ ρ : Type*}

/-- A deterministic machine: one step gives the next state or the final result. -/
structure Machine (σ ρ : Type*) where
  step : σ → σ ⊕ ρ

namespace Machine

variable (M : Machine σ ρ)

/-- The machine after at most `n` steps: still in a state, or halted with a result. -/
def run : ℕ → σ → σ ⊕ ρ
  | 0, s => .inl s
  | n + 1, s =>
    match M.step s with
    | .inl t => run n t
    | .inr r => .inr r

/-- The machine takes `n` steps from `s` without halting and is then in `t`. -/
def Reaches (n : ℕ) (s t : σ) : Prop := M.run n s = .inl t

/-- The machine started in `s` halts with result `r`. -/
def HaltsWith (s : σ) (r : ρ) : Prop := ∃ n, M.run n s = .inr r

/-- The machine started in `s` halts. -/
def Halts (s : σ) : Prop := ∃ r, M.HaltsWith s r

/-- The machine started in `s` runs for ever. -/
def Diverges (s : σ) : Prop := ∀ n, ∃ t, M.Reaches n s t

variable {M}

theorem run_succ_of_inl {n : ℕ} {s t : σ} (h : M.step s = .inl t) :
    M.run (n + 1) s = M.run n t := by
  rw [run, h]

theorem run_succ_of_inr {n : ℕ} {s : σ} {r : ρ} (h : M.step s = .inr r) :
    M.run (n + 1) s = .inr r := by
  rw [run, h]

theorem Reaches.refl (s : σ) : M.Reaches 0 s s := rfl

theorem Reaches.single {s t : σ} (h : M.step s = .inl t) : M.Reaches 1 s t := by
  simp [Reaches, run, h]

theorem run_add {m : ℕ} {s t : σ} (n : ℕ) (h : M.Reaches m s t) :
    M.run (m + n) s = M.run n t := by
  induction m generalizing s with
  | zero =>
    have hs : s = t := by simpa [Reaches, run] using h
    rw [Nat.zero_add, hs]
  | succ m ih =>
    rw [Nat.succ_add]
    unfold Reaches at h
    cases hstep : M.step s with
    | inl u =>
      rw [run_succ_of_inl hstep] at h ⊢
      exact ih h
    | inr r =>
      rw [run_succ_of_inr hstep] at h
      cases h

theorem Reaches.trans {m n : ℕ} {s t u : σ} (h₁ : M.Reaches m s t) (h₂ : M.Reaches n t u) :
    M.Reaches (m + n) s u := by
  unfold Reaches
  rw [run_add n h₁]
  exact h₂

theorem Reaches.head {n : ℕ} {s t u : σ} (h₁ : M.step s = .inl t) (h₂ : M.Reaches n t u) :
    M.Reaches (n + 1) s u := by
  have h := (Reaches.single h₁).trans h₂
  rwa [Nat.add_comm] at h

theorem Reaches.tail {n : ℕ} {s t u : σ} (h₁ : M.Reaches n s t) (h₂ : M.step t = .inl u) :
    M.Reaches (n + 1) s u :=
  h₁.trans (Reaches.single h₂)

theorem reaches_succ_iff {n : ℕ} {s u : σ} :
    M.Reaches (n + 1) s u ↔ ∃ t, M.step s = .inl t ∧ M.Reaches n t u := by
  unfold Reaches
  cases hstep : M.step s with
  | inl t => simp [run_succ_of_inl hstep]
  | inr r => simp [run_succ_of_inr hstep]

theorem HaltsWith.single {s : σ} {r : ρ} (h : M.step s = .inr r) : M.HaltsWith s r :=
  ⟨1, by simp [run, h]⟩

theorem Reaches.haltsWith {n : ℕ} {s t : σ} {r : ρ} (h₁ : M.Reaches n s t)
    (h₂ : M.HaltsWith t r) : M.HaltsWith s r := by
  obtain ⟨m, hm⟩ := h₂
  exact ⟨n + m, by rw [run_add m h₁, hm]⟩

theorem run_halted_add {n : ℕ} {s : σ} {r : ρ} (h : M.run n s = .inr r) (k : ℕ) :
    M.run (n + k) s = .inr r := by
  induction n generalizing s with
  | zero => cases h
  | succ n ih =>
    rw [Nat.succ_add]
    cases hstep : M.step s with
    | inl t =>
      rw [run_succ_of_inl hstep] at h ⊢
      exact ih h
    | inr q =>
      rw [run_succ_of_inr hstep] at h ⊢
      exact h

theorem HaltsWith.unique {s : σ} {r q : ρ} (h₁ : M.HaltsWith s r) (h₂ : M.HaltsWith s q) :
    r = q := by
  obtain ⟨m, hm⟩ := h₁
  obtain ⟨n, hn⟩ := h₂
  have hmn : M.run (m + n) s = .inr r := run_halted_add hm n
  have hnm : M.run (n + m) s = .inr q := run_halted_add hn m
  rw [Nat.add_comm, hnm] at hmn
  exact (Sum.inr.inj hmn).symm

/-- Where a machine differs from another one only by halting early, the two run alike unless it
does. -/
theorem run_eq_of_step {N : Machine σ ρ} {r : ρ}
    (hstep : ∀ s, M.step s = .inr r ∨ N.step s = M.step s) {s : σ} (h : ¬ M.HaltsWith s r) (n : ℕ) :
    N.run n s = M.run n s := by
  induction n generalizing s with
  | zero => rfl
  | succ n ih =>
    have hsame := (hstep s).resolve_left fun hhalts => h (HaltsWith.single hhalts)
    cases hs : M.step s with
    | inl t =>
      rw [run_succ_of_inl hs, run_succ_of_inl (hsame.trans hs)]
      exact ih fun ht => h ((Reaches.single hs).haltsWith ht)
    | inr q => rw [run_succ_of_inr hs, run_succ_of_inr (hsame.trans hs)]

theorem Reaches.prefix {m n : ℕ} {s t : σ} (h : M.Reaches n s t) (hmn : m ≤ n) :
    ∃ u, M.Reaches m s u := by
  cases hrun : M.run m s with
  | inl u => exact ⟨u, hrun⟩
  | inr r =>
    have hlong := run_halted_add hrun (n - m)
    rw [Nat.add_sub_cancel' hmn] at hlong
    rw [Reaches, hlong] at h
    cases h

theorem diverges_of_unbounded {s : σ} (h : ∀ n, ∃ m t, n ≤ m ∧ M.Reaches m s t) :
    M.Diverges s := by
  intro n
  obtain ⟨m, t, hnm, hreach⟩ := h n
  exact hreach.prefix hnm

theorem Diverges.not_halts {s : σ} (h : M.Diverges s) : ¬ M.Halts s := by
  rintro ⟨r, n, hn⟩
  obtain ⟨t, ht⟩ := h n
  rw [Reaches, hn] at ht
  cases ht

end Machine

end Soot.Computation
