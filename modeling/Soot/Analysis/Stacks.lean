import Soot.Model.Processes
import Soot.Analysis.KernelRuns

/-!
# State frames are entered and exited once

A state frame is pushed on the stack of one process and leaves it once: whatever handlers do in
between, it is entered once, and exited once if it was left.
-/

set_option autoImplicit false

namespace Soot.Analysis

open Soot.Computation Soot.Program Soot.Model

variable {σ μ : Type} {host : KernelHost σ μ} {C : KernelAction → Kernel σ μ → Prop}
  {k t : Kernel σ μ}

/-- Two processes with the same state frames. -/
def SameStack (P P' : Process) : Prop :=
  P'.stack = P.stack ∧ P'.currentStateFrame = P.currentStateFrame

/-- No state frame is pushed or popped, and no process is created or deleted. -/
structure StacksKept (k t : Kernel σ μ) : Prop where
  there : ∀ p P, k.processes p = some P → ∃ P', t.processes p = some P' ∧ SameStack P P'
  was : ∀ p P', t.processes p = some P' → ∃ P, k.processes p = some P ∧ SameStack P P'
  count : t.stateFrameCount = k.stateFrameCount
  enters : t.history.enters = k.history.enters
  exits : t.history.exits = k.history.exits

theorem stacksKept_of_eq (hprocesses : t.processes = k.processes)
    (hcount : t.stateFrameCount = k.stateFrameCount)
    (henters : t.history.enters = k.history.enters) (hexits : t.history.exits = k.history.exits) :
    StacksKept k t where
  there := fun p P hP => ⟨P, by rw [hprocesses]; exact hP, rfl, rfl⟩
  was := fun p P hP => ⟨P, by rw [← hprocesses]; exact hP, rfl, rfl⟩
  count := hcount
  enters := henters
  exits := hexits

theorem stacksKept_update {p : ℕ} {P P' : Process} (cell : k.processes p = some P)
    (hprocesses : t.processes = Function.update k.processes p (some P')) (hsame : SameStack P P')
    (hcount : t.stateFrameCount = k.stateFrameCount)
    (henters : t.history.enters = k.history.enters) (hexits : t.history.exits = k.history.exits) :
    StacksKept k t where
  there := by
    intro q Q hQ
    rw [hprocesses]
    by_cases hqp : q = p
    · subst hqp
      obtain rfl : P = Q := by simpa [cell] using hQ
      exact ⟨P', by simp, hsame⟩
    · exact ⟨Q, by simpa [hqp] using hQ, rfl, rfl⟩
  was := by
    intro q Q hQ
    rw [hprocesses] at hQ
    by_cases hqp : q = p
    · subst hqp
      obtain rfl : P' = Q := by simpa using hQ
      exact ⟨P, cell, hsame⟩
    · exact ⟨Q, by simpa [hqp] using hQ, rfl, rfl⟩
  count := hcount
  enters := henters
  exits := hexits

theorem stacks_cases (hstep : KernelStep host C k t) :
    StacksKept k t ∨
    (∃ p P f rest, k.processes p = some P ∧ P.stack = f :: rest ∧ t = k.popState p P f rest) ∨
    (∃ p P s, k.processes p = some P ∧ P.stack = [] ∧ t = k.pushState p P s) ∨
    (∃ name script s pid, t = k.withProcess (freshProcess pid name script s) s) ∨
    ∃ p P, k.processes p = some P ∧ P.stack = [] ∧ t = k.delete p := by
  cases hstep
  case pop p f P rest cell top leaves =>
    exact Or.inr (Or.inl ⟨p, P, f, rest, cell, top, rfl⟩)
  case push p P s cell stack _ _ _ _ =>
    exact Or.inr (Or.inr (Or.inl ⟨p, P, s, cell, stack, rfl⟩))
  case create name script s pid entry state =>
    exact Or.inr (Or.inr (Or.inr (Or.inl ⟨name, script, s, pid, rfl⟩)))
  case delete k₀ p P l cell dying stack _ _ _ _ =>
    exact Or.inr (Or.inr (Or.inr (Or.inr ⟨p, P, cell, stack, rfl⟩)))
  case machine moves =>
    exact Or.inl (stacksKept_of_eq (by rw [moves.rest]) (by rw [moves.rest]) (by rw [moves.rest])
      (by rw [moves.rest]))
  case clock p P P' cell same =>
    exact Or.inl (stacksKept_update cell rfl (by rw [same]; exact ⟨rfl, rfl⟩) rfl rfl rfl)
  case rested p P P' l cell quantum rests =>
    refine Or.inl (stacksKept_update (p := p) cell rfl ?_ rfl rfl rfl)
    rcases rests with rfl | rfl <;> exact ⟨rfl, rfl⟩
  case suspend cell _ => exact Or.inl (stacksKept_update cell rfl ⟨rfl, rfl⟩ rfl rfl rfl)
  case wake cell _ => exact Or.inl (stacksKept_update cell rfl ⟨rfl, rfl⟩ rfl rfl rfl)
  case switch cell _ _ => exact Or.inl (stacksKept_update cell rfl ⟨rfl, rfl⟩ rfl rfl rfl)
  case main cell _ _ => exact Or.inl (stacksKept_update cell rfl ⟨rfl, rfl⟩ rfl rfl rfl)
  case clearPending cell _ => exact Or.inl (stacksKept_update cell rfl ⟨rfl, rfl⟩ rfl rfl rfl)
  case defer p P s cell _ _ =>
    exact Or.inl (stacksKept_update (p := p) cell rfl ⟨rfl, rfl⟩ rfl rfl rfl)
  case running p P l cell _ =>
    exact Or.inl (stacksKept_update (p := p) cell rfl ⟨rfl, rfl⟩ rfl rfl rfl)
  case parks cell _ _ _ => exact Or.inl (stacksKept_update cell rfl ⟨rfl, rfl⟩ rfl rfl rfl)
  case child cell _ _ => exact Or.inl (stacksKept_update cell rfl ⟨rfl, rfl⟩ rfl rfl rfl)
  case die cell _ => exact Or.inl (stacksKept_update cell rfl ⟨rfl, rfl⟩ rfl rfl rfl)
  case readied cell _ => exact Or.inl (stacksKept_update cell rfl ⟨rfl, rfl⟩ rfl rfl rfl)
  case awake p i P cell _ _ _ _ _ =>
    exact Or.inl (stacksKept_update (p := p) cell rfl ⟨rfl, rfl⟩ rfl rfl rfl)
  case resume p P cell _ _ =>
    exact Or.inl (stacksKept_update (p := p) cell rfl ⟨rfl, rfl⟩ rfl rfl rfl)
  all_goals exact Or.inl (stacksKept_of_eq rfl rfl rfl rfl)

theorem stacksHold_initial (memory : μ) : StacksHold (Kernel.initial memory : Kernel σ μ) where
  single := fun _ _ h => by cases h
  below := by rintro f ⟨p, P, h, -⟩; cases h
  unique := fun _ _ _ _ _ h => by cases h
  entered := fun _ => rfl
  waiting := fun _ _ => rfl
  exited := fun f _ h => absurd h (Nat.not_lt_zero f)

theorem onStack_kept (hkept : StacksKept k t) (f : ℕ) : OnStack t f ↔ OnStack k f := by
  constructor
  · rintro ⟨p, P', hP', hf⟩
    obtain ⟨P, hP, hstack, -⟩ := hkept.was p P' hP'
    exact ⟨p, P, hP, hstack ▸ hf⟩
  · rintro ⟨p, P, hP, hf⟩
    obtain ⟨P', hP', hstack, -⟩ := hkept.there p P hP
    exact ⟨p, P', hP', hstack ▸ hf⟩

theorem stacksHold_kept (hI : StacksHold k) (hkept : StacksKept k t) : StacksHold t where
  single := by
    intro p P' hP'
    obtain ⟨P, hP, hstack, hcurrent⟩ := hkept.was p P' hP'
    rw [hstack, hcurrent]
    exact hI.single p P hP
  below := by
    intro f hf
    rw [hkept.count]
    exact hI.below f ((onStack_kept hkept f).mp hf)
  unique := by
    intro p q P' Q' f hP' hQ' hfP hfQ
    obtain ⟨P, hP, hstackP, -⟩ := hkept.was p P' hP'
    obtain ⟨Q, hQ, hstackQ, -⟩ := hkept.was q Q' hQ'
    exact hI.unique p q P Q f hP hQ (hstackP ▸ hfP) (hstackQ ▸ hfQ)
  entered := by
    rw [hkept.enters, hkept.count]
    exact hI.entered
  waiting := by
    intro f hf
    rw [onStack_kept hkept, hkept.count] at hf
    rw [hkept.exits]
    exact hI.waiting f hf
  exited := by
    intro f hf hlt
    rw [onStack_kept hkept] at hf
    rw [hkept.exits]
    exact hI.exited f hf (by rw [← hkept.count]; exact hlt)

theorem onStack_popState (hI : StacksHold k) {p f : ℕ} {P : Process} {rest : List ℕ}
    (cell : k.processes p = some P) (top : P.stack = f :: rest) (g : ℕ) :
    rest = [] ∧ (OnStack (k.popState p P f rest) g ↔ g ≠ f ∧ OnStack k g) := by
  have hrest : rest = [] := by
    rcases hI.single p P cell with ⟨h, -⟩ | ⟨f', h, -⟩
    · rw [top] at h
      cases h
    · rw [top] at h
      simpa using (List.cons.inj h).2
  subst hrest
  refine ⟨rfl, ?_⟩
  constructor
  · rintro ⟨q, Q, hQ, hg⟩
    by_cases hqp : q = p
    · subst hqp
      obtain rfl : _ = Q := by
        simpa [Kernel.popState, Kernel.noting, Kernel.setProcess] using hQ
      cases hg
    · have hQ' : k.processes q = some Q := by
        simpa [Kernel.popState, Kernel.noting, Kernel.setProcess, hqp] using hQ
      refine ⟨?_, q, Q, hQ', hg⟩
      rintro rfl
      exact hqp (hI.unique q p Q P g hQ' cell hg (by simp [top]))
  · rintro ⟨hgf, q, Q, hQ, hg⟩
    by_cases hqp : q = p
    · subst hqp
      obtain rfl : P = Q := by simpa [cell] using hQ
      rw [top] at hg
      exact absurd (by simpa using hg) hgf
    · exact ⟨q, Q, by simpa [Kernel.popState, Kernel.noting, Kernel.setProcess, hqp] using hQ, hg⟩

theorem stacksHold_popState (hI : StacksHold k) {p f : ℕ} {P : Process} {rest : List ℕ}
    (cell : k.processes p = some P) (top : P.stack = f :: rest) :
    StacksHold (k.popState p P f rest) := by
  have hon := onStack_popState hI cell top
  have hf : OnStack k f := ⟨p, P, cell, by simp [top]⟩
  have hrest := (hon f).1
  subst hrest
  have hcurrent : P.currentStateFrame = some f := by
    rcases hI.single p P cell with ⟨h, -⟩ | ⟨f', h, hcurrent⟩
    · rw [top] at h
      cases h
    · rw [top] at h
      obtain rfl : f = f' := by simpa using h
      exact hcurrent
  have hexits : ∀ g, (k.popState p P f []).history.exits g =
      if g = f then k.history.exits f + 1 else k.history.exits g := by
    intro g
    by_cases hgf : g = f <;> simp [Kernel.popState, Kernel.noting, Kernel.setProcess, hgf]
  refine
    { single := ?_, below := ?_, unique := ?_, entered := hI.entered, waiting := ?_, exited := ?_ }
  · intro q Q hQ
    by_cases hqp : q = p
    · subst hqp
      obtain rfl : _ = Q := by
        simpa [Kernel.popState, Kernel.noting, Kernel.setProcess] using hQ
      exact Or.inl ⟨rfl, by simp [hcurrent]⟩
    · exact hI.single q Q
        (by simpa [Kernel.popState, Kernel.noting, Kernel.setProcess, hqp] using hQ)
  · intro g hg
    exact hI.below g ((hon g).2.mp hg).2
  · intro q r Q R g hQ hR hgQ hgR
    by_cases hqp : q = p
    · subst hqp
      obtain rfl : _ = Q := by
        simpa [Kernel.popState, Kernel.noting, Kernel.setProcess] using hQ
      cases hgQ
    · by_cases hrp : r = p
      · subst hrp
        obtain rfl : _ = R := by
          simpa [Kernel.popState, Kernel.noting, Kernel.setProcess] using hR
        cases hgR
      · exact hI.unique q r Q R g
          (by simpa [Kernel.popState, Kernel.noting, Kernel.setProcess, hqp] using hQ)
          (by simpa [Kernel.popState, Kernel.noting, Kernel.setProcess, hrp] using hR) hgQ hgR
  · intro g hg
    rw [(hon g).2] at hg
    rw [hexits]
    have hgf : g ≠ f := by
      rcases hg with h | h
      · exact h.1
      · rintro rfl
        have hlt := hI.below g hf
        have hle : k.stateFrameCount ≤ g := h
        omega
    rw [if_neg hgf]
    exact hI.waiting g (hg.imp And.right fun h => h)
  · intro g hg hlt
    rw [(hon g).2] at hg
    rw [hexits]
    by_cases hgf : g = f
    · rw [if_pos hgf, hI.waiting f (Or.inl hf)]
    · rw [if_neg hgf]
      exact hI.exited g (fun h => hg ⟨hgf, h⟩) hlt

theorem stacksHold_pushState (hI : StacksHold k) {p : ℕ} {P : Process} (s : ScriptState)
    (cell : k.processes p = some P) (stack : P.stack = []) : StacksHold (k.pushState p P s) := by
  have hcells : ∀ q Q, (k.pushState p P s).processes q = some Q →
      q = p ∧ Q.stack = [k.stateFrameCount] ∧ Q.currentStateFrame = some k.stateFrameCount ∨
        q ≠ p ∧ k.processes q = some Q := by
    intro q Q hQ
    by_cases hqp : q = p
    · subst hqp
      obtain rfl : _ = Q := by
        simpa [Kernel.pushState, Kernel.setStateFrame, Kernel.setProcess] using hQ
      exact Or.inl ⟨rfl, by simp [stack], rfl⟩
    · refine Or.inr ⟨hqp, ?_⟩
      simpa [Kernel.pushState, Kernel.setStateFrame, Kernel.setProcess, hqp] using hQ
  have hnew : ¬ OnStack k k.stateFrameCount := fun h => Nat.lt_irrefl _ (hI.below _ h)
  have hon : ∀ g, OnStack (k.pushState p P s) g ↔ g = k.stateFrameCount ∨ OnStack k g := by
    intro g
    constructor
    · rintro ⟨q, Q, hQ, hg⟩
      rcases hcells q Q hQ with ⟨-, hstack, -⟩ | ⟨-, hQ'⟩
      · rw [hstack] at hg
        exact Or.inl (by simpa using hg)
      · exact Or.inr ⟨q, Q, hQ', hg⟩
    · rintro (rfl | ⟨q, Q, hQ, hg⟩)
      · exact ⟨p, _, by simp [Kernel.pushState, Kernel.setProcess]; rfl, by simp⟩
      · have hqp : q ≠ p := by
          rintro rfl
          obtain rfl : P = Q := by simpa [cell] using hQ
          rw [stack] at hg
          cases hg
        exact ⟨q, Q, by simpa [Kernel.pushState, Kernel.setStateFrame, Kernel.setProcess, hqp]
          using hQ, hg⟩
  refine
    { single := ?_, below := ?_, unique := ?_, entered := ?_, waiting := ?_, exited := ?_ }
  · intro q Q hQ
    rcases hcells q Q hQ with ⟨-, hstack, hcurrent⟩ | ⟨-, hQ'⟩
    · exact Or.inr ⟨_, hstack, hcurrent⟩
    · exact hI.single q Q hQ'
  · intro g hg
    show g < k.stateFrameCount + 1
    rcases (hon g).mp hg with rfl | h
    · omega
    · have hlt := hI.below g h
      omega
  · intro q r Q R g hQ hR hgQ hgR
    rcases hcells q Q hQ with ⟨rfl, hstackQ, -⟩ | ⟨hqp, hQ'⟩ <;>
      rcases hcells r R hR with ⟨rfl, hstackR, -⟩ | ⟨hrp, hR'⟩
    · rfl
    · rw [hstackQ] at hgQ
      obtain rfl : g = k.stateFrameCount := by simpa using hgQ
      exact absurd ⟨r, R, hR', hgR⟩ hnew
    · rw [hstackR] at hgR
      obtain rfl : g = k.stateFrameCount := by simpa using hgR
      exact absurd ⟨q, Q, hQ', hgQ⟩ hnew
    · exact hI.unique q r Q R g hQ' hR' hgQ hgR
  · intro g
    show Function.update k.history.enters k.stateFrameCount
      (k.history.enters k.stateFrameCount + 1) g = if g < k.stateFrameCount + 1 then 1 else 0
    by_cases hg : g = k.stateFrameCount
    · subst hg
      simp [hI.entered]
    · have hiff : g < k.stateFrameCount + 1 ↔ g < k.stateFrameCount := by omega
      simp only [Function.update_of_ne hg, hI.entered g, hiff]
  · intro g hg
    rw [hon] at hg
    refine hI.waiting g ?_
    rcases hg with (rfl | h) | h
    · exact Or.inr (Nat.le_refl _)
    · exact Or.inl h
    · have hle : k.stateFrameCount + 1 ≤ g := h
      exact Or.inr (by omega)
  · intro g hg hlt
    rw [hon] at hg
    have hlt : g < k.stateFrameCount + 1 := hlt
    exact hI.exited g (fun h => hg (Or.inr h)) (by
      have hne : g ≠ k.stateFrameCount := fun h => hg (Or.inl h)
      omega)

theorem stacksHold_setProcess (hI : StacksHold k) {p : ℕ} {P : Option Process}
    (hprocesses : t.processes = Function.update k.processes p P)
    (hcount : t.stateFrameCount = k.stateFrameCount)
    (henters : t.history.enters = k.history.enters) (hexits : t.history.exits = k.history.exits)
    (hold : ∀ Q, k.processes p = some Q → Q.stack = [])
    (hnew : ∀ Q, P = some Q → Q.stack = [] ∧ Q.currentStateFrame = none) : StacksHold t := by
  have hcells : ∀ q Q, t.processes q = some Q →
      Q.stack = [] ∧ Q.currentStateFrame = none ∨ k.processes q = some Q := by
    intro q Q hQ
    rw [hprocesses] at hQ
    by_cases hqp : q = p
    · subst hqp
      exact Or.inl (hnew Q (by simpa using hQ))
    · exact Or.inr (by simpa [hqp] using hQ)
  have hon : ∀ g, OnStack t g ↔ OnStack k g := by
    intro g
    constructor
    · rintro ⟨q, Q, hQ, hg⟩
      rcases hcells q Q hQ with ⟨hstack, -⟩ | hQ'
      · rw [hstack] at hg
        cases hg
      · exact ⟨q, Q, hQ', hg⟩
    · rintro ⟨q, Q, hQ, hg⟩
      have hqp : q ≠ p := by
        rintro rfl
        rw [hold Q hQ] at hg
        cases hg
      exact ⟨q, Q, by rw [hprocesses]; simpa [hqp] using hQ, hg⟩
  refine
    { single := ?_, below := ?_, unique := ?_, entered := ?_, waiting := ?_, exited := ?_ }
  · intro q Q hQ
    rcases hcells q Q hQ with h | hQ'
    · exact Or.inl h
    · exact hI.single q Q hQ'
  · intro g hg
    rw [hcount]
    exact hI.below g ((hon g).mp hg)
  · intro q r Q R g hQ hR hgQ hgR
    rcases hcells q Q hQ with ⟨h, -⟩ | hQ'
    · rw [h] at hgQ
      cases hgQ
    rcases hcells r R hR with ⟨h, -⟩ | hR'
    · rw [h] at hgR
      cases hgR
    exact hI.unique q r Q R g hQ' hR' hgQ hgR
  · rw [henters, hcount]
    exact hI.entered
  · intro g hg
    rw [hon, hcount] at hg
    rw [hexits]
    exact hI.waiting g hg
  · intro g hg hlt
    rw [hon] at hg
    rw [hexits]
    exact hI.exited g hg (by rw [← hcount]; exact hlt)

theorem stacksHold_step (hk : FramesInOrder k) (hI : StacksHold k)
    (hstep : KernelStep host C k t) : StacksHold t := by
  rcases stacks_cases hstep with hkept | ⟨p, P, f, rest, cell, top, rfl⟩ |
    ⟨p, P, s, cell, stack, rfl⟩ | ⟨name, script, s, pid, rfl⟩ | ⟨p, P, cell, stack, rfl⟩
  · exact stacksHold_kept hI hkept
  · exact stacksHold_popState hI cell top
  · exact stacksHold_pushState hI s cell stack
  · refine stacksHold_setProcess hI (p := k.processCount) rfl rfl rfl rfl ?_ ?_
    · intro Q hQ
      rw [hk.processes _ (Nat.le_refl _)] at hQ
      cases hQ
    · rintro Q ⟨⟩
      exact ⟨rfl, rfl⟩
  · refine stacksHold_setProcess hI (p := p) (P := none) rfl rfl rfl rfl ?_ (by rintro Q ⟨⟩)
    intro Q hQ
    obtain rfl : P = Q := by simpa [cell] using hQ
    exact stack

theorem stacksHold_upholds (host : KernelHost σ μ) :
    Upholds host (fun _ _ => True) (fun _ k => StacksHold k) (fun _ => True)
      (StacksHold (σ := σ) (μ := μ)) where
  step := fun _ _ hk hI hstep => stacksHold_step hk hI hstep
  enters := fun _ _ hI _ => Or.inl { hI with }
  promise := fun _ _ hI _ _ => hI
  known := fun _ _ _ _ _ => trivial
  freedFrame := trivial
  undefined := trivial
  escaped := trivial
  outOfFuel := trivial

/-- Whatever the scripts, the natives and the host do, also where handlers transition, kill, spawn
or tick: at every step a process has no state frame or the current one only, every frame that was
pushed was entered once, and it is on the stack of one process and was not exited, or it is on no
stack and was exited once. SRCLINE: Process.cpp:105-412, Scheduler.cpp:32-215 -/
theorem hostRun_stateFrames (host : KernelHost σ μ) (fuel : ℕ) (calls : List KernelCall)
    (memory : μ) :
    (∀ step ∈ (hostRun host fuel calls (Kernel.initial memory)).steps, StacksHold step.2) ∧
    ((hostRun host fuel calls (Kernel.initial memory)).result = .ok () →
      StacksHold (hostRun host fuel calls (Kernel.initial memory)).state) := by
  have hmeets : Recording.Meets (fun _ _ => True) (fun _ k => StacksHold k) _
      (hostRun host fuel calls) (Kernel.initial memory) _ :=
    hostRun_meets (stacksHold_upholds host) calls
      ⟨stacksHold_initial memory, framesInOrder_initial memory⟩ rfl
  have hsteps := fun step
    (_ : step ∈ (hostRun host fuel calls (Kernel.initial memory)).steps) => trivial
  refine ⟨(hmeets hsteps).1, ?_⟩
  intro hok
  exact (hmeets.result hsteps hok).1.1

end Soot.Analysis
