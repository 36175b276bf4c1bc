import Soot.Model.KernelSteps

/-!
# Runs of the kernel

Every operation of the scheduler takes steps of the kernel only, each where its guard says, and
leaves the stacks of active calls as it found them. So an invariant that the steps keep holds
along every run: what is recorded on the way is as the invariant promises, and the process that
an operation reads is there where the invariant rules out that it was freed.
-/

set_option autoImplicit false

namespace Soot.Analysis

open Soot.Computation Soot.Computation.Recording Soot.Program Soot.Model

variable {p : ℕ} {s : ScriptState} {l : List (ℕ × Bool)} {args : List Variant}

variable {σ μ α β : Type} {host : KernelHost σ μ} {C P : KernelAction → Kernel σ μ → Prop}
  {E : Stop → Prop} {I : Kernel σ μ → Prop} {k t u : Kernel σ μ}

/-! ## Tables filled in order -/

theorem framesInOrder_initial (memory : μ) : FramesInOrder (Kernel.initial memory
    : Kernel σ μ) where
  frames := fun _ _ => rfl
  stateFrames := fun _ _ => rfl
  processes := fun _ _ => rfl
  current := fun _ _ _ h => by cases h

/-- Overwriting a process by one with the same state frame keeps the tables in order. -/
theorem framesInOrder_setProcess (hk : FramesInOrder k) {Q S : Process}
    (cell : k.processes p = some Q)
    (same : ∀ f, S.currentStateFrame = some f → Q.currentStateFrame = some f) :
    FramesInOrder (k.setProcess p (some S)) where
  frames := hk.frames
  stateFrames := hk.stateFrames
  processes := by
    intro q hq
    have hne : q ≠ p := by
      rintro rfl
      rw [hk.processes q hq] at cell
      cases cell
    simpa [Kernel.setProcess, hne] using hk.processes q hq
  current := by
    intro q R f hR hf
    by_cases hq : q = p
    · subst hq
      obtain rfl : S = R := by simpa [Kernel.setProcess] using hR
      exact hk.current q Q f cell (same f hf)
    · exact hk.current q R f (by simpa [Kernel.setProcess, hq] using hR) hf

theorem framesInOrder_freeProcess (hk : FramesInOrder k) (p : ℕ) :
    FramesInOrder (k.setProcess p none) where
  frames := hk.frames
  stateFrames := hk.stateFrames
  processes := by
    intro q hq
    by_cases h : q = p
    · simp [Kernel.setProcess, h]
    · simpa [Kernel.setProcess, h] using hk.processes q hq
  current := by
    intro q R f hR hf
    by_cases h : q = p
    · simp [Kernel.setProcess, h] at hR
    · exact hk.current q R f (by simpa [Kernel.setProcess, h] using hR) hf

/-- Changing or freeing a state frame that is there keeps the tables in order. -/
theorem framesInOrder_setStateFrame (hk : FramesInOrder k) {f : ℕ} {frame : Option StateFrame}
    (same : ∀ frame', frame = some frame' →
      ∃ old, k.stateFrames f = some old ∧ frame'.process = old.process) :
    FramesInOrder (k.setStateFrame f frame) where
  frames := hk.frames
  stateFrames := by
    intro g hg
    by_cases h : g = f
    · subst h
      cases hframe : frame with
      | none => simp [Kernel.setStateFrame]
      | some frame' =>
        obtain ⟨old, hold, -⟩ := same frame' hframe
        rw [hk.stateFrames g hg] at hold
        cases hold
    · simpa [Kernel.setStateFrame, h] using hk.stateFrames g hg
  processes := hk.processes
  current := by
    intro q R g hR hg
    obtain ⟨hlt, hprocess⟩ := hk.current q R g hR hg
    refine ⟨hlt, ?_⟩
    intro frame' hframe'
    by_cases h : g = f
    · subst h
      obtain rfl : frame = some frame' := by simpa [Kernel.setStateFrame] using hframe'
      obtain ⟨old, hold, heq⟩ := same frame' rfl
      rw [heq]
      exact hprocess old hold
    · exact hprocess frame' (by simpa [Kernel.setStateFrame, h] using hframe')

theorem framesInOrder_pushState (hk : FramesInOrder k) {Q : Process} (s : ScriptState)
    (cell : k.processes p = some Q) : FramesInOrder (k.pushState p Q s) where
  frames := hk.frames
  stateFrames := by
    intro f hf
    have hf : k.stateFrameCount + 1 ≤ f := hf
    have hne : f ≠ k.stateFrameCount := by omega
    simpa [Kernel.pushState, Kernel.setStateFrame, Kernel.setProcess, hne] using
      hk.stateFrames f (by omega)
  processes := by
    intro q hq
    have hne : q ≠ p := by
      rintro rfl
      rw [hk.processes q hq] at cell
      cases cell
    simpa [Kernel.pushState, Kernel.setStateFrame, Kernel.setProcess, hne] using hk.processes q hq
  current := by
    intro q R f hR hf
    show f < k.stateFrameCount + 1 ∧ ∀ frame,
      Function.update k.stateFrames k.stateFrameCount _ f = some frame → frame.process = q
    by_cases hq : q = p
    · subst hq
      obtain rfl : _ = R := by
        simpa [Kernel.pushState, Kernel.setStateFrame, Kernel.setProcess] using hR
      obtain rfl : k.stateFrameCount = f := by simpa using hf
      refine ⟨by omega, ?_⟩
      intro frame hframe
      rw [Function.update_self] at hframe
      cases hframe
      rfl
    · obtain ⟨hlt, hprocess⟩ := hk.current q R f
        (by simpa [Kernel.pushState, Kernel.setStateFrame, Kernel.setProcess, hq] using hR) hf
      refine ⟨by omega, ?_⟩
      rw [Function.update_of_ne (by omega)]
      exact hprocess

theorem framesInOrder_step (hk : FramesInOrder k) (hstep : KernelStep host C k t) :
    FramesInOrder t := by
  cases hstep
  case frame lambda args p =>
    refine ⟨?_, hk.stateFrames, hk.processes, hk.current⟩
    intro F hF
    have hF : k.frameCount + 1 ≤ F := hF
    have hne : F ≠ k.frameCount := by omega
    simpa [Kernel.withFrame, Kernel.setFrame, hne] using hk.frames F (by omega)
  case machine moves =>
    have hrest := moves.rest
    refine ⟨?_, ?_, ?_, ?_⟩
    · intro F hF
      have hmap := moves.frames F
      rw [hk.frames F (by rw [hrest] at hF; exact hF)] at hmap
      simpa using hmap
    · rw [hrest]
      exact hk.stateFrames
    · rw [hrest]
      exact hk.processes
    · rw [hrest]
      exact hk.current
  case clock p Q Q' cell same =>
    refine framesInOrder_setProcess hk cell ?_
    rw [same]
    exact fun f hf => hf
  case tracks f frame tracks cell moves =>
    refine framesInOrder_setStateFrame hk ?_
    rintro frame' ⟨⟩
    exact ⟨frame, cell, rfl⟩
  case pop p f Q rest cell top leaves =>
    have h := framesInOrder_setProcess hk (S := { Q with
      stack := rest
      currentStateFrame := if Q.currentStateFrame = some f then none else Q.currentStateFrame })
      cell (by
        intro g hg
        by_cases heq : Q.currentStateFrame = some f <;> simp_all)
    exact ⟨h.frames, h.stateFrames, h.processes, h.current⟩
  case drop f l exiting =>
    have h : FramesInOrder (k.setStateFrame f none) :=
      framesInOrder_setStateFrame hk (by rintro _ ⟨⟩)
    exact ⟨h.frames, h.stateFrames, h.processes, h.current⟩
  case push p Q s cell stack state trans post enters => exact framesInOrder_pushState hk s cell
  case delete k₀ p Q l cell dying stack _ _ _ _ =>
    have h := framesInOrder_freeProcess hk p
    exact ⟨h.frames, h.stateFrames, h.processes, h.current⟩
  case create name script s pid entry state =>
    refine ⟨hk.frames, hk.stateFrames, ?_, ?_⟩
    · intro q hq
      have hq : k.processCount + 1 ≤ q := hq
      have hne : q ≠ k.processCount := by omega
      simpa [Kernel.withProcess, Kernel.setProcess, hne] using hk.processes q (by omega)
    · intro q R f hR hf
      by_cases hq : q = k.processCount
      · obtain rfl : freshProcess pid name script s = R := by
          simpa [Kernel.withProcess, Kernel.setProcess, hq] using hR
        cases hf
      · exact hk.current q R f
          (by simpa [Kernel.withProcess, Kernel.setProcess, hq] using hR) hf
  case rested p Q Q' l cell quantum rests =>
    have h := framesInOrder_setProcess hk (S := Q') cell (by
      rcases rests with rfl | rfl <;> exact fun f hf => hf)
    exact ⟨h.frames, h.stateFrames, h.processes, h.current⟩
  -- the current state frame of a process that is overwritten stays what it was
  case suspend cell _ => exact framesInOrder_setProcess hk cell fun f hf => hf
  case wake cell _ => exact framesInOrder_setProcess hk cell fun f hf => hf
  case main cell _ _ => exact framesInOrder_setProcess hk cell fun f hf => hf
  case clearPending cell _ => exact framesInOrder_setProcess hk cell fun f hf => hf
  case parks cell _ _ _ => exact framesInOrder_setProcess hk cell fun f hf => hf
  case child cell _ _ => exact framesInOrder_setProcess hk cell fun f hf => hf
  case die cell _ => exact framesInOrder_setProcess hk cell fun f hf => hf
  case readied cell _ => exact framesInOrder_setProcess hk cell fun f hf => hf
  case switch cell _ _ => exact framesInOrder_setProcess hk cell fun f hf => hf
  case defer p Q s cell _ _ =>
    have h := framesInOrder_setProcess hk
      (S := { Q with nextState := some s, mask := Q.mask ||| MASK_GOING }) cell fun f hf => hf
    exact ⟨h.frames, h.stateFrames, h.processes, h.current⟩
  case running p Q l cell _ =>
    have h := framesInOrder_setProcess hk
      (S := { Q with status := .RUNNING, stateTime := Q.stateTime + 1 }) cell fun f hf => hf
    exact ⟨h.frames, h.stateFrames, h.processes, h.current⟩
  case awake p i Q cell _ _ _ _ _ =>
    have h := framesInOrder_setProcess hk
      (S := { Q with sleepFrames := 0, status := .READY }) cell fun f hf => hf
    exact ⟨h.frames, h.stateFrames, h.processes, h.current⟩
  case resume p Q cell _ _ =>
    have h := framesInOrder_setProcess hk (S := { Q with status := .READY }) cell fun f hf => hf
    exact ⟨h.frames, h.stateFrames, h.processes, h.current⟩
  all_goals exact ⟨hk.frames, hk.stateFrames, hk.processes, hk.current⟩

/-! ## What calls leave -/

theorem balanced_refl (k : Kernel σ μ) : Balanced k k where
  pending := rfl
  quanta := rfl
  settling := rfl
  spawning := rfl
  begun := rfl
  dying := rfl
  called := rfl
  leaving := rfl
  entering := rfl
  exiting := rfl
  active := rfl
  frames := fun _ c h => ⟨c, h, rfl, rfl⟩
  stateFrames := fun _ frame _ h => ⟨frame, h, rfl⟩
  stateFrameCount := Nat.le_refl _
  currentProcess := Or.inl rfl

theorem balanced_trans (hkt : Balanced k t) (htu : Balanced t u) : Balanced k u where
  pending := htu.pending.trans hkt.pending
  quanta := htu.quanta.trans hkt.quanta
  settling := htu.settling.trans hkt.settling
  spawning := htu.spawning.trans hkt.spawning
  begun := htu.begun.trans hkt.begun
  dying := htu.dying.trans hkt.dying
  called := htu.called.trans hkt.called
  leaving := htu.leaving.trans hkt.leaving
  entering := htu.entering.trans hkt.entering
  exiting := htu.exiting.trans hkt.exiting
  active := htu.active.trans hkt.active
  frames := by
    intro F c hc
    obtain ⟨c', hc', hlambda', hprocess'⟩ := hkt.frames F c hc
    obtain ⟨c'', hc'', hlambda'', hprocess''⟩ := htu.frames F c' hc'
    exact ⟨c'', hc'', hlambda''.trans hlambda', hprocess''.trans hprocess'⟩
  stateFrames := by
    intro f frame hf hframe
    obtain ⟨frame', hframe', hprocess'⟩ :=
      htu.stateFrames f frame (Nat.lt_of_lt_of_le hf hkt.stateFrameCount) hframe
    obtain ⟨frame'', hframe'', hprocess''⟩ := hkt.stateFrames f frame' hf hframe'
    exact ⟨frame'', hframe'', hprocess''.trans hprocess'⟩
  stateFrameCount := Nat.le_trans hkt.stateFrameCount htu.stateFrameCount
  currentProcess := by
    rcases htu.currentProcess with h | h
    · rw [h]
      exact hkt.currentProcess
    · exact Or.inr h

theorem balanced_of_same (hhistory : t.history = k.history) (hframes : t.frames = k.frames)
    (hstateFrames : t.stateFrames = k.stateFrames) (hcount : t.stateFrameCount = k.stateFrameCount)
    (hcurrent : t.currentProcess = k.currentProcess) : Balanced k t where
  pending := by rw [hhistory]
  quanta := by rw [hhistory]
  settling := by rw [hhistory]
  spawning := by rw [hhistory]
  begun := by rw [hhistory]
  dying := by rw [hhistory]
  called := by rw [hhistory]
  leaving := by rw [hhistory]
  entering := by rw [hhistory]
  exiting := by rw [hhistory]
  active := by rw [hhistory]
  frames := fun F c h => ⟨c, by rw [hframes]; exact h, rfl, rfl⟩
  stateFrames := fun f frame _ h => ⟨frame, by rw [← hstateFrames]; exact h, rfl⟩
  stateFrameCount := Nat.le_of_eq hcount.symm
  currentProcess := Or.inl hcurrent

theorem balanced_setProcess (k : Kernel σ μ) (p : ℕ) (Q : Option Process) :
    Balanced k (k.setProcess p Q) :=
  balanced_of_same rfl rfl rfl rfl rfl

theorem balanced_withFrame (hk : FramesInOrder k) (c : CodeFrame σ) :
    Balanced k (k.withFrame c) :=
  { balanced_refl k with
    frames := by
      intro F c' hc'
      have hne : F ≠ k.frameCount := by
        rintro rfl
        rw [hk.frames _ (Nat.le_refl _)] at hc'
        cases hc'
      exact ⟨c', by simpa [Kernel.withFrame, Kernel.setFrame, hne] using hc', rfl, rfl⟩ }

theorem held_of_balanced (h : Balanced k t) (held : InUse k p) : InUse t p := by
  unfold InUse at held ⊢
  rw [h.pending, h.quanta, h.settling, h.spawning, h.dying, h.called, h.leaving, h.entering]
  exact held

theorem held_of_quanta {b : Bool}
    (hquanta : k.history.quanta = (p, b) :: l) : InUse k p :=
  Or.inr (Or.inl ⟨b, by simp [hquanta]⟩)

theorem known_of_held (held : InUse k p) : Known k p := Or.inl held

theorem currentProcess_of_balanced (hb : Balanced k t) (hcurrent : k.currentProcess = none) :
    t.currentProcess = none := by
  rcases hb.currentProcess with h | h
  · exact h.trans hcurrent
  · exact h

/-! ## Rules -/

section Rules

variable (h : Upholds host C P E I)

include h

theorem meets_step {f : Kernel σ μ → Kernel σ μ} {Q : Unit → Kernel σ μ → Prop} (hk
    : KernelHolds I k)
    (hstep : KernelStep host (fun a k => C a k ∧ P a k) k (f k)) (hQ : KernelHolds I (f k) → Q ()
    (f k)) :
    Meets C P E (change f : KernelM σ μ Unit) k Q :=
  meets_change (hQ ⟨h.step k _ hk.2 hk.1 hstep, framesInOrder_step hk.2 hstep⟩)

theorem meets_noted {a : KernelAction} {Q : Unit → Kernel σ μ → Prop} (hk : KernelHolds I k)
    (hat : NotedAt (fun a k => C a k ∧ P a k) k a) (hQ : C a k ∧ P a k → Q () k) :
    Meets C P E (note a : KernelM σ μ Unit) k Q :=
  meets_note fun hc => ⟨h.promise k a hk.1 hat hc, hQ ⟨hc, h.promise k a hk.1 hat hc⟩⟩

omit h in
theorem meets_read {Q : Process → Kernel σ μ → Prop}
    (hthere : k.processes p = none → E .freedProcess)
    (hQ : ∀ R, k.processes p = some R → Q R k) :
    Meets C P E (process p : KernelM σ μ Process) k Q := by
  refine meets_bind (meets_observe ?_)
  cases hcell : k.processes p with
  | none => exact meets_stop (hthere hcell)
  | some R => exact meets_pure (hQ R hcell)

theorem meets_process {Q : Process → Kernel σ μ → Prop} (hk : KernelHolds I k)
    (known : Known k p) (hQ : ∀ R, k.processes p = some R → Q R k) :
    Meets C P E (process p : KernelM σ μ Process) k Q :=
  meets_read (h.known k p hk.1 known) hQ

theorem meets_updateProcess {f : Process → Process} {Q : Unit → Kernel σ μ → Prop}
    (hk : KernelHolds I k) (known : Known k p)
    (hstep : ∀ R, k.processes p = some R →
      KernelStep host (fun a k => C a k ∧ P a k) k (k.setProcess p (some (f R))))
    (hQ : ∀ R, k.processes p = some R → KernelHolds I (k.setProcess p (some (f R))) →
      Q () (k.setProcess p (some (f R)))) :
    Meets C P E (updateProcess p f : KernelM σ μ Unit) k Q := by
  refine meets_bind (meets_process h hk known ?_)
  intro R hcell
  exact meets_step h hk (hstep R hcell) (hQ R hcell)

theorem meets_stateFrame {f : ℕ} {Q : StateFrame → Kernel σ μ → Prop}
    (hQ : ∀ frame, k.stateFrames f = some frame → Q frame k) :
    Meets C P E (stateFrame f : KernelM σ μ StateFrame) k Q := by
  refine meets_bind (meets_observe ?_)
  cases hcell : k.stateFrames f with
  | none => exact meets_stop h.freedFrame
  | some frame => exact meets_pure (hQ frame hcell)

theorem meets_trackFrame {f i : ℕ} {Q : TrackFrame → Kernel σ μ → Prop}
    (hQ : ∀ frame track, k.stateFrames f = some frame → frame.tracks[i]? = some track →
      Q track k) : Meets C P E (trackFrame f i : KernelM σ μ TrackFrame) k Q := by
  refine meets_bind (meets_stateFrame h ?_)
  intro frame hframe
  cases htrack : frame.tracks[i]? with
  | none => exact meets_stop h.freedFrame
  | some track => exact meets_pure (hQ frame track hframe htrack)

theorem meets_checkArguments {Q : Unit → Kernel σ μ → Prop} (hQ : Q () k) :
    Meets C P E (checkArguments args : KernelM σ μ Unit) k Q := by
  unfold checkArguments
  split
  · exact meets_stop h.escaped
  · exact meets_pure hQ

theorem meets_newFrame {lambda : Lambda} {args : Arguments} {p : Option ℕ}
    {Q : ℕ → Kernel σ μ → Prop} (hk : KernelHolds I k)
    (hQ : KernelHolds I (k.withFrame ⟨lambda, host.enter lambda args, p⟩) →
      Q k.frameCount (k.withFrame ⟨lambda, host.enter lambda args, p⟩)) :
    Meets C P E (newFrame host lambda args p : KernelM σ μ ℕ) k Q := by
  refine meets_bind (meets_observe (meets_bind (meets_step h hk (.frame k lambda args p) ?_)))
  intro ht
  exact meets_pure (hQ ht)

end Rules

/-! ## Handlers -/

section Calls

variable {exec : ℕ → KernelM σ μ Variant} {fuel : ℕ} (h : Upholds host C P E I)
  (hexec : RunsKeep C P E I exec)

include h hexec

theorem runOn_meets {p F : ℕ} (hk : KernelHolds I k) (held : InUse k p) (fits : FrameFits k p F) :
    Meets C P E (runOn exec p F) k fun _ t => CallKeeps I k t ∧ t.history.settled = true := by
  refine meets_bind (meets_noted h hk held fun hc => ?_)
  exact hexec k F hk (Or.inl ⟨p, hc, fits⟩)

theorem runHandler_meets {lambda : Lambda} {args : Arguments} (hk : KernelHolds I k)
    (held : InUse k p) :
    Meets C P E (runHandler host exec p lambda args) k fun _ t => CallKeeps I k t := by
  refine meets_bind (meets_newFrame h hk fun ht => ?_)
  have hb := balanced_withFrame hk.2 ⟨lambda, host.enter lambda args, some p⟩
  have fits : FrameFits (k.withFrame ⟨lambda, host.enter lambda args, some p⟩) p k.frameCount :=
    Or.inl ⟨⟨lambda, host.enter lambda args, some p⟩, by simp [Kernel.withFrame, Kernel.setFrame],
      rfl⟩
  refine (runOn_meets h hexec ht (held_of_balanced hb held) fits).mono ?_
  rintro v u ⟨⟨hu, hbu⟩, -⟩
  exact ⟨hu, balanced_trans hb hbu⟩

theorem executeHandler_meets {hook : Option Lambda} (hk : KernelHolds I k) (held
    : InUse k p) :
    Meets C P E (executeHandler host exec p hook) k fun _ t => CallKeeps I k t := by
  cases hook with
  | none => exact meets_pure ⟨hk, balanced_refl k⟩
  | some lambda =>
    refine meets_bind ((runHandler_meets h hexec hk held).mono ?_)
    rintro v t ⟨ht, hb⟩
    refine meets_bind (meets_process h ht (known_of_held (held_of_balanced hb held)) ?_)
    intro R hR
    exact meets_pure ⟨ht, hb⟩

/-! ## State frames -/

/-- A process that leaves its state: in a transition, or as it is killed. -/
def StateEnds (k : Kernel σ μ) (p : ℕ) : Prop :=
  (∃ s l, k.history.leaving = (p, s) :: l) ∨ ∃ b l, k.history.dying = (p, b) :: l

omit h hexec in
theorem stateEnds_of_balanced (hb : Balanced k t) (hends : StateEnds k p) :
    StateEnds t p := by
  unfold StateEnds at hends ⊢
  rw [hb.leaving, hb.dying]
  exact hends

omit h hexec in
theorem held_of_stateEnds (hends : StateEnds k p) : InUse k p := by
  rcases hends with ⟨s, l, hl⟩ | ⟨b, l, hl⟩
  · have hmem : (p, s) ∈ k.history.leaving := by simp [hl]
    simp only [InUse]
    exact Or.inr (Or.inr (Or.inr (Or.inr (Or.inr (Or.inr (Or.inl ⟨s, hmem⟩))))))
  · have hmem : (p, b) ∈ k.history.dying := by simp [hl]
    simp only [InUse]
    exact Or.inr (Or.inr (Or.inr (Or.inr (Or.inl ⟨b, hmem⟩))))

theorem popFrame_meets {p f : ℕ} {rest : List ℕ} (hk : KernelHolds I k) (hends : StateEnds k p)
    (top : ∀ R, k.processes p = some R → R.stack = f :: rest) :
    Meets C P E (popFrame host exec p f rest) k fun _ t => CallKeeps I k t := by
  refine meets_bind (meets_process h hk (known_of_held (held_of_stateEnds hends)) ?_)
  intro R hcell
  refine meets_bind (meets_stateFrame h ?_)
  intro frame hframe
  refine meets_bind (meets_step h hk (.pop hcell (top R hcell) hends) fun hpop => ?_)
  have hdrop : ∀ t, CallKeeps I (k.popState p R f rest) t →
      Meets C P E (change (·.dropState f) : KernelM σ μ Unit) t fun _ u => CallKeeps I k u := by
    rintro t ⟨ht, hb⟩
    have hexiting : t.history.exiting = f :: k.history.exiting := hb.exiting
    refine meets_step h ht (.drop hexiting) fun hu => ⟨hu, ?_⟩
    exact
      { hb with
        exiting := by simp [Kernel.dropState, Kernel.setStateFrame, Kernel.noting, hexiting]
        stateFrames := by
          intro g frame' hg hframe'
          by_cases hgf : g = f
          · simp [Kernel.dropState, Kernel.setStateFrame, Kernel.noting, hgf] at hframe'
          · exact hb.stateFrames g frame' hg (by
              simpa [Kernel.dropState, Kernel.setStateFrame, Kernel.noting, hgf] using hframe') }
  have held : InUse (k.popState p R f rest) p := held_of_stateEnds hends
  cases frame.state.function .Exit with
  | none => exact hdrop _ ⟨hpop, balanced_refl _⟩
  | some lambda =>
    refine meets_bind ((runHandler_meets h hexec hpop held).mono ?_)
    intro v t ht
    exact hdrop t ht

theorem popFrames_meets (n : ℕ) (hk : KernelHolds I k) (hends : StateEnds k p) :
    Meets C P E (popFrames host exec n p) k fun _ t =>
      CallKeeps I k t ∧ ∃ R, t.processes p = some R ∧ R.stack = [] := by
  induction n generalizing k with
  | zero => exact meets_stop h.outOfFuel
  | succ n ih =>
    refine meets_bind (meets_process h hk (known_of_held (held_of_stateEnds hends)) ?_)
    intro R hcell
    cases hstack : R.stack with
    | nil => exact meets_pure ⟨⟨hk, balanced_refl k⟩, R, hcell, hstack⟩
    | cons f rest =>
      refine meets_bind ((popFrame_meets h hexec hk hends ?_).mono ?_)
      · intro R' hR'
        rw [hcell] at hR'
        cases hR'
        exact hstack
      · rintro _ t ⟨ht, hb⟩
        refine (ih ht (stateEnds_of_balanced hb hends)).mono ?_
        rintro _ u ⟨⟨hu, hbu⟩, hgone⟩
        exact ⟨⟨hu, balanced_trans hb hbu⟩, hgone⟩

/-! ## Transitions -/

omit hexec in
theorem newMainThread_meets {args : Arguments} (hk : KernelHolds I k) :
    Meets C P E (newMainThread host p s args) k fun main t =>
      CallKeeps I k t ∧ MainFits t p s main ∧ t.processes = k.processes := by
  unfold newMainThread
  cases hcode : s.function .Code with
  | none => exact meets_pure ⟨⟨hk, balanced_refl k⟩, hcode, rfl⟩
  | some lambda =>
    refine meets_bind (meets_newFrame h hk fun ht => ?_)
    refine meets_pure ⟨⟨ht, balanced_withFrame hk.2 _⟩, ?_, rfl⟩
    exact ⟨⟨lambda, host.enter lambda args, some p⟩, by simp [Kernel.withFrame, Kernel.setFrame],
      rfl, hcode⟩

/-- The kernel with a transition of a process at its end. -/
def Entering (k : Kernel σ μ) (p : ℕ) (s : ScriptState) : Kernel σ μ :=
  k.noting fun h => { h with entering := (p, s) :: h.entering }

/-- The state of a process is switched and its frame is pushed. -/
def switched (k : Kernel σ μ) (p : ℕ) (R Q : Process) (s : ScriptState) : Kernel σ μ :=
  ((k.switchState p R s).pushState p Q s).noting fun h => { h with leaving := h.leaving.tail }

omit h hexec in
theorem balanced_switched (hb : Balanced (k.beginTransition p s) t)
    (R Q : Process) : Balanced (Entering k p s) (switched t p R Q s) where
  pending := hb.pending
  quanta := hb.quanta
  settling := hb.settling
  spawning := hb.spawning
  begun := hb.begun
  dying := hb.dying
  called := hb.called
  leaving := congrArg List.tail hb.leaving
  entering := congrArg ((p, s) :: ·) hb.entering
  exiting := hb.exiting
  active := hb.active
  frames := hb.frames
  stateFrames := by
    intro f frame hf hframe
    have hle : k.stateFrameCount ≤ t.stateFrameCount := hb.stateFrameCount
    have hf : f < k.stateFrameCount := hf
    have hne : f ≠ t.stateFrameCount := by omega
    refine hb.stateFrames f frame hf ?_
    simpa [switched, Kernel.noting, Kernel.pushState, Kernel.switchState, Kernel.setStateFrame,
      Kernel.setProcess, hne] using hframe
  stateFrameCount := Nat.le_succ_of_le hb.stateFrameCount
  currentProcess := hb.currentProcess

omit h hexec in
theorem held_of_entering {l : List (ℕ × ScriptState)}
    (hentering : k.history.entering = (p, s) :: l) : InUse k p := by
  have hmem : (p, s) ∈ k.history.entering := by simp [hentering]
  exact Or.inr (Or.inr (Or.inr (Or.inr (Or.inr (Or.inr (Or.inr ⟨s, hmem⟩))))))

theorem enterState_meets {l : List (ℕ × ScriptState)}
    (hk : KernelHolds I k) (hentering : k.history.entering = (p, s) :: l) :
    Meets C P E (enterState host exec p s) k fun _ t =>
      CallKeeps I k t ∧ ∃ R, t.processes p = some R ∧ MainFits t p s R.mainThread := by
  refine meets_bind ((executeHandler_meets h hexec hk (held_of_entering hentering)).mono ?_)
  rintro _ t ⟨ht, hbt⟩
  refine meets_bind ((newMainThread_meets h ht).mono ?_)
  rintro main u ⟨⟨hu, hbu⟩, hfits, -⟩
  have hb := balanced_trans hbt hbu
  have hentering' : u.history.entering = (p, s) :: l := hb.entering.trans hentering
  refine meets_updateProcess h hu (known_of_held (held_of_entering hentering'))
    (fun R hR => .main hR hentering' hfits) ?_
  intro R hR hset
  refine ⟨⟨hset, balanced_trans hb (balanced_setProcess u p _)⟩, { R with mainThread := main },
    by simp [Kernel.setProcess], hfits⟩

/-- A transition, up to its end: the process has its frame and its main thread. -/
theorem executeDeferredTransition_meets (hk : KernelHolds I k)
    (hbegin : KernelStep host (fun a k => C a k ∧ P a k) k (k.beginTransition p s)) :
    Meets C P E (executeDeferredTransition host exec fuel p s) k fun _ t =>
      CallKeeps I (Entering k p s) t ∧
        ∃ R, t.processes p = some R ∧ MainFits t p s R.mainThread := by
  refine meets_bind (meets_step h hk hbegin fun hbegun => ?_)
  have hends : StateEnds (k.beginTransition p s) p := Or.inl ⟨s, k.history.leaving, rfl⟩
  refine meets_bind ((popFrames_meets h hexec fuel hbegun hends).mono ?_)
  rintro _ t ⟨⟨ht, hb⟩, R, hR, hstack⟩
  have hleaving : t.history.leaving = (p, s) :: k.history.leaving := hb.leaving
  have hheld : InUse t p := held_of_stateEnds (stateEnds_of_balanced hb hends)
  refine meets_bind (meets_process h ht (known_of_held hheld) ?_)
  intro R' hR'
  obtain rfl : R = R' := by simpa [hR] using hR'
  refine meets_bind (meets_step h ht (.switch hR hstack hleaving) fun hswitch => ?_)
  refine meets_bind (meets_process h hswitch (known_of_held hheld) ?_)
  intro Q hQ
  obtain rfl : { R with
      currentState := some s
      transHook := s.function .Update
      postHook := s.function .Post
      stateTime := 0 } = Q := by
    simpa [Kernel.switchState, Kernel.setProcess] using hQ
  refine meets_bind (meets_step h hswitch
    (.push hQ hstack rfl rfl rfl (Or.inl ⟨_, hleaving⟩)) fun hpush => ?_)
  refine meets_bind (meets_step h hpush (.left hleaving rfl) fun hleft => ?_)
  refine (enterState_meets h hexec hleft rfl).mono ?_
  rintro _ u ⟨⟨hu, hbu⟩, hmain⟩
  exact ⟨⟨hu, balanced_trans (balanced_switched hb R _) hbu⟩, hmain⟩

omit h hexec in
theorem balanced_endTransition (hb : Balanced (Entering k p s) t) :
    Balanced k (t.noting fun h => { h with entering := h.entering.tail }) :=
  { hb with entering := congrArg List.tail hb.entering }

theorem goState_meets (hk : KernelHolds I k) (known : Known k p) :
    Meets C P E (goState host exec fuel p s) k fun _ t => CallKeeps I k t := by
  refine meets_bind (meets_noted h hk known fun hc => ?_)
  refine meets_bind (meets_process h hk known ?_)
  intro R hR
  by_cases hstatus : R.status = .RUNNING
  · simp only [hstatus, if_true]
    refine meets_bind (meets_step h hk (.defer hR hstatus hc) fun ht => ?_)
    exact meets_pure ⟨ht, { balanced_refl k with }⟩
  · simp only [hstatus, if_false]
    refine meets_bind ((executeDeferredTransition_meets h hexec hk
      (.beginNow hR hstatus hc)).mono ?_)
    rintro _ t ⟨⟨ht, hb⟩, Q, hQ, hfits⟩
    have hentering : t.history.entering = (p, s) :: k.history.entering := hb.entering
    refine meets_bind (meets_step h ht (.entered hQ hentering hfits) fun hu => ?_)
    exact meets_pure ⟨hu, balanced_endTransition hb⟩

theorem goStateById_meets {state : Word} (hk : KernelHolds I k) (known : Known k p) :
    Meets C P E (goStateById host exec fuel p state) k fun _ t => CallKeeps I k t := by
  refine meets_bind (meets_process h hk known ?_)
  intro R hR
  cases R.type.resolveState state with
  | none => exact meets_pure ⟨hk, balanced_refl k⟩
  | some s => exact goState_meets h hexec hk known

/-! ## Events -/

theorem sendEvent_meets {source p : ℕ} {event : Word} {params : List Variant} (hk : KernelHolds I k)
    (known : Known k p) :
    Meets C P E (sendEvent host exec source p event params) k fun _ t => CallKeeps I k t := by
  refine meets_bind (meets_process h hk known ?_)
  intro R hR
  split
  · exact meets_pure ⟨hk, balanced_refl k⟩
  cases R.eventHandler event with
  | none => exact meets_pure ⟨hk, balanced_refl k⟩
  | some lambda =>
    refine meets_bind (meets_step h hk (.call hR) fun hcall => ?_)
    have held : InUse (k.noting fun h => { h with called := p :: h.called }) p :=
      Or.inr (Or.inr (Or.inr (Or.inr (Or.inr (Or.inl (by simp [Kernel.noting]))))))
    refine meets_bind ((runHandler_meets h hexec hcall held).mono ?_)
    rintro v t ⟨ht, hb⟩
    refine meets_bind (meets_process h ht (known_of_held (held_of_balanced hb held)) ?_)
    intro Q hQ
    have hcalled : t.history.called = p :: k.history.called := hb.called
    refine meets_bind (meets_step h ht (.called hcalled) fun hu => ?_)
    exact meets_pure ⟨hu, { hb with called := congrArg List.tail hb.called }⟩

/-! ## Tracks -/

/-- A state frame that was pushed for a process. -/
def PushedFor (k : Kernel σ μ) (p f : ℕ) : Prop :=
  f < k.stateFrameCount ∧ ∀ frame, k.stateFrames f = some frame → frame.process = p

omit h hexec in
theorem pushedFor_of_balanced (hb : Balanced k t) {p f : ℕ} (hf : PushedFor k p f) :
    PushedFor t p f := by
  refine ⟨Nat.lt_of_lt_of_le hf.1 hb.stateFrameCount, ?_⟩
  intro frame hframe
  obtain ⟨frame', hframe', hprocess⟩ := hb.stateFrames f frame hf.1 hframe
  exact hprocess.symm.trans (hf.2 frame' hframe')

omit h hexec in
theorem balanced_setStateFrame {f : ℕ} {frame frame' : StateFrame}
    (hframe : k.stateFrames f = some frame) (hprocess : frame'.process = frame.process) :
    Balanced k (k.setStateFrame f (some frame')) :=
  { balanced_refl k with
    stateFrames := by
      intro g old hg hold
      by_cases hgf : g = f
      · subst hgf
        obtain rfl : frame' = old := by simpa [Kernel.setStateFrame] using hold
        exact ⟨frame, hframe, hprocess.symm⟩
      · exact ⟨old, by simpa [Kernel.setStateFrame, hgf] using hold, rfl⟩ }

omit hexec in
/-- A track frame is changed, and its main frame, if that is new, is one of the
process. -/
theorem updateTrack_meets {p f i : ℕ} {g : TrackFrame → TrackFrame} (hk : KernelHolds I k)
    (hf : PushedFor k p f) (htrack : ∀ t, (g t).track = t.track)
    (hmain : ∀ t F, (g t).mainFrame = some F → t.mainFrame = some F ∨
      ∃ c, k.frames F = some c ∧ c.process = some p) :
    Meets C P E (updateTrack f i g : KernelM σ μ Unit) k fun _ t => CallKeeps I k t := by
  refine meets_bind (meets_stateFrame h ?_)
  intro frame hframe
  have hmoves : TracksMove k frame (frame.tracks.modify i g) := by
    constructor
    · apply List.ext_getElem?
      intro j
      simp only [List.getElem?_map, List.getElem?_modify]
      by_cases hij : i = j <;> cases frame.tracks[j]? <;> simp [hij, htrack]
    · intro t ht F hF
      obtain ⟨j, hj⟩ := List.getElem?_of_mem ht
      rw [List.getElem?_modify] at hj
      cases hold : frame.tracks[j]? with
      | none => simp [hold] at hj
      | some t' =>
        have hmem : t' ∈ frame.tracks := List.mem_of_getElem? hold
        by_cases hij : i = j
        · obtain rfl : g t' = t := by simpa [hold, hij] using hj
          rcases hmain t' F hF with h' | h'
          · exact Or.inl ⟨t', hmem, h'⟩
          · rw [← hf.2 frame hframe] at h'
            exact Or.inr h'
        · obtain rfl : t' = t := by simpa [hold, hij] using hj
          exact Or.inl ⟨t', hmem, hF⟩
  refine meets_step h hk (.tracks hframe hmoves) fun ht => ?_
  exact ⟨ht, balanced_setStateFrame hframe rfl⟩

theorem runTrackLambda_meets {p F : ℕ} (hk : KernelHolds I k) (held : InUse k p) (fits
    : FrameFits k p F) :
    Meets C P E (runTrackLambda exec p F) k fun _ t => CallKeeps I k t := by
  refine meets_bind ((runOn_meets h hexec hk held fits).mono ?_)
  rintro v t ⟨ht, -⟩
  exact meets_bind (meets_observe (meets_pure ht))

omit h hexec in
theorem fits_withFrame (k : Kernel σ μ) (p : ℕ) (lambda : Lambda) (code : σ) :
    FrameFits (k.withFrame ⟨lambda, code, some p⟩) p k.frameCount :=
  Or.inl ⟨⟨lambda, code, some p⟩, by simp [Kernel.withFrame, Kernel.setFrame], rfl⟩

theorem runMains_meets {p f i : ℕ} (ls : List TrackLambda) (hk : KernelHolds I k) (held : InUse k p)
    (hf : PushedFor k p f) :
    Meets C P E (runMains host exec p f i ls) k fun _ t => CallKeeps I k t := by
  induction ls generalizing k with
  | nil => exact meets_pure ⟨hk, balanced_refl k⟩
  | cons l ls ih =>
    rw [runMains]
    cases l.scriptLambda with
    | none => exact ih hk held hf
    | some lambda =>
      refine meets_bind (meets_newFrame h hk fun ht => ?_)
      have hbt := balanced_withFrame hk.2 ⟨lambda, host.enter lambda .nothing, some p⟩
      refine meets_bind ((updateTrack_meets h ht (pushedFor_of_balanced hbt hf)
        (by intro _; rfl) ?_).mono ?_)
      · rintro t F ⟨⟩
        exact Or.inr ⟨⟨lambda, host.enter lambda .nothing, some p⟩,
          by simp [Kernel.withFrame, Kernel.setFrame], rfl⟩
      rintro _ u ⟨hu, hbu⟩
      have hb := balanced_trans hbt hbu
      have hfits : FrameFits u p k.frameCount := by
        obtain ⟨c, hc, -, hprocess⟩ := hbu.frames k.frameCount _ (by
          simp [Kernel.withFrame, Kernel.setFrame]; rfl)
        exact Or.inl ⟨c, hc, hprocess⟩
      refine meets_bind ((runTrackLambda_meets h hexec hu (held_of_balanced hb held) hfits).mono ?_)
      rintro yielded v ⟨hv, hbv⟩
      have hb := balanced_trans hb hbv
      cases yielded with
      | true =>
        refine meets_bind ((updateTrack_meets h hv (pushedFor_of_balanced hb hf)
          (by intro _; rfl) (by intro _ _ h; exact Or.inl h)).mono ?_)
        rintro _ w ⟨hw, hbw⟩
        exact meets_pure ⟨hw, balanced_trans hb hbw⟩
      | false =>
        refine meets_bind ((updateTrack_meets h hv (pushedFor_of_balanced hb hf)
          (by intro _; rfl) (by rintro _ _ ⟨⟩)).mono ?_)
        rintro _ w ⟨hw, hbw⟩
        have hb := balanced_trans hb hbw
        refine (ih hw (held_of_balanced hb held) (pushedFor_of_balanced hb hf)).mono ?_
        rintro _ x ⟨hx, hbx⟩
        exact ⟨hx, balanced_trans hb hbx⟩

omit h hexec in
theorem machineMoves_yielded (k : Kernel σ μ) (b : Bool) :
    MachineMoves k { k with isYielded := b } :=
  ⟨rfl, fun _ => rfl, Or.inl rfl⟩

theorem runFrameLambdas_meets {p f i : ℕ} (ls : List TrackLambda) (hk : KernelHolds I k)
    (held : InUse k p) :
    Meets C P E (runFrameLambdas host exec p f i ls) k fun _ t => CallKeeps I k t := by
  induction ls generalizing k with
  | nil => exact meets_pure ⟨hk, balanced_refl k⟩
  | cons l ls ih =>
    refine meets_bind (meets_trackFrame h ?_)
    intro frame track _ _
    cases l.scriptLambda with
    | none => exact ih hk held
    | some lambda =>
      dsimp only
      split
      · exact ih hk held
      refine meets_bind (meets_newFrame h hk fun ht => ?_)
      have hbt := balanced_withFrame hk.2 ⟨lambda, host.enter lambda .nothing, some p⟩
      refine meets_bind ((runTrackLambda_meets h hexec ht (held_of_balanced hbt held)
        (fits_withFrame k p lambda _)).mono ?_)
      rintro yielded u ⟨hu, hbu⟩
      have hb := balanced_trans hbt hbu
      have hrest : ∀ v, CallKeeps I k v →
          Meets C P E (runFrameLambdas host exec p f i ls) v fun _ w => CallKeeps I k w := by
        rintro v ⟨hv, hbv⟩
        refine (ih hv (held_of_balanced hbv held)).mono ?_
        rintro _ w ⟨hw, hbw⟩
        exact ⟨hw, balanced_trans hbv hbw⟩
      cases yielded with
      | true =>
        refine meets_bind (meets_step h hu (.machine (machineMoves_yielded u false)) fun hv => ?_)
        exact hrest _ ⟨hv, balanced_trans hb (balanced_of_same rfl rfl rfl rfl rfl)⟩
      | false => exact hrest u ⟨hu, hb⟩

theorem tickMain_meets {p f i : ℕ} {frame : StateFrame} {track : TrackFrame} (hk : KernelHolds I k)
    (held : InUse k p) (hf : PushedFor k p f) (hframe : k.stateFrames f = some frame)
    (htrack : frame.tracks[i]? = some track) :
    Meets C P E (tickMain host exec p f i track) k fun _ t => CallKeeps I k t := by
  have hupdate : ∀ t g, CallKeeps I k t → (∀ x : TrackFrame, (g x).track = x.track) →
      (∀ x F, (g x).mainFrame = some F → x.mainFrame = some F) →
      Meets C P E (updateTrack f i g : KernelM σ μ Unit) t fun _ u => CallKeeps I k u := by
    rintro t g ⟨ht, hb⟩ htrack hmain
    refine (updateTrack_meets h ht (pushedFor_of_balanced hb hf) htrack
      fun x F hF => Or.inl (hmain x F hF)).mono ?_
    rintro _ u ⟨hu, hbu⟩
    exact ⟨hu, balanced_trans hb hbu⟩
  unfold tickMain
  split
  · refine meets_bind ((runMains_meets h hexec _ hk held hf).mono ?_)
    rintro yielded t ht
    cases yielded with
    | true => exact meets_pure ht
    | false =>
      refine meets_bind ((hupdate t _ ht (by intro _; rfl) (by intro _ _ h; exact h)).mono ?_)
      intro _ u hu
      exact meets_pure hu
  · cases hmain : track.mainFrame with
    | none => exact meets_pure ⟨hk, balanced_refl k⟩
    | some F =>
      have hfits : FrameFits k p F := Or.inr (Or.inr
        ⟨f, frame, track, hframe, hf.2 frame hframe, List.mem_of_getElem? htrack, hmain⟩)
      refine meets_bind ((runTrackLambda_meets h hexec hk held hfits).mono ?_)
      intro yielded t ht
      cases yielded with
      | true => exact meets_pure ht
      | false =>
        refine meets_bind ((hupdate t _ ht (by intro _; rfl) (by rintro _ _ ⟨⟩)).mono ?_)
        intro _ u hu
        exact meets_pure hu

theorem tickTrack_meets {p f i : ℕ} (hk : KernelHolds I k) (held : InUse k p) (hf
    : PushedFor k p f) :
    Meets C P E (tickTrack host exec p f i) k fun _ t => CallKeeps I k t := by
  refine meets_bind (meets_trackFrame h ?_)
  intro frame track hframe htrack
  split
  · exact meets_pure ⟨hk, balanced_refl k⟩
  refine meets_bind ((tickMain_meets h hexec hk held hf hframe htrack).mono ?_)
  rintro yielded t ⟨ht, hb⟩
  cases yielded with
  | true => exact meets_pure ⟨ht, hb⟩
  | false =>
    refine meets_bind ((runFrameLambdas_meets h hexec _ ht (held_of_balanced hb held)).mono ?_)
    rintro _ u ⟨hu, hbu⟩
    have hb := balanced_trans hb hbu
    refine (updateTrack_meets h hu (pushedFor_of_balanced hb hf) (by intro _; rfl)
      (by intro _ _ h; exact Or.inl h)).mono ?_
    rintro _ v ⟨hv, hbv⟩
    exact ⟨hv, balanced_trans hb hbv⟩

theorem tickTracks_meets {p f : ℕ} (is : List ℕ) (hk : KernelHolds I k) (held : InUse k p)
    (hf : PushedFor k p f) :
    Meets C P E (tickTracks host exec p f is) k fun _ t => CallKeeps I k t := by
  induction is generalizing k with
  | nil => exact meets_pure ⟨hk, balanced_refl k⟩
  | cons i is ih =>
    refine meets_bind ((tickTrack_meets h hexec hk held hf).mono ?_)
    rintro _ t ⟨ht, hb⟩
    refine meets_bind (meets_observe ?_)
    split
    · exact meets_pure ⟨ht, hb⟩
    refine (ih ht (held_of_balanced hb held) (pushedFor_of_balanced hb hf)).mono ?_
    rintro _ u ⟨hu, hbu⟩
    exact ⟨hu, balanced_trans hb hbu⟩

/-! ## The quantum -/

theorem applyPending_meets (hk : KernelHolds I k)
    (hquanta : k.history.quanta = (p, false) :: l) :
    Meets C P E (applyPending host exec fuel p) k fun _ t => CallKeeps I k t := by
  have held : InUse k p := held_of_quanta hquanta
  refine meets_bind (meets_process h hk (known_of_held held) ?_)
  intro R hR
  cases hnext : R.nextState with
  | none => exact meets_pure ⟨hk, balanced_refl k⟩
  | some s =>
    refine meets_bind ((executeDeferredTransition_meets h hexec hk
      (.beginPending hR hnext hquanta)).mono ?_)
    rintro _ t ⟨⟨ht, hb⟩, Q, hQ, hfits⟩
    have hentering : t.history.entering = (p, s) :: k.history.entering := hb.entering
    refine meets_bind (meets_updateProcess h ht (known_of_held (held_of_entering hentering))
      (fun R hR => .clearPending hR hentering) ?_)
    intro Q' hQ' hu
    obtain rfl : Q = Q' := by simpa [hQ] using hQ'
    refine meets_step h hu (.entered
      (P := { Q with nextState := none, mask := Q.mask &&& ~~~MASK_GOING })
      (by simp [Kernel.setProcess]) hentering hfits) fun hv => ⟨hv, ?_⟩
    exact balanced_endTransition (balanced_trans hb (balanced_setProcess t p _))

theorem executeTransHandler_meets (hk : KernelHolds I k) (held : InUse k p) :
    Meets C P E (executeTransHandler host exec p) k fun _ t => CallKeeps I k t := by
  refine meets_bind (meets_process h hk (known_of_held held) ?_)
  intro R hR
  exact executeHandler_meets h hexec hk held

theorem executePostHandler_meets (hk : KernelHolds I k) (held : InUse k p) :
    Meets C P E (executePostHandler host exec p) k fun _ t => CallKeeps I k t := by
  refine meets_bind (meets_process h hk (known_of_held held) ?_)
  intro R hR
  exact executeHandler_meets h hexec hk held

theorem tickState_meets (hk : KernelHolds I k) (held : InUse k p) :
    Meets C P E (tickState host exec p) k fun _ t => CallKeeps I k t := by
  refine meets_bind (meets_process h hk (known_of_held held) ?_)
  intro R hR
  cases hf : R.currentStateFrame with
  | none => exact meets_pure ⟨hk, balanced_refl k⟩
  | some f =>
    refine meets_bind (meets_stateFrame h ?_)
    intro frame hframe
    refine meets_bind ((tickTracks_meets h hexec _ hk held (hk.2.current p R f hR hf)).mono ?_)
    intro _ t ht
    exact meets_bind (meets_observe (meets_pure ht))

theorem runMainThread_meets (hk : KernelHolds I k)
    (hquanta : k.history.quanta = (p, true) :: l) :
    Meets C P E (runMainThread exec p) k fun _ t => CallKeeps I k t := by
  have held : InUse k p := held_of_quanta hquanta
  refine meets_bind (meets_process h hk (known_of_held held) ?_)
  intro R hR
  cases hmain : R.mainThread with
  | none => exact meets_pure ⟨hk, balanced_refl k⟩
  | some F =>
    refine meets_bind ((runOn_meets h hexec hk held (Or.inr (Or.inl ⟨R, hR, hmain⟩))).mono ?_)
    rintro v t ⟨⟨ht, hb⟩, hsettled⟩
    have hquanta' : t.history.quanta = (p, true) :: l := hb.quanta.trans hquanta
    refine meets_bind (meets_noted h ht ⟨l, hquanta'⟩ fun hc => ?_)
    refine meets_bind (meets_observe ?_)
    refine meets_updateProcess h ht (known_of_held (held_of_balanced hb held))
      (fun Q hQ => .parks hQ hquanta' hsettled hc) ?_
    intro Q hQ hu
    exact ⟨hu, balanced_trans hb (balanced_setProcess t p _)⟩

omit hexec in
theorem markRested_meets {R : Process} (ht : KernelHolds I t)
    (hquanta : k.history.quanta = (p, false) :: l) (hb : Balanced (k.markRunning p R) t)
    (f : Process → Process)
    (hrests : ∀ S, f S = { S with status := .READY } ∨ f S = settleStatus S) :
    Meets C P E (do
      let S ← process p
      change (·.markRested p (f S)) : KernelM σ μ Unit) t fun _ u => CallKeeps I k u := by
  have hquanta' : t.history.quanta = (p, true) :: l := by
    rw [hb.quanta]
    simp [Kernel.markRunning, Kernel.noting, Kernel.setProcess, hquanta]
  refine meets_bind (meets_process h ht (known_of_held (held_of_quanta hquanta')) ?_)
  intro S hS
  refine meets_step h ht (.rested hS hquanta' (hrests S)) fun hu => ⟨hu, ?_⟩
  exact
    { hb with
      quanta := by
        simp [Kernel.markRested, Kernel.noting, Kernel.setProcess, hquanta, hquanta'] }

theorem runQuantum_meets (hk : KernelHolds I k)
    (hquanta : k.history.quanta = (p, false) :: l) :
    Meets C P E (runQuantum host exec p) k fun _ t => CallKeeps I k t := by
  have held : InUse k p := held_of_quanta hquanta
  refine meets_bind (meets_process h hk (known_of_held held) ?_)
  intro R hR
  refine meets_bind (meets_step h hk (.running hR hquanta) fun hrun => ?_)
  have hquanta' : (k.markRunning p R).history.quanta = (p, true) :: l := by
    simp [Kernel.markRunning, Kernel.noting, Kernel.setProcess, hquanta]
  have held' : InUse (k.markRunning p R) p := held_of_quanta hquanta'
  refine meets_bind ((executeTransHandler_meets h hexec hrun held').mono ?_)
  rintro _ t ⟨ht, hbt⟩
  refine meets_bind ((tickState_meets h hexec ht (held_of_balanced hbt held')).mono ?_)
  rintro yielded u ⟨hu, hbu⟩
  have hb := balanced_trans hbt hbu
  cases yielded with
  | true =>
    refine meets_bind (meets_step h hu (.machine (machineMoves_yielded u false)) fun hv => ?_)
    exact markRested_meets h hv hquanta
      (balanced_trans hb (balanced_of_same rfl rfl rfl rfl rfl))
      (fun S => { S with status := .READY }) fun _ => Or.inl rfl
  | false =>
    refine meets_bind ((runMainThread_meets h hexec hu (hb.quanta.trans hquanta')).mono ?_)
    rintro _ v ⟨hv, hbv⟩
    have hb := balanced_trans hb hbv
    refine meets_bind ((executePostHandler_meets h hexec hv (held_of_balanced hb held')).mono ?_)
    rintro _ w ⟨hw, hbw⟩
    exact markRested_meets h hw hquanta (balanced_trans hb hbw) settleStatus fun _ => Or.inr rfl

theorem executeQuantum_meets (hk : KernelHolds I k)
    (hquanta : k.history.quanta = (p, false) :: l) :
    Meets C P E (executeQuantum host exec fuel p) k fun _ t => CallKeeps I k t := by
  have held : InUse k p := held_of_quanta hquanta
  refine meets_bind (meets_process h hk (known_of_held held) ?_)
  intro R hR
  split
  · exact meets_pure ⟨hk, balanced_refl k⟩
  refine meets_bind ((applyPending_meets h hexec hk hquanta).mono ?_)
  rintro _ t ⟨ht, hb⟩
  have hquanta := hb.quanta.trans hquanta
  have held := held_of_balanced hb held
  refine meets_bind (meets_process h ht (known_of_held held) ?_)
  intro Q hQ
  split
  · refine meets_bind (meets_updateProcess h ht (known_of_held held)
      (fun R hR => .clock hR rfl) ?_)
    intro R hR hu
    have hbu := balanced_setProcess t p (some { R with stateTime := R.stateTime + 1 })
    refine meets_bind ((executeTransHandler_meets h hexec hu (held_of_balanced hbu held)).mono ?_)
    rintro _ v ⟨hv, hbv⟩
    have hbv := balanced_trans hbu hbv
    refine (executePostHandler_meets h hexec hv (held_of_balanced hbv held)).mono ?_
    rintro _ w ⟨hw, hbw⟩
    exact ⟨hw, balanced_trans hb (balanced_trans hbv hbw)⟩
  · refine (runQuantum_meets h hexec ht hquanta).mono ?_
    rintro _ u ⟨hu, hbu⟩
    exact ⟨hu, balanced_trans hb hbu⟩

/-! ## Killing -/

omit h hexec in
theorem held_of_dying {b : Bool}
    (hdying : k.history.dying = (p, b) :: l) : InUse k p :=
  held_of_stateEnds (Or.inr ⟨b, l, hdying⟩)

/-- The kernel with a process being torn down. -/
def Dying (k : Kernel σ μ) (p : ℕ) (b : Bool) : Kernel σ μ :=
  k.noting fun h => { h with dying := (p, b) :: h.dying }

/-- A process is being removed since it was killed or found dead, with the calls of then. -/
def RemovalBegun (C P : KernelAction → Kernel σ μ → Prop) (u : Kernel σ μ) (p : ℕ) : Prop :=
  ∃ k₀, ((C (.kills p) k₀ ∧ P (.kills p) k₀) ∨ (C (.buries p) k₀ ∧ P (.buries p) k₀)) ∧
    u.history.called = k₀.history.called ∧ u.history.leaving = k₀.history.leaving ∧
    u.history.entering = k₀.history.entering

theorem removeProcess_meets (hk : KernelHolds I k) (hb : Balanced (Dying u p false) k)
    (hbegun : RemovalBegun C P u p) :
    Meets C P E (removeProcess host exec fuel p) k fun _ t => CallKeeps I u t := by
  have hdying : k.history.dying = (p, false) :: u.history.dying := hb.dying
  refine meets_bind (meets_process h hk (known_of_held (held_of_dying hdying)) ?_)
  intro R hR
  refine meets_bind (meets_step h hk (.unlist hR hdying) fun ht => ?_)
  have hbt : Balanced (Dying u p true) (k.unlist p R.pid) :=
    { hb with dying := congrArg (fun l : List (ℕ × Bool) => (p, true) :: l.tail) hdying }
  have hdying' := hbt.dying
  refine meets_bind (meets_observe ?_)
  split
  · refine meets_bind ((popFrames_meets h hexec fuel ht (Or.inr ⟨true, _, hdying'⟩)).mono ?_)
    rintro _ v ⟨⟨hv, hbv⟩, Q, hQ, hstack⟩
    obtain ⟨k₀, hk₀, hcalled, hleaving, hentering⟩ := hbegun
    have hb := balanced_trans hbt hbv
    refine meets_step h hv (.delete hQ hb.dying hstack hk₀ (hb.called.trans hcalled)
      (hb.leaving.trans hleaving) (hb.entering.trans hentering)) fun hw => ⟨hw, ?_⟩
    exact { hb with dying := congrArg List.tail hb.dying }
  · next hall =>
    refine meets_step h ht (.unlisted hdying' hall) fun hw => ⟨hw, ?_⟩
    exact { hbt with dying := congrArg List.tail hbt.dying }

theorem killRecursive_killChildren_meets (n : ℕ) :
    (∀ k p, KernelHolds I k → (k.processes p = none → E .freedProcess) →
      Meets C P E (killRecursive host exec n p) k fun _ t => CallKeeps I k t) ∧
    ∀ k p l, KernelHolds I k → k.history.dying = (p, false) :: l →
      Meets C P E (killChildren host exec n p) k fun _ t => CallKeeps I k t := by
  induction n with
  | zero =>
    constructor
    · intro k p _ _
      rw [killRecursive]
      exact meets_stop h.outOfFuel
    · intro k p l _ _
      rw [killChildren]
      exact meets_stop h.outOfFuel
  | succ n ih =>
    obtain ⟨ihkill, ihchildren⟩ := ih
    constructor
    · intro k p hk hthere
      rw [killRecursive]
      refine meets_bind (meets_read hthere ?_)
      intro R hR
      split
      · exact meets_pure ⟨hk, balanced_refl k⟩
      next halive =>
      have halive : R.isDead = false := by simpa using halive
      refine meets_bind (meets_noted h hk ⟨R, hR, halive⟩ fun hc => ?_)
      refine meets_bind (meets_step h hk (.detach hR halive hc) fun hdetach => ?_)
      have hb : Balanced (Dying k p false) (k.detach p) :=
        { balanced_refl (Dying k p false) with }
      have hdying : (Dying k p false).history.dying = (p, false) :: k.history.dying := rfl
      refine meets_bind ((ihchildren _ p _ hdetach hdying).mono ?_)
      rintro _ t ⟨ht, hbt⟩
      have hb := balanced_trans hb hbt
      refine meets_bind ((popFrames_meets h hexec n ht
        (Or.inr ⟨false, _, hb.dying.trans hdying⟩)).mono ?_)
      rintro _ u ⟨⟨hu, hbu⟩, -⟩
      have hb := balanced_trans hb hbu
      have hheld : InUse u p := held_of_dying (hb.dying.trans hdying)
      refine meets_bind (meets_updateProcess h hu (known_of_held hheld)
        (fun Q hQ => .die hQ (hb.dying.trans hdying)) ?_)
      intro Q hQ hv
      have hb := balanced_trans hb (balanced_setProcess u p (some { Q with status := .DEAD }))
      have hbegun : RemovalBegun C P k p := ⟨k, Or.inl hc, rfl, rfl, rfl⟩
      refine meets_bind ((removeProcess_meets h hexec hv hb hbegun).mono ?_)
      rintro _ w ⟨hw, hbw⟩
      exact meets_noted h hw ⟨k, hc, hbw.pending, hbw.quanta, hbw.settling⟩ fun _ => ⟨hw, hbw⟩
    · intro k p l hk hdying
      rw [killChildren]
      refine meets_bind (meets_process h hk (known_of_held (held_of_dying hdying)) ?_)
      intro R hR
      cases hchildren : R.children with
      | nil => exact meets_pure ⟨hk, balanced_refl k⟩
      | cons c cs =>
        have hc : Known k c := Or.inr (Or.inr (Or.inr (Or.inr (Or.inr
          ⟨p, R, hR, by simp [hchildren]⟩))))
        refine meets_bind (meets_process h hk hc ?_)
        intro S hS
        refine meets_bind (meets_updateProcess h hk (known_of_held (held_of_dying hdying))
          (fun Q hQ => .child (c := c) hQ hdying (by
            obtain rfl : R = Q := by simpa [hR] using hQ
            exact hchildren)) ?_)
        intro Q hQ ht
        have hbt := balanced_setProcess k p (some { Q with children := cs })
        have hthere : (k.setProcess p (some { Q with children := cs })).processes c ≠ none := by
          by_cases hcp : c = p <;> simp [Kernel.setProcess, hcp]
          simp [hS]
        refine meets_bind ((ihkill _ c ht fun hnone => absurd hnone hthere).mono ?_)
        rintro _ u ⟨hu, hbu⟩
        have hb := balanced_trans hbt hbu
        refine (ihchildren u p l hu (hb.dying.trans hdying)).mono ?_
        rintro _ v ⟨hv, hbv⟩
        exact ⟨hv, balanced_trans hb hbv⟩

omit hexec h in
theorem find_meets {pid : ℕ} {Q : Option ℕ → Kernel σ μ → Prop}
    (hQ : ∀ r, (∀ p, r = some p → Known k p) → Q r k) :
    Meets C P E (find pid : KernelM σ μ (Option ℕ)) k Q := by
  refine meets_bind (meets_observe (meets_pure (hQ _ ?_)))
  intro p hp
  obtain ⟨l₁, l₂, heq, -⟩ := List.lookup_eq_some_iff.mp hp
  exact Or.inr (Or.inr (Or.inr (Or.inl ⟨pid, by rw [heq]; simp⟩)))

theorem kill_meets {pid : ℕ} (hk : KernelHolds I k) :
    Meets C P E (kill host exec fuel pid) k fun _ t => CallKeeps I k t := by
  refine meets_bind (find_meets ?_)
  intro r hr
  cases r with
  | none => exact meets_pure ⟨hk, balanced_refl k⟩
  | some p =>
    exact (killRecursive_killChildren_meets h hexec fuel).1 k p hk (h.known k p hk.1 (hr p rfl))

/-! ## Spawning -/

/-- The kernel with a process being spawned. -/
def Spawning (k : Kernel σ μ) (p : ℕ) (s : ScriptState) : Kernel σ μ :=
  k.noting fun h => { h with spawning := p :: h.spawning, entering := (p, s) :: h.entering }

omit h hexec in
theorem held_of_spawning {l : List ℕ} (hspawning : k.history.spawning = p :: l) :
    InUse k p :=
  Or.inr (Or.inr (Or.inr (Or.inl (by simp [hspawning]))))

omit hexec in
theorem newProcess_meets {name : Word} {script : StateScript} {pid : ℕ}
    (hk : KernelHolds I k) (hentry : host.entries name = some script)
    (hstate : script.resolveState script.initialStateId = some s) :
    Meets C P E (newProcess (freshProcess pid name script s) s : KernelM σ μ ℕ) k fun p t =>
      KernelHolds I t ∧ Balanced (Spawning k p s) t := by
  refine meets_bind (meets_observe ?_)
  refine meets_bind (meets_step h hk (.create pid hentry hstate) fun ht => ?_)
  refine meets_bind (meets_step h ht (.push (P := freshProcess pid name script s)
    (by simp [Kernel.withProcess, Kernel.setProcess]) rfl rfl rfl rfl
    (Or.inr ⟨⟨k.history.spawning, rfl⟩, by simp [Kernel.withProcess], rfl, rfl⟩)) fun hu => ?_)
  refine meets_pure ⟨hu, ?_⟩
  exact
    { balanced_refl (Spawning k k.processCount s) with
      stateFrames := by
        intro f frame hf hframe
        have hf : f < k.stateFrameCount := hf
        have hne : f ≠ k.stateFrameCount := by omega
        refine ⟨frame, ?_, rfl⟩
        show k.stateFrames f = some frame
        simpa [Kernel.pushState, Kernel.withProcess, Kernel.setStateFrame, Kernel.setProcess, hne]
          using hframe
      stateFrameCount := Nat.le_succ _ }

theorem enterFirst_meets {l : List ℕ} (hk : KernelHolds I k)
    (hspawning : k.history.spawning = p :: l) :
    Meets C P E (enterFirst host exec p s) k fun _ t =>
      CallKeeps I k t ∧ t.currentProcess = none := by
  refine meets_bind (meets_noted h hk ⟨l, hspawning⟩ fun hbegin => ?_)
  refine meets_bind (meets_step h hk (.begins hspawning hbegin) fun ht => ?_)
  have hclear : ∀ t, CallKeeps I (k.beginEnter p) t → Meets C P E (do
      note (.clears p)
      change (·.endEnter) : KernelM σ μ Unit) t fun _ u =>
        CallKeeps I k u ∧ u.currentProcess = none := by
    rintro t ⟨ht, hb⟩
    have hspawning' : t.history.spawning = p :: l := hb.spawning.trans hspawning
    refine meets_bind (meets_noted h ht (Or.inl ⟨l, hspawning'⟩) fun hc => ?_)
    refine meets_step h ht (.begun hspawning' hbegin hb.quanta hb.begun hb.active hc)
      fun hu => ⟨⟨hu, ?_⟩, rfl⟩
    exact
      { hb with
        begun := congrArg List.tail hb.begun
        currentProcess := Or.inr rfl }
  cases s.function .Enter with
  | none => exact hclear _ ⟨ht, balanced_refl _⟩
  | some lambda =>
    have held : InUse (k.beginEnter p) p := held_of_spawning (l := l) hspawning
    refine meets_bind ((runHandler_meets h hexec ht held).mono ?_)
    intro v u hu
    exact hclear u hu

omit hexec in
theorem makeReady_meets (hk : KernelHolds I k)
    (hb : Balanced (Spawning u p s) k) (hcurrent : k.currentProcess = none) :
    Meets C P E (makeReady host p s args) k fun _ t => CallKeeps I u t := by
  have hready : ∀ t, CallKeeps I k t →
      (s.function .Code ≠ none → ∃ R, t.processes p = some R ∧ MainFits t p s R.mainThread) →
      Meets C P E (do
        updateProcess p fun P => { P with status := .READY }
        note (.lists p)
        let P ← process p
        change (·.list p P)
        return P.pid : KernelM σ μ ℕ) t fun _ v => CallKeeps I u v := by
    rintro t ⟨ht, hbt⟩ hmain
    have hb := balanced_trans hb hbt
    have hspawning : t.history.spawning = p :: u.history.spawning := hb.spawning
    have hentering : t.history.entering = (p, s) :: u.history.entering := hb.entering
    have held : InUse t p := held_of_spawning hspawning
    refine meets_bind (meets_updateProcess h ht (known_of_held held)
      (fun R hR => .readied hR hspawning) ?_)
    intro R hR hv
    have hbv := balanced_setProcess t p (some { R with status := .READY })
    refine meets_bind (meets_noted h hv ⟨_, hspawning⟩ fun hc => ?_)
    refine meets_bind (meets_process h hv (known_of_held (held_of_balanced hbv held)) ?_)
    intro Q hQ
    obtain rfl : { R with status := .READY } = Q := by simpa [Kernel.setProcess] using hQ
    have hfits : s.function .Code ≠ none →
        MainFits (t.setProcess p (some { R with status := .READY })) p s R.mainThread := by
      intro hcode
      obtain ⟨R', hR', hfits⟩ := hmain hcode
      obtain rfl : R = R' := by simpa [hR] using hR'
      exact hfits
    have hnone : t.currentProcess = none := currentProcess_of_balanced hbt hcurrent
    refine meets_bind (meets_step h hv (.list hQ rfl hspawning hentering hfits hnone hc)
      fun hw => ?_)
    refine meets_pure ⟨hw, ?_⟩
    exact
      { hb with
        spawning := congrArg List.tail hspawning
        entering := congrArg List.tail hentering }
  refine meets_bind ((newMainThread_meets h hk).mono ?_)
  rintro main t ⟨⟨ht, hbt⟩, hfits, -⟩
  have hb := balanced_trans hb hbt
  have hentering : t.history.entering = (p, s) :: u.history.entering := hb.entering
  cases main with
  | none => exact hready t ⟨ht, hbt⟩ fun hcode => absurd hfits hcode
  | some F =>
    refine meets_bind (meets_checkArguments h ?_)
    refine meets_bind (meets_updateProcess h ht (known_of_held (held_of_entering hentering))
      (fun R hR => .main hR hentering hfits) ?_)
    intro R hR hv
    refine hready _ ⟨hv, balanced_trans hbt (balanced_setProcess t p _)⟩ fun _ => ?_
    exact ⟨{ R with mainThread := some F }, by simp [Kernel.setProcess], hfits⟩

theorem spawn_meets {name : Word} (hk : KernelHolds I k) :
    Meets C P E (spawn host exec name args) k fun _ t => CallKeeps I k t := by
  unfold spawn
  cases hentry : host.entries name with
  | none => exact meets_pure ⟨hk, balanced_refl k⟩
  | some script =>
    refine meets_bind (meets_observe ?_)
    refine meets_bind (meets_step h hk (.nextPid k) fun ht => ?_)
    have hbt : Balanced k { k with nextPid := k.nextPid + 1 } :=
      balanced_of_same rfl rfl rfl rfl rfl
    cases hstate : script.resolveState script.initialStateId with
    | none => exact meets_pure ⟨ht, hbt⟩
    | some s =>
      refine meets_bind ((newProcess_meets h ht hentry hstate).mono ?_)
      rintro p u ⟨hu, hbu⟩
      have hspawning : u.history.spawning = p :: k.history.spawning := hbu.spawning
      refine meets_bind ((enterFirst_meets h hexec hu hspawning).mono ?_)
      rintro _ v ⟨⟨hv, hbv⟩, hcurrent⟩
      refine (makeReady_meets h hv (balanced_trans hbu hbv) hcurrent).mono ?_
      rintro _ w ⟨hw, hbw⟩
      exact ⟨hw, balanced_trans hbt hbw⟩

/-! ## Ticking -/

/-- The kernel with a process whose quantum is over. -/
def Settling (k : Kernel σ μ) (p : ℕ) : Kernel σ μ :=
  k.noting fun h => { h with settling := p :: h.settling }

theorem settleProcess_meets (hk : KernelHolds I k) (hb : Balanced (Settling u p) k) :
    Meets C P E (settleProcess host exec fuel p) k fun _ t => CallKeeps I u t := by
  have hsettling : k.history.settling = p :: u.history.settling := hb.settling
  have held : InUse k p := Or.inr (Or.inr (Or.inl (by simp [hsettling])))
  refine meets_bind (meets_process h hk (known_of_held held) ?_)
  intro R hR
  split
  next hdead =>
    refine meets_bind (meets_noted h hk ⟨R, _, hR, hdead, hsettling⟩ fun hc => ?_)
    refine meets_bind (meets_step h hk (.bury hR hsettling hdead hc) fun ht => ?_)
    have hbt : Balanced (Dying u p false)
        (k.noting fun h => { h with settling := h.settling.tail, dying := (p, false) :: h.dying }) :=
      { hb with
        settling := congrArg List.tail hsettling
        dying := congrArg ((p, false) :: ·) hb.dying }
    have hbegun : RemovalBegun C P u p :=
      ⟨k, Or.inr hc, hb.called.symm, hb.leaving.symm, hb.entering.symm⟩
    exact removeProcess_meets h hexec ht hbt hbegun
  next halive =>
    refine meets_step h hk (.place hR hsettling (by simpa using halive)) fun ht => ⟨ht, ?_⟩
    exact { hb with settling := congrArg List.tail hsettling }

/-- The kernel with one process of a snapshot less to visit. -/
def Visited (k : Kernel σ μ) : Kernel σ μ :=
  k.noting fun h => { h with pending := h.pending.tail }

theorem visit_meets {l : List ℕ} (hk : KernelHolds I k) (hpending : k.history.pending = p
    :: l)
    (hcurrent : k.currentProcess = none) :
    Meets C P E (visit host exec fuel p) k fun _ t => CallKeeps I (Visited k) t := by
  have held : InUse k p := Or.inl (by simp [hpending])
  refine meets_bind (meets_process h hk (known_of_held held) ?_)
  intro R hR
  split
  next hdead =>
    refine meets_step h hk (.skip hpending hR hdead) fun ht => ⟨ht, ?_⟩
    exact { balanced_refl (Visited k) with }
  next halive =>
    have halive : R.isDead = false := by simpa using halive
    refine meets_bind (meets_noted h hk ⟨hcurrent, l, hpending⟩ fun hbegun => ?_)
    refine meets_bind (meets_step h hk (.visit hpending hR halive hcurrent hbegun) fun ht => ?_)
    have hquanta : (k.beginVisit p).history.quanta = (p, false) :: k.history.quanta := rfl
    refine meets_bind ((executeQuantum_meets h hexec ht hquanta).mono ?_)
    rintro _ u ⟨hu, hb⟩
    have hquanta' : u.history.quanta = (p, false) :: k.history.quanta := hb.quanta.trans hquanta
    refine meets_bind (meets_noted h hu (Or.inr ⟨_, hquanta'⟩) fun hc => ?_)
    refine meets_bind (meets_step h hu (.visited hbegun hquanta' hb.begun hb.active hc) fun hv => ?_)
    refine settleProcess_meets h hexec hv ?_
    exact
      { hb with
        quanta := congrArg List.tail hquanta'
        settling := congrArg (p :: ·) hb.settling
        currentProcess := Or.inr rfl }

omit hexec in
theorem tickSleepers_meets {k₀ : Kernel σ μ} (hbegun : C .ticks k₀ ∧ P .ticks k₀) (n i : ℕ) (hk
    : KernelHolds I k)
    (hsince : k.history = k₀.history) :
    Meets C P E (tickSleepers n i : KernelM σ μ Unit) k fun _ t =>
      CallKeeps I k t ∧ t.history = k₀.history := by
  induction n generalizing k i with
  | zero => exact meets_pure ⟨⟨hk, balanced_refl k⟩, hsince⟩
  | succ n ih =>
    refine meets_bind (meets_observe ?_)
    cases hp : k.suspended[i]? with
    | none => exact meets_pure ⟨⟨hk, balanced_refl k⟩, hsince⟩
    | some p =>
      have hknown : Known k p := Or.inr (Or.inr (Or.inl (List.mem_of_getElem? hp)))
      refine meets_bind (meets_process h hk hknown ?_)
      intro R hR
      have hnext : ∀ t j, CallKeeps I k t → t.history = k.history →
          Meets C P E (tickSleepers n j : KernelM σ μ Unit) t fun _ u =>
            CallKeeps I k u ∧ u.history = k₀.history := by
        rintro t j ⟨ht, hb⟩ hsame
        refine (ih j ht (hsame.trans hsince)).mono ?_
        rintro _ u ⟨⟨hu, hbu⟩, hsince'⟩
        exact ⟨⟨hu, balanced_trans hb hbu⟩, hsince'⟩
      split
      next hsleeps =>
        have hsleeps : R.isDead = false ∧ 0 < R.sleepFrames := by simpa using hsleeps
        split
        next htimer =>
          refine meets_bind (meets_step h hk
            (.awake hR hp hsleeps.1 htimer hbegun hsince.symm) fun ht => ?_)
          exact hnext _ i ⟨ht, balanced_of_same rfl rfl rfl rfl rfl⟩ rfl
        next =>
          refine meets_bind (meets_updateProcess h hk hknown (fun Q hQ => .clock hQ rfl) ?_)
          intro Q hQ ht
          exact hnext _ (i + 1) ⟨ht, balanced_setProcess k p _⟩ rfl
      next => exact hnext k (i + 1) ⟨hk, balanced_refl k⟩ rfl

theorem tick_meets (hk : KernelHolds I k) (hcurrent : k.currentProcess = none) :
    Meets C P E (tick host exec fuel) k fun _ t => CallKeeps I k t := by
  refine meets_bind (meets_noted h hk hcurrent fun hc => ?_)
  refine meets_bind (meets_observe ?_)
  refine meets_bind ((tickSleepers_meets h hc k.suspended.length 0 hk rfl).mono ?_)
  rintro _ t ⟨⟨ht, hbt⟩, hsince⟩
  refine meets_bind (meets_observe ?_)
  have hcurrent' := currentProcess_of_balanced hbt hcurrent
  refine meets_bind (meets_step h ht (.takeReady hc hsince.symm hcurrent') fun hu => ?_)
  have hb : Balanced (t.noting fun h => { h with pending := t.ready ++ h.pending }) t.takeReady :=
    { balanced_refl (t.noting fun h => { h with pending := t.ready ++ h.pending }) with }
  -- what is pending is what is left of the snapshot
  refine (meets_forEach (I := fun ls u => KernelHolds I u ∧
    Balanced (t.noting fun h => { h with pending := ls ++ h.pending }) u) ?_ ⟨hu, hb⟩).mono ?_
  · rintro p ls u ⟨hu, hb⟩
    have hpending : u.history.pending = p :: (ls ++ t.history.pending) := hb.pending
    have hcurrent : u.currentProcess = none := currentProcess_of_balanced hb hcurrent'
    refine (visit_meets h hexec hu hpending hcurrent).mono ?_
    rintro _ v ⟨hv, hbv⟩
    refine ⟨hv, balanced_trans ?_ hbv⟩
    exact { hb with pending := congrArg List.tail hb.pending }
  · rintro _ u ⟨hu, hb⟩
    exact ⟨hu, balanced_trans hbt { hb with }⟩

theorem runLoop_meets {maxTicks : Option ℕ} (n ticks : ℕ) (hk : KernelHolds I k)
    (hcurrent : k.currentProcess = none) :
    Meets C P E (runLoop host exec fuel maxTicks n ticks) k fun _ t => CallKeeps I k t := by
  induction n generalizing k ticks with
  | zero => exact meets_stop h.outOfFuel
  | succ n ih =>
    refine meets_bind (meets_observe ?_)
    split
    · exact meets_pure ⟨hk, balanced_refl k⟩
    refine meets_bind ((tick_meets h hexec hk hcurrent).mono ?_)
    rintro _ t ⟨ht, hb⟩
    split
    · exact meets_pure ⟨ht, hb⟩
    refine (ih (ticks + 1) ht (currentProcess_of_balanced hb hcurrent)).mono ?_
    rintro _ u ⟨hu, hbu⟩
    exact ⟨hu, balanced_trans hb hbu⟩

omit hexec in
theorem resume_meets {pid : ℕ} (hk : KernelHolds I k) :
    Meets C P E (resume pid : KernelM σ μ Bool) k fun _ t => CallKeeps I k t := by
  refine meets_bind (find_meets ?_)
  intro r hr
  cases r with
  | none => exact meets_pure ⟨hk, balanced_refl k⟩
  | some p =>
    refine meets_bind (meets_process h hk (hr p rfl) ?_)
    intro R hR
    split
    · exact meets_pure ⟨hk, balanced_refl k⟩
    next hstatus =>
      have hstatus : R.status = .SUSPENDED := by simpa using hstatus
      refine meets_bind (meets_noted h hk ⟨R, hR, hstatus⟩ fun hc => ?_)
      refine meets_bind (meets_step h hk (.resume hR hstatus hc) fun ht => ?_)
      exact meets_pure ⟨ht, balanced_of_same rfl rfl rfl rfl rfl⟩

/-! ## Native functions -/

omit hexec in
theorem findByName_meets {name : Word} {Q : Option ℕ → Kernel σ μ → Prop} (ps : List ℕ)
    (hk : KernelHolds I k) (hps : ∀ p ∈ ps, p ∈ k.all)
    (hQ : ∀ r, (∀ p, r = some p → Known k p) → Q r k) :
    Meets C P E (findByName name ps : KernelM σ μ (Option ℕ)) k Q := by
  induction ps with
  | nil => exact meets_pure (hQ none (by simp))
  | cons p ps ih =>
    have hknown : Known k p := Or.inr (Or.inl (hps p (by simp)))
    refine meets_bind (meets_process h hk hknown ?_)
    intro R hR
    split
    · refine meets_pure (hQ (some p) ?_)
      rintro q ⟨⟩
      exact hknown
    · exact ih fun q hq => hps q (by simp [hq])

omit hexec in
theorem resolveProcess_meets {target : Target} {Q : Option ℕ → Kernel σ μ → Prop}
    (hk : KernelHolds I k) (hQ : ∀ r, (∀ p, r = some p → Known k p) → Q r k) :
    Meets C P E (resolveProcess target : KernelM σ μ (Option ℕ)) k Q := by
  cases target with
  | self =>
    refine meets_bind (meets_observe (meets_pure (hQ _ ?_)))
    intro p hp
    exact Or.inr (Or.inr (Or.inr (Or.inr (Or.inl hp))))
  | named name =>
    refine meets_bind (meets_observe ?_)
    exact findByName_meets h k.all hk (fun _ hp => hp) hQ
  | nothing => exact meets_pure (hQ none (by simp))

omit hexec in
theorem onProcess_meets {target : Target} {f : ℕ → KernelM σ μ Variant} (hk : KernelHolds I k)
    (hf : ∀ p, Known k p → Meets C P E (f p) k fun _ t => CallKeeps I k t) :
    Meets C P E (onProcess target f) k fun _ t => CallKeeps I k t := by
  refine meets_bind (resolveProcess_meets h hk ?_)
  intro r hr
  cases r with
  | none => exact meets_pure ⟨hk, balanced_refl k⟩
  | some p => exact hf p (hr p rfl)

omit hexec in
theorem findTrack_meets {track : Word} {Q : Option (ℕ × ℕ) → Kernel σ μ → Prop}
    (hk : KernelHolds I k) (known : Known k p)
    (hQ : ∀ r, (∀ f i, r = some (f, i) → PushedFor k p f) → Q r k) :
    Meets C P E (findTrack p track : KernelM σ μ (Option (ℕ × ℕ))) k Q := by
  refine meets_bind (meets_process h hk known ?_)
  intro R hR
  cases hf : R.currentStateFrame with
  | none => exact meets_pure (hQ none (by simp))
  | some f =>
    refine meets_bind (meets_stateFrame h ?_)
    intro frame hframe
    cases frame.tracks.findIdx? (·.track.trackId = track) with
    | none => exact meets_pure (hQ none (by simp))
    | some i =>
      refine meets_pure (hQ (some (f, i)) ?_)
      rintro f' i' ⟨⟩
      exact hk.2.current p R f hR hf

omit hexec in
theorem updateClock_meets {f : Process → Process} (hk : KernelHolds I k) (known : Known k p)
    (hf : ∀ R, SameButClock R (f R)) :
    Meets C P E (updateProcess p f : KernelM σ μ Unit) k fun _ t =>
      CallKeeps I k t ∧ t.currentProcess = k.currentProcess := by
  refine meets_updateProcess h hk known (fun R hR => .clock hR (hf R)) ?_
  intro R hR ht
  exact ⟨⟨ht, balanced_setProcess k p _⟩, rfl⟩

omit hexec in
theorem suspendProcess_meets (hk : KernelHolds I k) (known : Known k p) :
    Meets C P E (suspendProcess p : KernelM σ μ Unit) k fun _ t => CallKeeps I k t := by
  refine meets_bind (meets_noted h hk known fun hc => ?_)
  refine meets_updateProcess h hk known (fun R hR => .suspend hR hc) ?_
  intro R hR ht
  exact ⟨ht, balanced_setProcess k p _⟩

omit hexec in
theorem wakeProcess_meets (hk : KernelHolds I k) (known : Known k p) :
    Meets C P E (wakeProcess p : KernelM σ μ Unit) k fun _ t => CallKeeps I k t := by
  refine meets_bind (meets_noted h hk known fun hc => ?_)
  refine meets_updateProcess h hk known (fun R hR => .wake hR hc) ?_
  intro R hR ht
  exact ⟨ht, balanced_setProcess k p _⟩

omit h hexec in
theorem meets_then_pure {x : KernelM σ μ α} {f : α → β}
    (hx : Meets C P E x k fun _ t => CallKeeps I k t) :
    Meets C P E (do
      let a ← x
      return f a) k fun _ t => CallKeeps I k t :=
  meets_bind (hx.mono fun _ _ ht => meets_pure ht)

theorem callStart_meets {name : Word} (hk : KernelHolds I k) :
    Meets C P E (callNative host exec fuel (.start name args)) k fun _ t => CallKeeps I k t := by
  refine meets_bind (meets_observe ?_)
  refine meets_bind (findByName_meets h k.all hk (fun _ hp => hp) ?_)
  intro r hr
  cases r with
  | some p =>
    refine meets_bind (meets_process h hk (hr p rfl) ?_)
    intro R hR
    exact meets_pure ⟨hk, balanced_refl k⟩
  | none => exact meets_then_pure (spawn_meets h hexec hk)

theorem callTick_meets {count : ℕ} (hk : KernelHolds I k) :
    Meets C P E (callNative host exec fuel (.tick count)) k fun _ t => CallKeeps I k t := by
  refine meets_bind (meets_observe ?_)
  split
  · exact meets_pure ⟨hk, balanced_refl k⟩
  next hcurrent =>
    have hcurrent : k.currentProcess = none := by simpa using hcurrent
    refine meets_bind ((meets_forEach (I := fun _ t => CallKeeps I k t) ?_
      ⟨hk, balanced_refl k⟩).mono fun _ t ht => meets_pure ht)
    rintro _ _ t ⟨ht, hb⟩
    refine (tick_meets h hexec ht (currentProcess_of_balanced hb hcurrent)).mono ?_
    rintro _ u ⟨hu, hbu⟩
    exact ⟨hu, balanced_trans hb hbu⟩

theorem callRun_meets {maxTicks : Option ℕ} (hk : KernelHolds I k) :
    Meets C P E (callNative host exec fuel (.run maxTicks)) k fun _ t => CallKeeps I k t := by
  refine meets_bind (meets_observe ?_)
  split
  · exact meets_pure ⟨hk, balanced_refl k⟩
  next hcurrent =>
    have hcurrent : k.currentProcess = none := by simpa using hcurrent
    exact meets_then_pure (runLoop_meets h hexec fuel 0 hk hcurrent)

theorem callRuns_meets {lambda : Lambda} (hk : KernelHolds I k) :
    Meets C P E (callNative host exec fuel (.runs lambda args)) k fun _ t => CallKeeps I k t := by
  refine meets_bind (meets_newFrame h hk fun ht => ?_)
  refine meets_bind (meets_checkArguments h ?_)
  refine (hexec _ _ ht (Or.inr ⟨⟨lambda, host.enter lambda (.values args), none⟩,
    by simp [Kernel.withFrame, Kernel.setFrame], rfl⟩)).mono ?_
  rintro v u ⟨⟨hu, hb⟩, -⟩
  exact ⟨hu, balanced_trans (balanced_withFrame hk.2 _) hb⟩

omit hexec in
theorem callSleep_meets {frames : ℤ} (hk : KernelHolds I k) :
    Meets C P E (callNative host exec fuel (.sleep frames)) k fun _ t => CallKeeps I k t := by
  refine meets_bind (meets_observe ?_)
  cases hcurrent : k.currentProcess with
  | none => exact meets_pure ⟨hk, balanced_refl k⟩
  | some p =>
    have hknown : Known k p := Or.inr (Or.inr (Or.inr (Or.inr (Or.inl hcurrent))))
    refine meets_bind ((updateClock_meets h hk hknown (by intro _; rfl)).mono ?_)
    rintro _ t ⟨⟨ht, hb⟩, hsame⟩
    have hknown' : Known t p :=
      Or.inr (Or.inr (Or.inr (Or.inr (Or.inl (hsame.trans hcurrent)))))
    refine meets_bind ((suspendProcess_meets h ht hknown').mono ?_)
    rintro _ u ⟨hu, hbu⟩
    exact meets_pure ⟨hu, balanced_trans hb hbu⟩

omit hexec in
theorem callYield_meets (hk : KernelHolds I k) :
    Meets C P E (callNative host exec fuel .yield) k fun _ t => CallKeeps I k t := by
  refine meets_bind (meets_observe ?_)
  cases hcurrent : k.currentProcess with
  | none => exact meets_pure ⟨hk, balanced_refl k⟩
  | some p =>
    have hknown : Known k p := Or.inr (Or.inr (Or.inr (Or.inr (Or.inl hcurrent))))
    exact meets_bind ((updateClock_meets h hk hknown (by intro _; rfl)).mono
      fun _ t ht => meets_pure ht.1)

omit hexec in
theorem callGetTrackTime_meets {target : Target} {track : Word} (hk : KernelHolds I k) :
    Meets C P E (callNative host exec fuel (.getTrackTime target track)) k
      fun _ t => CallKeeps I k t := by
  refine onProcess_meets h hk fun p known => ?_
  refine meets_bind (findTrack_meets h hk known ?_)
  intro r _
  cases r with
  | none => exact meets_pure ⟨hk, balanced_refl k⟩
  | some fi =>
    refine meets_bind (meets_trackFrame h ?_)
    intro frame track _ _
    exact meets_pure ⟨hk, balanced_refl k⟩

omit hexec in
theorem callSetTrackTime_meets {target : Target} {track ticks : Word} (hk : KernelHolds I k) :
    Meets C P E (callNative host exec fuel (.setTrackTime target track ticks)) k
      fun _ t => CallKeeps I k t := by
  refine onProcess_meets h hk fun p known => ?_
  refine meets_bind (findTrack_meets h hk known ?_)
  intro r hr
  cases r with
  | none => exact meets_pure ⟨hk, balanced_refl k⟩
  | some fi =>
    exact meets_bind ((updateTrack_meets h hk (hr fi.1 fi.2 rfl) (by intro _; rfl)
      (by intro _ _ h; exact Or.inl h)).mono fun _ t ht => meets_pure ht)

theorem callNative_meets (native : Native) (hk : KernelHolds I k) :
    Meets C P E (callNative host exec fuel native) k fun _ t => CallKeeps I k t := by
  have hread : ∀ p (f : Process → Variant), Known k p → Meets C P E (do
      return f (← process p) : KernelM σ μ Variant) k fun _ t => CallKeeps I k t := by
    intro p f known
    exact meets_bind (meets_process h hk known fun R _ => meets_pure ⟨hk, balanced_refl k⟩)
  cases native with
  | spawn name args => exact meets_then_pure (spawn_meets h hexec hk)
  | start name args => exact callStart_meets h hexec hk
  | currentPid =>
    refine meets_bind (meets_observe ?_)
    cases hcurrent : k.currentProcess with
    | none => exact meets_pure ⟨hk, balanced_refl k⟩
    | some p =>
      exact hread p _ (Or.inr (Or.inr (Or.inr (Or.inr (Or.inl hcurrent)))))
  | sleep frames => exact callSleep_meets h hk
  | yield => exact callYield_meets h hk
  | kill target =>
    refine onProcess_meets h hk fun p known => ?_
    refine meets_bind (meets_process h hk known ?_)
    intro R hR
    exact meets_then_pure (kill_meets h hexec hk)
  | goState target state =>
    exact onProcess_meets h hk fun p known =>
      meets_then_pure (goStateById_meets h hexec hk known)
  | send source target event params =>
    refine onProcess_meets h hk fun s _ => onProcess_meets h hk fun p known => ?_
    split
    · exact meets_pure ⟨hk, balanced_refl k⟩
    exact meets_then_pure (sendEvent_meets h hexec hk known)
  | process target =>
    refine meets_bind (resolveProcess_meets h hk ?_)
    intro r _
    cases r with
    | none => exact meets_pure ⟨hk, balanced_refl k⟩
    | some p => exact meets_pure ⟨hk, balanced_refl k⟩
  | getStateTime target => exact onProcess_meets h hk fun p known => hread p _ known
  | setStateTime target ticks =>
    exact onProcess_meets h hk fun p known => meets_bind
      ((updateClock_meets h hk known (by intro _; rfl)).mono fun _ t ht => meets_pure ht.1)
  | getTrackTime target track => exact callGetTrackTime_meets h hk
  | setTrackTime target track ticks => exact callSetTrackTime_meets h hk
  | tick count => exact callTick_meets h hexec hk
  | run maxTicks => exact callRun_meets h hexec hk
  | suspend target =>
    exact onProcess_meets h hk fun p known => meets_then_pure (suspendProcess_meets h hk known)
  | requestYield target =>
    exact onProcess_meets h hk fun p known => meets_bind
      ((updateClock_meets h hk known (by intro _; rfl)).mono fun _ t ht => meets_pure ht.1)
  | wakeUp target =>
    exact onProcess_meets h hk fun p known => meets_then_pure (wakeProcess_meets h hk known)
  | resume pid => exact meets_then_pure (resume_meets h hk)
  | runs lambda args => exact callRuns_meets h hexec hk
  | plain value => exact meets_pure ⟨hk, balanced_refl k⟩

end Calls

/-! ## The machine -/

section Machine

variable (h : Upholds host C P E I)

theorem balanced_machine (hmoves : MachineMoves k t) : Balanced k t := by
  have hrest := hmoves.rest
  have hframes : ∀ F c, k.frames F = some c →
      ∃ c', t.frames F = some c' ∧ c'.lambda = c.lambda ∧ c'.process = c.process := by
    intro F c hc
    have hmap := hmoves.frames F
    rw [hc] at hmap
    cases hF : t.frames F with
    | none => simp [hF] at hmap
    | some c' =>
      have hmap : c'.lambda = c.lambda ∧ c'.process = c.process := by simpa [hF] using hmap
      exact ⟨c', rfl, hmap⟩
  have hhistory : t.history = k.history := by rw [hrest]
  have hstateFrames : t.stateFrames = k.stateFrames := by rw [hrest]
  have hcount : t.stateFrameCount = k.stateFrameCount := by rw [hrest]
  have hcurrent : t.currentProcess = k.currentProcess := by rw [hrest]
  exact
    { balanced_of_same (k := { k with frames := t.frames }) (t := t) hhistory rfl hstateFrames
        hcount hcurrent with
      frames := hframes }

theorem machineMoves_trans (hkt : MachineMoves k t) (htu : MachineMoves t u) :
    MachineMoves k u where
  rest := by
    rw [htu.rest, hkt.rest]
  frames := fun F => (htu.frames F).trans (hkt.frames F)
  currentFrame := by
    rcases htu.currentFrame with hsame | hnone
    · rw [hsame]
      exact hkt.currentFrame
    · exact Or.inr hnone

include h

theorem meets_machine {f : Kernel σ μ → Kernel σ μ} {Q : Unit → Kernel σ μ → Prop}
    (hk : CallKeeps I u k) (hmoves : MachineMoves k (f k)) (hQ : CallKeeps I u (f k) → Q () (f k)) :
    Meets C P E (change f : KernelM σ μ Unit) k Q :=
  meets_step h hk.1 (.machine hmoves) fun ht =>
    hQ ⟨ht, balanced_trans hk.2 (balanced_machine hmoves)⟩

theorem meets_continueAt {F : ℕ} {code : σ → σ} {Q : Unit → Kernel σ μ → Prop}
    (hQ : ∀ c, k.frames F = some c →
      MachineMoves k (k.setFrame F { c with code := code c.code }) →
        Meets C P E (change (·.setFrame F { c with code := code c.code }) : KernelM σ μ Unit) k Q) :
    Meets C P E (continueAt F code : KernelM σ μ Unit) k Q := by
  refine meets_bind (meets_observe ?_)
  cases hF : k.frames F with
  | none => exact meets_stop h.undefined
  | some c =>
    refine hQ c hF ⟨rfl, ?_, Or.inl rfl⟩
    intro G
    by_cases hGF : G = F
    · simp [Kernel.setFrame, hGF, hF]
    · simp [Kernel.setFrame, hGF]

theorem continueAt_meets {F : ℕ} {code : σ → σ} (hk : CallKeeps I u k) :
    Meets C P E (continueAt F code : KernelM σ μ Unit) k fun _ t => CallKeeps I u t :=
  meets_continueAt h fun _ _ hmoves => meets_machine h hk hmoves fun ht => ht

theorem yieldsNow_meets (hk : CallKeeps I u k) :
    Meets C P E (yieldsNow : KernelM σ μ Bool) k fun _ t => CallKeeps I u t := by
  refine meets_bind (meets_observe ?_)
  cases hcurrent : k.currentProcess with
  | none => exact meets_pure hk
  | some p =>
    have hknown : Known k p := Or.inr (Or.inr (Or.inr (Or.inr (Or.inl hcurrent))))
    refine meets_bind (meets_process h hk.1 hknown ?_)
    intro R hR
    split
    · refine meets_bind ((updateClock_meets h hk.1 hknown (by intro _; rfl)).mono ?_)
      rintro _ t ⟨⟨ht, hb⟩, -⟩
      refine meets_bind (meets_machine h ⟨ht, balanced_trans hk.2 hb⟩
        (machineMoves_yielded t true) fun hu => ?_)
      exact meets_pure hu
    · exact meets_pure hk

/-- The loop of a silent run only moves the machine. -/
theorem loop_silent {F : ℕ} (n : ℕ) (hsilent : Silent C I k F)
    (hmoves : MachineMoves (k.enterRun F (Kernel.owner k F)) t) :
    Meets C P E (loop host n) t fun _ u => MachineMoves (k.enterRun F (Kernel.owner k F)) u := by
  induction n generalizing t with
  | zero => exact meets_stop h.outOfFuel
  | succ n ih =>
    refine meets_bind (meets_observe ?_)
    cases hG : t.currentFrame with
    | none => exact meets_pure hmoves
    | some G =>
      obtain rfl : G = F := by
        rcases hmoves.currentFrame with hsame | hnone
        · rw [hG] at hsame
          exact Option.some.inj hsame
        · rw [hG] at hnone
          cases hnone
      dsimp only
      split
      · exact meets_pure hmoves
      cases hc : t.frames G with
      | none => exact meets_stop h.undefined
      | some c =>
        dsimp only
        cases host.step c.code t.memory with
        | computes next memory =>
          refine meets_bind (meets_continueAt h fun _ _ hnext => meets_change ?_)
          exact meets_bind (meets_change (ih (machineMoves_trans hmoves
            (machineMoves_trans hnext ⟨rfl, fun _ => rfl, Or.inl rfl⟩))))
        | returns value memory =>
          exact meets_bind (meets_change (meets_pure (machineMoves_trans hmoves
            ⟨rfl, fun _ => rfl, Or.inr rfl⟩)))
        | fails memory =>
          exact meets_bind (meets_change (ih (machineMoves_trans hmoves
            ⟨rfl, fun _ => rfl, Or.inl rfl⟩)))
        | drops memory =>
          exact meets_bind (meets_change (ih (machineMoves_trans hmoves
            ⟨rfl, fun _ => rfl, Or.inr rfl⟩)))
        | escapes => exact meets_stop h.escaped
        | undefined => exact meets_stop h.undefined
        | calls native next memory store =>
          refine meets_bind (meets_continueAt h fun _ _ hnext => meets_change ?_)
          refine meets_bind (meets_change (meets_bind (meets_note fun hcalls => ?_)))
          refine ((hsilent _ ?_).1 ?_ native hcalls).elim
          · exact machineMoves_trans hmoves
              (machineMoves_trans hnext ⟨rfl, fun _ => rfl, Or.inl rfl⟩)
          · exact hG

theorem startRun_meets {n : ℕ}
    (hloop : ∀ k, KernelHolds I k → k.history.active ≠ [] →
      Meets C P E (loop host n) k fun _ t => CallKeeps I k t) :
    RunsKeep C P E I (startRun (loop host n)) := by
  intro k F hk henter
  have hentered : FramesInOrder (k.enterRun F (Kernel.owner k F)) :=
    ⟨hk.2.frames, hk.2.stateFrames, hk.2.processes, hk.2.current⟩
  refine meets_bind (meets_observe (meets_bind (meets_change ?_)))
  rcases h.enters k F hk.1 henter with ht | hsilent
  · refine meets_bind ((hloop _ ⟨ht, hentered⟩ (List.cons_ne_nil _ _)).mono ?_)
    rintro v u ⟨hu, hb⟩
    have hactive : u.history.active = Kernel.owner k F :: k.history.active := hb.active
    refine meets_bind (meets_step h hu (.leaveRun (by rw [hactive]; exact List.cons_ne_nil _ _))
      fun hv => ?_)
    refine meets_pure ⟨⟨hv, ?_⟩, rfl⟩
    exact { hb with active := congrArg List.tail hactive }
  · refine meets_bind ((loop_silent h n hsilent ⟨rfl, fun _ => rfl, Or.inl rfl⟩).mono ?_)
    intro v u hmoves
    have hb := balanced_machine hmoves
    have hstep : KernelStep host C (k.enterRun F (Kernel.owner k F)) u := .machine hmoves
    have hleft : FramesInOrder u.leaveRun := by
      have hu := framesInOrder_step hentered hstep
      exact ⟨hu.frames, hu.stateFrames, hu.processes, hu.current⟩
    refine meets_bind (meets_change (meets_pure ⟨⟨⟨(hsilent u hmoves).2, hleft⟩, ?_⟩, rfl⟩))
    exact { hb with active := congrArg List.tail hb.active }

theorem loop_meets (n : ℕ) (hk : KernelHolds I k) (hactive : k.history.active ≠ []) :
    Meets C P E (loop host n) k fun _ t => CallKeeps I k t := by
  induction n generalizing k with
  | zero => exact meets_stop h.outOfFuel
  | succ n ih =>
    have hnext : ∀ t, CallKeeps I k t → Meets C P E (loop host n) t fun _ u => CallKeeps I k u := by
      rintro t ⟨ht, hb⟩
      refine (ih ht (by rw [hb.active]; exact hactive)).mono ?_
      rintro _ u ⟨hu, hbu⟩
      exact ⟨hu, balanced_trans hb hbu⟩
    have hself : CallKeeps I k k := ⟨hk, balanced_refl k⟩
    refine meets_bind (meets_observe ?_)
    cases hF : k.currentFrame with
    | none => exact meets_pure hself
    | some F =>
      dsimp only
      split
      · exact meets_pure hself
      cases hc : k.frames F with
      | none => exact meets_stop h.undefined
      | some c =>
        dsimp only
        cases host.step c.code k.memory with
        | computes next memory =>
          refine meets_bind ((continueAt_meets h hself).mono ?_)
          intro _ t ht
          exact meets_bind (meets_machine h ht ⟨rfl, fun _ => rfl, Or.inl rfl⟩ fun hu =>
            hnext _ hu)
        | returns value memory =>
          exact meets_bind (meets_machine h hself ⟨rfl, fun _ => rfl, Or.inr rfl⟩ fun hu =>
            meets_pure hu)
        | fails memory =>
          exact meets_bind (meets_machine h hself ⟨rfl, fun _ => rfl, Or.inl rfl⟩ fun hu =>
            hnext _ hu)
        | drops memory =>
          exact meets_bind (meets_machine h hself ⟨rfl, fun _ => rfl, Or.inr rfl⟩ fun hu =>
            hnext _ hu)
        | escapes => exact meets_stop h.escaped
        | undefined => exact meets_stop h.undefined
        | calls native next memory store =>
          refine meets_bind ((continueAt_meets h hself).mono ?_)
          intro _ t ht
          refine meets_bind (meets_machine h ht ⟨rfl, fun _ => rfl, Or.inl rfl⟩ fun hu => ?_)
          have hactive' : (Kernel.history { t with memory := memory }).active ≠ [] := by
            rw [hu.2.active]
            exact hactive
          refine meets_bind (meets_noted h hu.1 hactive' fun _ => ?_)
          refine meets_bind ((callNative_meets h (startRun_meets h fun k hk ha => ih hk ha) native
            hu.1).mono ?_)
          rintro value v ⟨hv, hbv⟩
          refine meets_bind ((continueAt_meets h ⟨hv, balanced_trans hu.2 hbv⟩).mono ?_)
          intro _ w hw
          refine meets_bind ((yieldsNow_meets h hw).mono ?_)
          intro yields x hx
          split
          · exact meets_pure hx
          · exact hnext x hx

theorem execute_meets (n : ℕ) : RunsKeep C P E I (executeFrame host n) :=
  startRun_meets h fun _ hk hactive => loop_meets h n hk hactive

/-! ## The host -/

omit h in
theorem onPid_meets {pid : ℕ} {f : ℕ → KernelM σ μ Unit} (hk : KernelHolds I k)
    (hf : ∀ p, Known k p → Meets C P E (f p) k fun _ t => CallKeeps I k t) :
    Meets C P E (onPid pid f) k fun _ t => CallKeeps I k t := by
  refine meets_bind (find_meets ?_)
  intro r hr
  cases r with
  | none => exact meets_pure ⟨hk, balanced_refl k⟩
  | some p => exact hf p (hr p rfl)

variable {fuel : ℕ}

theorem hostCall_meets (call : KernelCall) (hk : KernelHolds I k) (hcurrent
    : k.currentProcess = none) :
    Meets C P E (hostCall host fuel call) k fun _ t => CallKeeps I k t := by
  have hexec : RunsKeep C P E I (executeFrame host fuel) := execute_meets h fuel
  cases call with
  | spawn name args => exact meets_then_pure (spawn_meets h hexec hk)
  | kill pid => exact kill_meets h hexec hk
  | tick => exact tick_meets h hexec hk hcurrent
  | runLoop maxTicks => exact meets_then_pure (runLoop_meets h hexec fuel 0 hk hcurrent)
  | resume pid => exact meets_then_pure (resume_meets h hk)
  | suspend pid => exact onPid_meets hk fun p known => suspendProcess_meets h hk known
  | requestYield pid =>
    exact onPid_meets hk fun p known =>
      (updateClock_meets h hk known (by intro _; rfl)).mono fun _ t ht => ht.1
  | wakeUp pid => exact onPid_meets hk fun p known => wakeProcess_meets h hk known
  | goState pid state =>
    exact onPid_meets hk fun p known => meets_then_pure (goStateById_meets h hexec hk known)
  | send source pid event params =>
    exact onPid_meets hk fun s _ => onPid_meets hk fun p known =>
      meets_then_pure (sendEvent_meets h hexec hk known)
  | runs lambda args => exact meets_then_pure (callRuns_meets h hexec hk)

theorem hostRun_meets (calls : List KernelCall) (hk : KernelHolds I k) (hcurrent
    : k.currentProcess = none) :
    Meets C P E (hostRun host fuel calls) k fun _ t => CallKeeps I k t := by
  refine meets_forEach (I := fun _ t => CallKeeps I k t) ?_ ⟨hk, balanced_refl k⟩
  rintro call _ t ⟨ht, hb⟩
  refine (hostCall_meets h call ht (currentProcess_of_balanced hb hcurrent)).mono ?_
  rintro _ u ⟨hu, hbu⟩
  exact ⟨hu, balanced_trans hb hbu⟩

end Machine

end Soot.Analysis
