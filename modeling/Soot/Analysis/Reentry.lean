import Soot.Program.Reentry

/-!
# Nested runs and the code they interrupt

A native function that runs script code starts it on a new frame, and every frame reached
from there, through calls and returns, is newer than the frames that existed when the native
was called (`Above`). So the older frames keep their registers, and `current_frame` never
comes back to the interrupted frame: a native call leaves the machine where it has to
continue exactly when it ran nothing (`resumes_iff_runs_nothing`).
-/

set_option autoImplicit false

namespace Soot.Analysis

open Soot.Program

/-! ## Machines above a number of frames -/

/-- The machine `vm` after runs on frames newer than the first `k` ones, which were `base`:
those are untouched, the current frame is a newer one, and no newer frame returns to one of
them. -/
structure Above (k : ℕ) (base : List FrameCell) (vm : Vm) : Prop where
  length : k ≤ vm.frames.length
  below : ∀ j < k, vm.frames[j]? = base[j]?
  current : ∀ F, vm.currentFrame = some F → k ≤ F
  parents : ∀ F c P, k ≤ F → vm.frames[F]? = some c → c.parent = some P → k ≤ P

namespace Above

variable {k : ℕ} {base : List FrameCell} {vm : Vm}

theorem congr {vm' : Vm} (h : Above k base vm) (hf : vm'.frames = vm.frames)
    (hc : vm'.currentFrame = vm.currentFrame) : Above k base vm' := by
  obtain ⟨hlen, hbelow, hcur, hpar⟩ := h
  exact ⟨hf ▸ hlen, hf ▸ hbelow, hc ▸ hcur, hf ▸ hpar⟩

theorem setError (h : Above k base vm) : Above k base vm.setError := h.congr rfl rfl

theorem drop (h : Above k base vm) : Above k base vm.drop where
  length := h.length
  below := h.below
  current := by simp [Vm.drop]
  parents := h.parents

theorem modify {F : ℕ} (h : Above k base vm) (hF : k ≤ F) {g : FrameCell → FrameCell}
    (hg : ∀ c, (g c).parent = c.parent) :
    Above k base { vm with frames := vm.frames.modify F g } where
  length := by simpa using h.length
  below := by
    intro j hj
    have hne : F ≠ j := by omega
    simpa [List.getElem?_modify, hne] using h.below j hj
  current := h.current
  parents := by
    intro F' c P hF' hc hP
    rw [List.getElem?_modify] at hc
    obtain ⟨c₀, hc₀, rfl⟩ := Option.map_eq_some_iff.mp hc
    refine h.parents F' c₀ P hF' hc₀ ?_
    by_cases hFF : F = F'
    · simpa [hFF, hg] using hP
    · simpa [hFF] using hP

theorem setFrame {F : ℕ} (h : Above k base vm) (hF : k ≤ F) (f : StackFrame) :
    Above k base (vm.setFrame F f) :=
  h.modify hF fun _ => rfl

theorem put {F : ℕ} (h : Above k base vm) (hF : k ≤ F) (dst : ℕ) (v : Variant) :
    Above k base (vm.put F dst v) :=
  h.modify hF fun _ => rfl

theorem goto {P : ℕ} (h : Above k base vm) (hP : k ≤ P) :
    Above k base { vm with currentFrame := some P } where
  length := h.length
  below := h.below
  current := by
    rintro F ⟨⟩
    exact hP
  parents := h.parents

theorem push {c : FrameCell} (hlen : k ≤ vm.frames.length)
    (hbelow : ∀ j < k, vm.frames[j]? = base[j]?)
    (hpar : ∀ F c P, k ≤ F → vm.frames[F]? = some c → c.parent = some P → k ≤ P)
    (hc : ∀ P, c.parent = some P → k ≤ P) : Above k base (vm.push c) where
  length := by
    simp only [Vm.push, List.length_append]
    omega
  below := by
    intro j hj
    rw [Vm.push, List.getElem?_append_left (by omega)]
    exact hbelow j hj
  current := by
    rintro F ⟨⟩
    exact hlen
  parents := by
    intro F c' P hF hc' hP
    rcases Nat.lt_or_ge F vm.frames.length with hlt | hge
    · rw [Vm.push, List.getElem?_append_left hlt] at hc'
      exact hpar F c' P hF hc' hP
    · rw [Vm.push, List.getElem?_append_right hge] at hc'
      have : c' = c := by
        have := List.mem_of_getElem? hc'
        simpa using this
      exact hc P (this ▸ hP)

theorem enter (h : Above k base vm) (f : StackFrame) : Above k base (vm.enter f) :=
  (push h.length h.below h.parents (c := ⟨f, none⟩) (by simp)).congr rfl rfl

theorem start (vm : Vm) (f : StackFrame) : Above vm.frames.length vm.frames (vm.enter f) := by
  refine (push (Nat.le_refl _) (fun _ _ => rfl) ?_ (c := ⟨f, none⟩) (by simp)).congr rfl rfl
  intro F c P hF hc _
  have := List.getElem?_eq_some_iff.mp hc |>.1
  omega

end Above

/-! ## One iteration -/

section Loop

variable {rt : Runtime} {native : Word → List Variant → Shared → NativeCall}
variable {k : ℕ} {base : List FrameCell} {vm : Vm}

/-- What an iteration leaves is above the same frames, and it only calls natives from newer
frames. -/
def IterationAbove (k : ℕ) (base : List FrameCell) : Iteration → Prop
  | .next vm | .ends _ vm => Above k base vm
  | .native vm F _ _ => Above k base vm ∧ k ≤ F

theorem returnFrom_above {c : FrameCell} (h : Above k base vm)
    (hc : ∀ P, c.parent = some P → k ≤ P) (v : Variant) :
    IterationAbove k base (returnFrom vm c v) := by
  unfold returnFrom
  cases hP : c.parent with
  | none => exact h.drop
  | some P =>
    have hkP : k ≤ P := hc P hP
    dsimp only
    split
    · exact h
    · split
      · exact h.drop
      · split
        · exact h.setError
        · exact (h.put hkP _ v).goto hkP

theorem settleShared_above {F : ℕ} {c : FrameCell} (h : Above k base vm) (hF : k ≤ F)
    (hc : ∀ P, c.parent = some P → k ≤ P) (e : Except VmErrorKind Effect) :
    IterationAbove k base (settleShared rt vm F c e) := by
  unfold settleShared
  split
  · exact h.setError
  · exact (h.setFrame hF _).congr rfl rfl
  · exact returnFrom_above h hc _
  · split
    · exact h
    · have hf := h.setFrame hF
      split
      · exact (hf _).setError
      · exact .push (hf _).length (hf _).below (hf _).parents (by simp [hF])
  · exact h
  · exact h.drop
  · exact h

theorem callNativeFrom_above {F : ℕ} (h : Above k base vm) (hF : k ≤ F) (f : StackFrame)
    (i : Instruction) : IterationAbove k base (callNativeFrom rt native vm F f i) := by
  unfold callNativeFrom
  split
  · exact h.setError
  · exact h.drop
  · exact h.setError
  · exact ⟨h, hF⟩

theorem iterate_above (h : Above k base vm) :
    IterationAbove k base (iterate rt native vm) := by
  unfold iterate
  split
  · exact h
  · rename_i F hcur
    have hF : k ≤ F := h.current F hcur
    split
    · exact h
    · split
      · exact h
      · rename_i c hc
        have hset := h.setFrame hF c.frame.advance
        split
        · exact h
        · split
          · split
            · exact h
            · dsimp only
              split
              · exact callNativeFrom_above hset hF _ _
              · exact settleShared_above hset hF (fun P => h.parents F c P hF hc) _
          · exact h

theorem afterNative_above {F dst : ℕ} (h : Above k base vm) (hF : k ≤ F) (o : NativeOutcome) :
    match afterNative vm F dst o with
    | .inl vm' => Above k base vm'
    | .inr (_, vm') => Above k base vm' := by
  cases o with
  | returned v y =>
    cases y with
    | true => exact (h.put hF dst v).congr rfl rfl
    | false => exact h.put hF dst v
  | threw k => exact h.setError
  | undefined => exact h

/-! ## Native calls and whole runs -/

theorem runNative_above {ex : Vm → Option (RunOutcome × Vm)}
    (hex : ∀ vm o vm', Above k base vm → ex vm = some (o, vm') → Above k base vm')
    {call : NativeCall} {o : NativeOutcome} {vm' : Vm} (h : Above k base vm)
    (hrun : runNative ex vm call = some (o, vm')) : Above k base vm' := by
  induction call generalizing vm with
  | returns v s y =>
    obtain ⟨-, rfl⟩ := Prod.mk.inj (Option.some.inj hrun)
    exact h.congr rfl rfl
  | throws e s =>
    obtain ⟨-, rfl⟩ := Prod.mk.inj (Option.some.inj hrun)
    exact h.congr rfl rfl
  | runs f s resume ih =>
    have henter : Above k base (Vm.enter { vm with shared := s } f) :=
      (h.congr rfl rfl : Above k base { vm with shared := s }).enter f
    rw [runNative] at hrun
    split at hrun
    · simp at hrun
    · rename_i vm₁ hvm₁
      obtain ⟨-, rfl⟩ := Prod.mk.inj (Option.some.inj hrun)
      exact hex _ _ _ henter hvm₁
    · rename_i o₁ vm₁ _ hvm₁
      exact ih o₁ vm₁.shared (hex _ _ _ henter hvm₁) hrun

/-- Run: however deep the runs nest, the machine stays above the frames it is above. The
induction is on the number of iterations allowed, which every nested run shares. -/
theorem execute_above {n : ℕ} {o : RunOutcome} {vm' : Vm} (h : Above k base vm)
    (hrun : execute rt native n vm = some (o, vm')) : Above k base vm' := by
  induction n generalizing vm o vm' with
  | zero => simp [execute] at hrun
  | succ n ih =>
    have hstep : IterationAbove k base (iterate rt native vm) := iterate_above h
    rw [execute] at hrun
    split at hrun
    · rename_i vm₁ hvm₁
      rw [hvm₁] at hstep
      exact ih hstep hrun
    · rename_i o₁ vm₁ hvm₁
      rw [hvm₁] at hstep
      obtain ⟨-, rfl⟩ := Prod.mk.inj (Option.some.inj hrun)
      exact hstep
    · rename_i vm₁ F dst call hvm₁
      rw [hvm₁] at hstep
      split at hrun
      · simp at hrun
      · rename_i o₁ vm₂ hvm₂
        have h₂ : Above k base vm₂ :=
          runNative_above (fun _ _ _ hvm hr => ih hvm hr) hstep.1 hvm₂
        have hafter : match afterNative vm₂ F dst o₁ with
            | .inl vm' => Above k base vm'
            | .inr (_, vm') => Above k base vm' := afterNative_above h₂ hstep.2 o₁
        split at hrun
        · rename_i vm₃ hvm₃
          rw [hvm₃] at hafter
          exact ih hafter hrun
        · rename_i r hr
          rw [hr] at hafter
          obtain rfl := Option.some.inj hrun
          exact hafter

theorem runNative_runs_above {n : ℕ} {f : StackFrame} {s : Shared}
    {resume : RunOutcome → Shared → NativeCall} {o : NativeOutcome} {vm' : Vm}
    (hrun : runNative (execute rt native n) vm (.runs f s resume) = some (o, vm')) :
    Above vm.frames.length vm.frames vm' := by
  have hstart := Above.start { vm with shared := s } f
  rw [runNative] at hrun
  split at hrun
  · simp at hrun
  · rename_i vm₁ hvm₁
    obtain ⟨-, rfl⟩ := Prod.mk.inj (Option.some.inj hrun)
    exact execute_above hstart hvm₁
  · rename_i o₁ vm₁ _ hvm₁
    exact runNative_above (fun _ _ _ => execute_above) (execute_above hstart hvm₁) hrun

theorem settleShared_ne_native {F F' dst : ℕ} {c : FrameCell} {e : Except VmErrorKind Effect}
    {vm' : Vm} {call : NativeCall} : settleShared rt vm F c e ≠ .native vm' F' dst call := by
  unfold settleShared returnFrom
  repeat' split
  all_goals simp

theorem iterate_native {vm' : Vm} {F dst : ℕ} {call : NativeCall}
    (hi : iterate rt native vm = .native vm' F dst call) :
    vm'.currentFrame = some F ∧ F < vm'.frames.length := by
  unfold iterate at hi
  split at hi
  · simp at hi
  · rename_i F₀ hcur
    split at hi
    · simp at hi
    · split at hi
      · simp at hi
      · rename_i c hc
        have hlt : F₀ < vm.frames.length := (List.getElem?_eq_some_iff.mp hc).1
        split at hi
        · simp at hi
        · split at hi
          · split at hi
            · simp at hi
            · dsimp only at hi
              split at hi
              · unfold callNativeFrom at hi
                split at hi <;> simp only [reduceCtorEq, Iteration.native.injEq] at hi
                obtain ⟨rfl, rfl, -, -⟩ := hi
                exact ⟨hcur, by simpa [Vm.setFrame] using hlt⟩
              · exact absurd hi settleShared_ne_native
          · simp at hi

end Loop

/-! ## Continuing after the call -/

/-- The machine `after` continues at the instruction after the `CallFf` that `before` made
from `F`: `F` is the current frame, as it was except for the destination, which holds the
value of the native function. (The program counter is past the `CallFf` since the fetch.) -/
def ContinuesAfter (before : Vm) (F dst : ℕ) (v : Variant) (after : Vm) : Prop :=
  after.currentFrame = some F ∧ after.frames[F]? = (before.put F dst v).frames[F]?

/-- The call runs no script code. -/
def RunsNothing : NativeCall → Prop
  | .returns _ _ _ | .throws _ _ => True
  | .runs _ _ _ => False

/-- Re-entrant execution leaves the interrupted code intact: after a native function that
itself ran script code returned, the machine continues after the call. -/
def LeavesIntact (rt : Runtime) (native : Word → List Variant → Shared → NativeCall) : Prop :=
  ∀ (n : ℕ) (vm before after : Vm) (F dst : ℕ) (call : NativeCall) (v : Variant) (y : Bool),
    iterate rt native vm = .native before F dst call → ¬ RunsNothing call →
    runNative (execute rt native n) before call = some (.returned v y, after) →
    ContinuesAfter before F dst v (after.put F dst v)

theorem interrupted_registers {rt : Runtime}
    {native : Word → List Variant → Shared → NativeCall} {n : ℕ} {vm before after : Vm}
    {F dst : ℕ} {call : NativeCall} {v : Variant} {y : Bool}
    (hi : iterate rt native vm = .native before F dst call)
    (hr : runNative (execute rt native n) before call = some (.returned v y, after)) :
    (after.put F dst v).frames[F]? = (before.put F dst v).frames[F]? := by
  obtain ⟨-, hlt⟩ := iterate_native hi
  have hsame : after.frames[F]? = before.frames[F]? := by
    cases call with
    | returns w s y' =>
      obtain ⟨-, rfl⟩ := Prod.mk.inj (Option.some.inj hr)
      rfl
    | throws e s => simp [runNative] at hr
    | runs f s resume => exact (runNative_runs_above hr).below F hlt
  simp [Vm.put, hsame]

/-! ## A handler that returns -/

/-- An event handler that returns at once. -/
def sampleHandler : ScriptLambda := ⟨[⟨.Return, 0, 0, 0⟩], []⟩

/-- A native function that runs the handler and then returns 1, as `send` does. -/
def sampleSend (_ : Word) (_ : List Variant) (s : Shared) : NativeCall :=
  .runs (.fresh sampleHandler) s fun _ s => .returns (.int 1) s false

/-- The code that calls it: `CallFf r0, r1`, then `Return r0`. -/
def sampleCaller : ScriptLambda := ⟨[⟨.CallFf, 0, 1, 0⟩, ⟨.Return, 0, 0, 0⟩], []⟩

/-- The machine about to run that code, with the native function's address in `r1`. -/
def sampleVm : Vm :=
  ⟨[⟨(StackFrame.fresh sampleCaller).put 1 (.pointer 8), none⟩], some 0,
    ⟨fun _ => 0, false, false⟩⟩

/-- The machine when the native function is called: past the `CallFf`. -/
def sampleBefore : Vm :=
  sampleVm.setFrame 0 ((StackFrame.fresh sampleCaller).put 1 (.pointer 8)).advance

/-- The machine when it has returned. -/
def sampleAfter : Vm := (sampleBefore.enter (StackFrame.fresh sampleHandler).advance).drop

theorem iterate_sampleVm : iterate bareRuntime sampleSend sampleVm =
    .native sampleBefore 0 0 (sampleSend 8 [] sampleVm.shared) := rfl

theorem runNative_sample :
    runNative (execute bareRuntime sampleSend 1) sampleBefore (sampleSend 8 [] sampleVm.shared) =
      some (.returned (.int 1) false, sampleAfter) := rfl

/-- A native function that runs a handler does not leave its caller intact: when it returns,
the machine has no current frame. -/
theorem not_leaves_intact : ¬ LeavesIntact bareRuntime sampleSend := by
  intro h
  have hcur := (h 1 sampleVm sampleBefore sampleAfter 0 0 _ (.int 1) false iterate_sampleVm
    (fun hq => hq) runNative_sample).1
  have hnone : (sampleAfter.put 0 0 (.int 1)).currentFrame = none := rfl
  exact absurd (hnone.symm.trans hcur) (by simp)

/-- A native call from a frame leaves the machine continuing after the call exactly when it
ran no script code: every nested run leaves `current_frame` null or on a newer frame, and
nothing points it back. -/
theorem continues_iff_runs_nothing (rt : Runtime)
    (native : Word → List Variant → Shared → NativeCall) (n : ℕ) (vm before after : Vm)
    (F dst : ℕ) (call : NativeCall) (v : Variant) (y : Bool)
    (hi : iterate rt native vm = .native before F dst call)
    (hr : runNative (execute rt native n) before call = some (.returned v y, after)) :
    ContinuesAfter before F dst v (after.put F dst v) ↔ RunsNothing call := by
  obtain ⟨hcur, hlt⟩ := iterate_native hi
  constructor
  · rintro ⟨hafter, -⟩
    cases call with
    | returns w s y' => trivial
    | throws e s => trivial
    | runs f s resume =>
      have := (runNative_runs_above hr).current F hafter
      omega
  · intro hquiet
    refine ⟨?_, interrupted_registers hi hr⟩
    cases call with
    | returns w s y' =>
      obtain ⟨-, rfl⟩ := Prod.mk.inj (Option.some.inj hr)
      exact hcur
    | throws e s => simp [runNative] at hr
    | runs f s resume => exact hquiet.elim

theorem continues_iff_runs_nothing_sample :
    ContinuesAfter sampleBefore 0 0 (.int 1) (sampleAfter.put 0 0 (.int 1)) ↔
      RunsNothing (sampleSend 8 [] sampleVm.shared) :=
  continues_iff_runs_nothing bareRuntime sampleSend 1 sampleVm sampleBefore sampleAfter 0 0 _ _
    false iterate_sampleVm runNative_sample

end Soot.Analysis
