import Mathlib.Data.List.Nodup
import Soot.Model.Processes
import Soot.Analysis.KernelRuns

/-!
# Processes whose code has returned are not removed

After the code of a process has returned its quantum makes it ready again, and the tick puts it
back into its lists; the exit handler is not run. A process leaves `m_all` in a run only when it is
killed, so a loop until the scheduler is empty goes on until all processes were killed.
-/

set_option autoImplicit false

namespace Soot.Analysis

open Soot.Computation Soot.Computation.Recording Soot.Program Soot.Model

variable {σ μ : Type} {host : KernelHost σ μ} {exec : ℕ → KernelM σ μ Variant} {fuel : ℕ}
  {k t : Kernel σ μ} {p f : ℕ} {P : Process}

/-! ## The visit -/

theorem ends_process (cell : k.processes p = some P) : Ends (process p) k P k := by
  refine ends_bind ends_observe ?_
  rw [cell]
  exact ends_pure P

theorem ends_updateProcess (cell : k.processes p = some P) (g : Process → Process) :
    Ends (updateProcess p g) k () (k.setProcess p (some (g P))) :=
  ends_bind (ends_process cell) (ends_change _)

theorem processes_setProcess (k : Kernel σ μ) (p : ℕ) (P : Option Process) :
    (k.setProcess p P).processes p = P :=
  Function.update_self ..

theorem settleStatus_alive (h : P.isDead = false) : (settleStatus P).isDead = false := by
  simp only [Process.isDead, decide_eq_false_iff_not] at h ⊢
  rw [settleStatus]
  dsimp only
  split
  · exact ProcessStatus.noConfusion
  · exact h

/-- What a process is after the quantum in which its code has returned. -/
def rested (P : Process) : Process := settleStatus { P with mainThread := none }

/-- What the kernel is then. -/
def restedKernel (t : Kernel σ μ) (p : ℕ) (P : Process) : Kernel σ μ :=
  (t.setProcess p (some { P with mainThread := none })).markRested p (rested P)

theorem ends_tickState {F : ℕ} (h : AtCode k p f F P) :
    Ends (tickState host exec p) (k.markRunning p P) false (k.markRunning p P) := by
  obtain ⟨frame, hframe, htracks⟩ := h.tracks
  refine ends_bind (ends_process (processes_setProcess k p _)) ?_
  dsimp only
  rw [h.state]
  refine ends_bind (a := frame) (t := k.markRunning p P) ?_ ?_
  · refine ends_bind ends_observe ?_
    simp only [Kernel.markRunning, Kernel.noting, Kernel.setProcess, hframe]
    exact ends_pure frame
  · rw [htracks]
    refine ends_bind (ends_pure ()) ?_
    refine ends_bind ends_observe ?_
    change Ends (pure k.isYielded) _ _ _
    rw [h.quiet]
    exact ends_pure false

theorem ends_runQuantum {F : ℕ} {value : Variant} {P₂ : Process} (hcode : AtCode k p f F P)
    (hexec : Ends (exec F) (k.markRunning p P) value t) (hreturned : Returned t p P₂) :
    Ends (runQuantum host exec p) k () (restedKernel t p P₂) := by
  have hrunning := processes_setProcess k p
    (some { P with status := .RUNNING, stateTime := P.stateTime + 1 })
  refine ends_bind (ends_process hcode.cell) ?_
  refine ends_bind (ends_change _) ?_
  refine ends_bind (t := k.markRunning p P) (a := ()) ?_ ?_
  · refine ends_bind (ends_process hrunning) ?_
    dsimp only
    rw [hcode.trans]
    exact ends_pure ()
  refine ends_bind (ends_tickState hcode) ?_
  refine ends_bind (a := ()) (t := t.setProcess p (some { P₂ with mainThread := none })) ?_ ?_
  · refine ends_bind (ends_process hrunning) ?_
    dsimp only
    rw [hcode.main]
    refine ends_bind (a := value) (t := t) (ends_bind (ends_note _) hexec) ?_
    refine ends_bind (ends_note _) ?_
    refine ends_bind ends_observe ?_
    have hupdate := ends_updateProcess hreturned.cell
      fun P => { P with mainThread := t.currentFrame }
    rw [hreturned.frame] at hupdate ⊢
    exact hupdate
  have hcell := processes_setProcess t p (some { P₂ with mainThread := none })
  refine ends_bind (a := ()) (t := t.setProcess p (some { P₂ with mainThread := none })) ?_ ?_
  · refine ends_bind (ends_process hcell) ?_
    dsimp only
    rw [hreturned.post]
    exact ends_pure ()
  · exact ends_bind (ends_process hcell) (ends_change _)

theorem ends_visit (h : Finishes host exec fuel k p f t) :
    ∃ P : Process, t.processes p = some P ∧ P.isDead = false ∧ p ∈ t.all ∧
      Ends (visit host exec fuel p) k ()
        (((restedKernel t p P).endVisit p).place p (rested P)) := by
  obtain ⟨P, P₁, P₂, k₁, F, value, cell, hrunnable, hpending, hcode, hexec, hreturned⟩ := h
  refine ⟨P₂, hreturned.cell, hreturned.alive, hreturned.listed, ?_⟩
  have halive : P.isDead = false := by
    cases hdead : P.isDead with
    | false => rfl
    | true =>
      have hstatus : P.status = .DEAD := of_decide_eq_true hdead
      simp [Process.isRunnable, hstatus] at hrunnable
  refine ends_bind (ends_process cell) ?_
  rw [halive]
  refine ends_bind (ends_note _) ?_
  refine ends_bind (ends_change _) ?_
  refine ends_bind (a := ()) (t := restedKernel t p P₂) ?_ ?_
  · refine ends_bind (ends_process (k := k.beginVisit p) cell) ?_
    rw [hrunnable]
    refine ends_bind hpending ?_
    refine ends_bind (ends_process hcode.cell) ?_
    rw [hcode.awake]
    exact ends_runQuantum hcode hexec hreturned
  refine ends_bind (ends_note _) ?_
  refine ends_bind (ends_change _) ?_
  have hcell : ((restedKernel t p P₂).endVisit p).processes p = some (rested P₂) :=
    processes_setProcess _ p _
  refine ends_bind (ends_process hcell) ?_
  have hrested : (rested P₂).isDead = false := settleStatus_alive hreturned.alive
  rw [hrested]
  exact ends_change _

theorem stays_of_finishes (h : Finishes host exec fuel k p f t) :
    ∃ u, Ends (visit host exec fuel p) k () u ∧ u.all = t.all ∧ u.byPid = t.byPid ∧
      u.history.exits = t.history.exits ∧ ¬ Removed t u p f := by
  obtain ⟨P, -, -, hlisted, hends⟩ := ends_visit h
  refine ⟨_, hends, rfl, rfl, rfl, ?_⟩
  intro hremoved
  exact hremoved.all hlisted

/-! ## Runs -/

theorem accounted_initial (memory : μ) : Accounted (Kernel.initial memory : Kernel σ μ) where
  distinct := .nil
  spawning := .nil
  apart := by simp [Kernel.initial]
  created := by simp [Kernel.initial, History.empty]
  there := by simp [Kernel.initial]

/-- Cells are kept, and what is dead was dead. -/
def Preserves (k t : Kernel σ μ) : Prop :=
  ∀ q Q, k.processes q = some Q → ∃ Q', t.processes q = some Q' ∧ (Q'.isDead = true → Q.isDead = true)

theorem preserves_same (h : t.processes = k.processes) : Preserves k t := by
  intro q Q hQ
  exact ⟨Q, h ▸ hQ, id⟩

theorem preserves_update {P' : Process} (cell : k.processes p = some P)
    (h : t.processes = Function.update k.processes p (some P'))
    (hdead : P'.isDead = true → P.isDead = true) : Preserves k t := by
  intro q Q hQ
  by_cases hq : q = p
  · subst hq
    rw [cell] at hQ
    cases hQ
    exact ⟨P', by rw [h, Function.update_self], hdead⟩
  · exact ⟨Q, by rw [h, Function.update_of_ne hq]; exact hQ, id⟩

theorem accounted_of_preserves (hk : Accounted k) (hall : t.all = k.all)
    (hspawning : t.history.spawning = k.history.spawning) (hcount : t.processCount = k.processCount)
    (hdying : ∀ q b, (q, b) ∈ k.history.dying → ∃ b', (q, b') ∈ t.history.dying)
    (hcells : Preserves k t) : Accounted t where
  distinct := by
    rw [hall]
    exact hk.distinct
  spawning := by
    rw [hspawning]
    exact hk.spawning
  apart := by
    rw [hall, hspawning]
    exact hk.apart
  created := by
    rw [hspawning, hcount]
    exact hk.created
  there := by
    rw [hall]
    intro q hq
    obtain ⟨Q, hQ, hdead⟩ := hk.there q hq
    obtain ⟨Q', hQ', hkept⟩ := hcells q Q hQ
    refine ⟨Q', hQ', fun h => ?_⟩
    obtain ⟨b, hb⟩ := hdead (hkept h)
    exact hdying q b hb

theorem accounted_step {C : KernelAction → Kernel σ μ → Prop} (hframes : FramesInOrder k)
    (hk : Accounted k) (hstep : KernelStep host C k t) : Accounted t := by
  have hsame : ∀ q b, (q, b) ∈ k.history.dying → ∃ b', (q, b') ∈ k.history.dying :=
    fun q b hb => ⟨b, hb⟩
  cases hstep
  case machine moves =>
    refine accounted_of_preserves hk ?_ ?_ ?_ ?_ (preserves_same ?_) <;> rw [moves.rest]
    exact hsame
  case clock p P P' cell same =>
    refine accounted_of_preserves hk rfl rfl rfl hsame (preserves_update cell rfl ?_)
    rw [same]
    exact id
  case suspend p P cell condition =>
    refine accounted_of_preserves hk rfl rfl rfl hsame (preserves_update cell rfl ?_)
    simp [Process.isDead, Process.suspend]
  case wake p P cell condition =>
    refine accounted_of_preserves hk rfl rfl rfl hsame (preserves_update cell rfl ?_)
    simp only [Process.isDead, Process.wakeUp]
    split <;> simp
  case pop p f P rest cell top leaves =>
    exact accounted_of_preserves hk rfl rfl rfl hsame (preserves_update (p := p) cell rfl id)
  case push p P s cell stack state trans post enters =>
    exact accounted_of_preserves hk rfl rfl rfl hsame (preserves_update (p := p) cell rfl id)
  case switch cell stack leaving =>
    exact accounted_of_preserves hk rfl rfl rfl hsame (preserves_update cell rfl id)
  case main cell entering fits =>
    exact accounted_of_preserves hk rfl rfl rfl hsame (preserves_update cell rfl id)
  case clearPending cell entering =>
    exact accounted_of_preserves hk rfl rfl rfl hsame (preserves_update cell rfl id)
  case defer p P s cell status condition =>
    exact accounted_of_preserves hk rfl rfl rfl hsame (preserves_update (p := p) cell rfl id)
  case running p P l cell quantum =>
    refine accounted_of_preserves hk rfl rfl rfl hsame (preserves_update (p := p) cell rfl ?_)
    simp [Process.isDead]
  case parks cell quantum settled condition =>
    exact accounted_of_preserves hk rfl rfl rfl hsame (preserves_update cell rfl id)
  case rested p P P' l cell quantum rests =>
    refine accounted_of_preserves hk rfl rfl rfl hsame (preserves_update (p := p) cell rfl ?_)
    rcases rests with rfl | rfl
    · simp [Process.isDead]
    · simp only [Process.isDead, settleStatus]
      split <;> simp
  case readied cell spawning =>
    refine accounted_of_preserves hk rfl rfl rfl hsame (preserves_update cell rfl ?_)
    simp [Process.isDead]
  case child cell dying children =>
    exact accounted_of_preserves hk rfl rfl rfl hsame (preserves_update cell rfl id)
  case awake p i P cell here alive timer begun since =>
    refine accounted_of_preserves hk rfl rfl rfl hsame (preserves_update (p := p) cell rfl ?_)
    simp [Process.isDead]
  case resume p P cell status condition =>
    refine accounted_of_preserves hk rfl rfl rfl hsame (preserves_update (p := p) cell rfl ?_)
    simp [Process.isDead]
  case bury =>
    exact accounted_of_preserves hk rfl rfl rfl
      (fun q b hb => ⟨b, List.mem_cons_of_mem _ hb⟩) (preserves_same rfl)
  case detach =>
    exact accounted_of_preserves hk rfl rfl rfl
      (fun q b hb => ⟨b, List.mem_cons_of_mem _ hb⟩) (preserves_same rfl)
  case unlist p P l cell dying =>
    refine accounted_of_preserves hk rfl rfl rfl ?_ (preserves_same rfl)
    intro q b hb
    rw [dying] at hb
    simp only [Kernel.unlist, dying, List.tail_cons]
    rcases List.mem_cons.mp hb with heq | hb
    · cases heq
      exact ⟨true, List.mem_cons_self⟩
    · exact ⟨b, List.mem_cons_of_mem _ hb⟩
  case die p P l cell dying =>
    refine ⟨hk.distinct, hk.spawning, hk.apart, hk.created, ?_⟩
    intro q hq
    by_cases heq : q = p
    · subst heq
      exact ⟨_, processes_setProcess k q _, fun _ => ⟨false, dying ▸ List.mem_cons_self⟩⟩
    · obtain ⟨Q, hQ, hdead⟩ := hk.there q hq
      exact ⟨Q, (Function.update_of_ne heq _ _).trans hQ, hdead⟩
  case delete k₀ p P l cell dying stack begun called leaving entering =>
    have hother : ∀ q ∈ k.all.erase p, q ∈ k.all ∧ q ≠ p := by
      intro q hq
      rw [hk.distinct.mem_erase_iff] at hq
      exact ⟨hq.2, hq.1⟩
    refine ⟨hk.distinct.erase p, hk.spawning, ?_, hk.created, ?_⟩
    · intro q hq hall
      exact hk.apart q hq (hother q hall).1
    · intro q hq
      obtain ⟨hall, hne⟩ := hother q hq
      obtain ⟨Q, hQ, hdead⟩ := hk.there q hall
      refine ⟨Q, (Function.update_of_ne hne _ _).trans hQ, fun h => ?_⟩
      obtain ⟨b, hb⟩ := hdead h
      rw [dying] at hb
      simp only [Kernel.delete, dying, List.tail_cons]
      rcases List.mem_cons.mp hb with heq | hb
      · cases heq
        exact absurd rfl hne
      · exact ⟨b, hb⟩
  case unlisted p l dying gone =>
    refine ⟨hk.distinct, hk.spawning, hk.apart, hk.created, ?_⟩
    intro q hq
    obtain ⟨Q, hQ, hdead⟩ := hk.there q hq
    refine ⟨Q, hQ, fun h => ?_⟩
    obtain ⟨b, hb⟩ := hdead h
    rw [dying] at hb
    simp only [Kernel.noting, dying, List.tail_cons]
    rcases List.mem_cons.mp hb with heq | hb
    · cases heq
      exact absurd hq gone
    · exact ⟨b, hb⟩
  case create name script s pid entry state =>
    have hnew : ∀ q ∈ k.all, q < k.processCount := by
      intro q hq
      obtain ⟨Q, hQ, -⟩ := hk.there q hq
      by_contra hle
      rw [hframes.processes q (Nat.le_of_not_lt hle)] at hQ
      cases hQ
    refine ⟨hk.distinct, ?_, ?_, ?_, ?_⟩
    · refine List.nodup_cons.mpr ⟨fun hmem => ?_, hk.spawning⟩
      exact Nat.lt_irrefl _ (hk.created _ hmem)
    · intro q hq hall
      rcases List.mem_cons.mp hq with rfl | hq
      · exact Nat.lt_irrefl _ (hnew _ hall)
      · exact hk.apart q hq hall
    · intro q hq
      rcases List.mem_cons.mp hq with rfl | hq
      · exact Nat.lt_succ_self _
      · exact Nat.lt_succ_of_lt (hk.created q hq)
    · intro q hq
      obtain ⟨Q, hQ, hdead⟩ := hk.there q hq
      exact ⟨Q, (Function.update_of_ne (Nat.ne_of_lt (hnew q hq)) _ _).trans hQ, hdead⟩
  case list p P s l l' cell status spawning entering main current condition =>
    have hspawning := hk.spawning
    have hhead : p ∉ k.all := hk.apart p (spawning ▸ List.mem_cons_self)
    rw [spawning, List.nodup_cons] at hspawning
    refine ⟨?_, ?_, ?_, ?_, ?_⟩
    · refine List.nodup_append.mpr ⟨hk.distinct, List.nodup_singleton p, ?_⟩
      rintro q hq r hr rfl
      exact hhead (List.mem_singleton.mp hr ▸ hq)
    · simp only [Kernel.list, spawning, List.tail_cons]
      exact hspawning.2
    · intro q hq hall
      simp only [Kernel.list, spawning, List.tail_cons] at hq hall
      rcases List.mem_append.mp hall with hall | hall
      · exact hk.apart q (spawning ▸ List.mem_cons_of_mem _ hq) hall
      · exact hspawning.1 (List.mem_singleton.mp hall ▸ hq)
    · intro q hq
      simp only [Kernel.list, spawning, List.tail_cons] at hq
      exact hk.created q (spawning ▸ List.mem_cons_of_mem _ hq)
    · intro q hq
      rcases List.mem_append.mp hq with hq | hq
      · exact hk.there q hq
      · rw [List.mem_singleton.mp hq]
        exact ⟨P, cell, by simp [Process.isDead, status]⟩
  all_goals exact accounted_of_preserves hk rfl rfl rfl hsame (preserves_same rfl)

/-- Nothing but a kill of the process is asked of a step. -/
def Spares (p : ℕ) (a : KernelAction) (_ : Kernel σ μ) : Prop := a ≠ .kills p

theorem dying_step (hk : Stays p k)
    (hstep : KernelStep host (fun a k => Spares p a k ∧ True) k t) :
    ∀ b, (p, b) ∉ t.history.dying := by
  obtain ⟨hk, hall, hdying⟩ := hk
  cases hstep
  case machine moves =>
    rw [moves.rest]
    exact hdying
  case bury q Q l cell settling dead condition =>
    intro b hb
    rcases List.mem_cons.mp hb with heq | hb
    · cases heq
      obtain ⟨Q', hQ', hdead⟩ := hk.there p hall
      rw [cell] at hQ'
      cases hQ'
      obtain ⟨b, hb⟩ := hdead dead
      exact hdying b hb
    · exact hdying b hb
  case detach q Q cell alive condition =>
    intro b hb
    rcases List.mem_cons.mp hb with heq | hb
    · cases heq
      exact condition.1 rfl
    · exact hdying b hb
  case unlist q Q l cell dying =>
    intro b hb
    simp only [Kernel.unlist, dying, List.tail_cons] at hb
    rw [dying] at hdying
    rcases List.mem_cons.mp hb with heq | hb
    · cases heq
      exact hdying false List.mem_cons_self
    · exact hdying b (List.mem_cons_of_mem _ hb)
  case delete => exact fun b hb => hdying b (List.mem_of_mem_tail hb)
  case unlisted => exact fun b hb => hdying b (List.mem_of_mem_tail hb)
  all_goals exact hdying

theorem all_step (hk : Stays p k) (hstep : KernelStep host (fun a k => Spares p a k ∧ True) k t) :
    p ∈ t.all := by
  obtain ⟨-, hall, hdying⟩ := hk
  cases hstep
  case machine moves =>
    rw [moves.rest]
    exact hall
  case delete k₀ q Q l cell dying stack begun called leaving entering =>
    have hne : p ≠ q := by
      rintro rfl
      exact hdying true (dying ▸ List.mem_cons_self)
    exact (List.mem_erase_of_ne hne).mpr hall
  case list => exact List.mem_append_left _ hall
  all_goals exact hall

theorem stays_upholds (host : KernelHost σ μ) (p : ℕ) :
    Upholds host (Spares p) (fun _ _ => True) (fun _ => True) (Stays p) where
  step := fun _ _ hframes hk hstep =>
    ⟨accounted_step hframes hk.1 hstep, all_step hk hstep, dying_step hk hstep⟩
  enters := fun _ _ hk _ => Or.inl ⟨{ hk.1 with }, hk.2⟩
  promise := fun _ _ _ _ _ => trivial
  known := fun _ _ _ _ _ => trivial
  freedFrame := trivial
  undefined := trivial
  escaped := trivial
  outOfFuel := trivial

theorem accounted_upholds (host : KernelHost σ μ) :
    Upholds host (fun _ _ => True) (fun _ _ => True) (fun _ => True) Accounted where
  step := fun _ _ hframes hk hstep => accounted_step hframes hk hstep
  enters := fun _ _ hk _ => Or.inl { hk with }
  promise := fun _ _ _ _ _ => trivial
  known := fun _ _ _ _ _ => trivial
  freedFrame := trivial
  undefined := trivial
  escaped := trivial
  outOfFuel := trivial

theorem hostRun_accounted (host : KernelHost σ μ) (fuel : ℕ) (calls : List KernelCall) (memory : μ)
    (hends : Ends (hostRun host fuel calls) (Kernel.initial memory) () k) :
    KernelHolds Accounted k ∧ k.history.dying = [] ∧ k.currentProcess = none := by
  obtain ⟨hok, rfl⟩ := hends
  have hmeets : Recording.Meets (fun _ _ => True) (fun _ _ => True) (fun _ => True)
      (hostRun host fuel calls) (Kernel.initial memory) _ :=
    hostRun_meets (accounted_upholds host) calls
      ⟨accounted_initial memory, framesInOrder_initial memory⟩ rfl
  obtain ⟨hk, hb⟩ := hmeets.result (fun _ _ => trivial) hok
  exact ⟨hk, hb.dying, currentProcess_of_balanced hb rfl⟩

theorem killed_of_left (fuel : ℕ) (before after : List KernelCall) (memory : μ)
    (hbefore : Ends (hostRun host fuel before) (Kernel.initial memory) () k)
    (hafter : Ends (hostRun host fuel after) k () t) (hall : p ∈ k.all) (hleft : p ∉ t.all) :
    ∃ step ∈ (hostRun host fuel after k).steps, step.1 = .kills p := by
  obtain ⟨⟨hk, hframes⟩, hdying, hcurrent⟩ := hostRun_accounted host fuel before memory hbefore
  obtain ⟨hok, rfl⟩ := hafter
  by_contra hspared
  have hsteps : ∀ step ∈ (hostRun host fuel after k).steps, Spares p step.1 step.2 :=
    fun step hstep heq => hspared ⟨step, hstep, heq⟩
  have hstays : Stays p k := ⟨hk, hall, by simp [hdying]⟩
  have hmeets : Recording.Meets (Spares p) (fun _ _ => True) (fun _ => True)
      (hostRun host fuel after) k _ :=
    hostRun_meets (stays_upholds host p) after ⟨hstays, hframes⟩ hcurrent
  obtain ⟨⟨hk', -⟩, -⟩ := hmeets.result hsteps hok
  exact hleft hk'.2.1

theorem all_of_runLoop (n ticks : ℕ) {result : ℕ}
    (hends : Ends (runLoop host exec fuel none n ticks) k result t) : t.all = [] := by
  induction n generalizing k ticks with
  | zero => exact absurd hends.1 (by simp [runLoop, stop])
  | succ n ih =>
    obtain ⟨_, _, ⟨hk, rfl⟩, hends⟩ := hends.of_bind
    cases hk
    simp only [observe] at hends
    split at hends
    · rename_i hempty
      simp only [Bool.and_eq_true, List.isEmpty_iff] at hempty
      rw [← hends.2]
      exact hempty.2
    · obtain ⟨_, u, -, hends⟩ := hends.of_bind
      exact ih (ticks + 1) hends

/-- A process whose code has returned is not removed by the tick that has visited it, whatever the
process does; in a run of the program a process leaves `m_all` only when it is killed, and so the
loop until the scheduler is empty ends only after every process was killed.
SRCLINE: Process.cpp:302-356, Scheduler.cpp:108-215, Carbon.cpp:724-767 -/
theorem finished_stays (host : KernelHost σ μ) (fuel : ℕ) :
    (∀ (exec : ℕ → KernelM σ μ Variant) (k t : Kernel σ μ) (p f : ℕ),
      Finishes host exec fuel k p f t → ∃ u, Ends (visit host exec fuel p) k () u ∧
        u.all = t.all ∧ u.byPid = t.byPid ∧ u.history.exits = t.history.exits ∧
        ¬ Removed t u p f) ∧
    (∀ (before after : List KernelCall) (memory : μ) (k t : Kernel σ μ) (p : ℕ),
      Ends (hostRun host fuel before) (Kernel.initial memory) () k →
      Ends (hostRun host fuel after) k () t → p ∈ k.all → p ∉ t.all →
      ∃ step ∈ (hostRun host fuel after k).steps, step.1 = .kills p) ∧
    ∀ (before : List KernelCall) (memory : μ) (k t : Kernel σ μ) (p : ℕ),
      Ends (hostRun host fuel before) (Kernel.initial memory) () k →
      Ends (hostRun host fuel [.runLoop none]) k () t → p ∈ k.all →
      ∃ step ∈ (hostRun host fuel [.runLoop none] k).steps, step.1 = .kills p := by
  refine ⟨fun exec k t p f => stays_of_finishes, ?_, ?_⟩
  · intro before after memory k t p hbefore hafter hall hleft
    exact killed_of_left fuel before after memory hbefore hafter hall hleft
  · intro before memory k t p hbefore hloop hall
    have hempty : t.all = [] := by
      obtain ⟨_, u, hcall, hrest⟩ := hloop.of_bind
      obtain ⟨_, v, hrun, hpure⟩ := hcall.of_bind
      have hvu : v = u := hpure.2
      have hut : u = t := hrest.2
      rw [← hut, ← hvu]
      exact all_of_runLoop fuel 0 hrun
    refine killed_of_left fuel before _ memory hbefore hloop hall ?_
    rw [hempty]
    exact List.not_mem_nil

/-! ## A run -/

/-- Two scripts whose code does nothing. -/
def idleHost : KernelHost (List Native) Unit := scriptHost twoScripts fun _ => []

/-- A process is spawned, and a tick takes the ready queue. -/
def spawnedKernel : Kernel (List Native) Unit :=
  (hostRun idleHost 20 [.spawn 1 []] (Kernel.initial ())).state.takeReady

/-- The process of the tick, as the tick finds it. -/
def spawnedProcess : Process where
  pid := 1
  name := 1
  type := ⟨1, [⟨1, [⟨.Code, 0, some 1, []⟩]⟩]⟩
  status := .READY
  mask := 0
  children := []
  mainThread := some 0
  stack := [0]
  currentStateFrame := some 0
  currentState := some ⟨1, [⟨.Code, 0, some 1, []⟩]⟩
  nextState := none
  transHook := none
  postHook := none
  shouldYield := false
  sleepFrames := 0
  stateTime := 0

/-- The kernel after the code of the process has returned. -/
def returnedKernel : Kernel (List Native) Unit :=
  (executeFrame idleHost 20 0
    ((spawnedKernel.beginVisit 0).markRunning 0 spawnedProcess)).state

theorem finishes_idle :
    Finishes idleHost (executeFrame idleHost 20) 20 spawnedKernel 0 0 returnedKernel := by
  have hcell : (spawnedKernel.beginVisit 0).processes 0 = some spawnedProcess := by
    with_unfolding_all rfl
  refine ⟨spawnedProcess, spawnedProcess,
    { spawnedProcess with status := .RUNNING, stateTime := 1 }, spawnedKernel.beginVisit 0, 0, .null,
    hcell, by decide, ?_, ?_, ?_, ?_⟩
  · refine ends_bind (ends_process hcell) ?_
    exact ends_pure ()
  · refine ⟨hcell, by decide, rfl, rfl, ?_, by with_unfolding_all rfl, rfl⟩
    exact ⟨⟨⟨1, [⟨.Code, 0, some 1, []⟩]⟩, [], 0⟩, by with_unfolding_all rfl, rfl⟩
  · exact ⟨by with_unfolding_all rfl, rfl⟩
  · refine ⟨?_, ?_, by decide, ?_, rfl, rfl⟩
    · with_unfolding_all rfl
    · with_unfolding_all rfl
    · have hall : returnedKernel.all = [0] := by
        with_unfolding_all rfl
      rw [hall]
      exact List.mem_cons_self

theorem finished_stays_idle :
    ∃ u, Ends (visit idleHost (executeFrame idleHost 20) 20 0) spawnedKernel () u ∧
      u.all = [0] ∧ ¬ Removed returnedKernel u 0 0 := by
  obtain ⟨u, hends, hall, -, -, hstays⟩ :=
    (finished_stays idleHost 20).1 _ _ _ _ _ finishes_idle
  refine ⟨u, hends, ?_, hstays⟩
  rw [hall]
  with_unfolding_all rfl

/-- A process whose code does nothing is still there after its first tick. -/
theorem not_finished_removed :
    ¬ ∀ (host : KernelHost (List Native) Unit) (exec : ℕ → KernelM (List Native) Unit Variant)
      (fuel : ℕ) (k t u : Kernel (List Native) Unit) (p f : ℕ), Finishes host exec fuel k p f t →
      Ends (visit host exec fuel p) k () u → Removed t u p f := by
  intro h
  obtain ⟨u, hends, -, -, -, hstays⟩ := stays_of_finishes finishes_idle
  exact hstays (h _ _ _ _ _ _ _ _ finishes_idle hends)

end Soot.Analysis
