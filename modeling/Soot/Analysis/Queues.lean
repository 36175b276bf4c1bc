import Soot.Model.Processes
import Soot.Analysis.KernelRuns
import Mathlib.Data.List.Nodup
import Mathlib.Data.List.Perm.Basic

/-!
# Processes are listed once

In a run that kills no process an active call uses and resumes none that is not suspended, every
process in `m_all` is in exactly one place, and no process is used after it was deleted.
-/

set_option autoImplicit false

namespace Soot.Analysis

open Soot.Computation Soot.Computation.Recording Soot.Program Soot.Model

variable {σ μ : Type} {host : KernelHost σ μ} {C : KernelAction → Kernel σ μ → Prop}
  {k t : Kernel σ μ}

/-! ## Processes that are there -/

theorem identityKept_of_eq (h : t.processes = k.processes) : IdentityKept k t := by
  intro q
  rw [h]
  refine ⟨Iff.rfl, ?_⟩
  intro P P' hP hP'
  obtain rfl : P = P' := by simpa [hP] using hP'
  exact ⟨rfl, fun h => h⟩

theorem identityKept_update {p : ℕ} {P P' : Process} (cell : k.processes p = some P)
    (hprocesses : t.processes = Function.update k.processes p (some P'))
    (hsame : SameIdentity P P') : IdentityKept k t := by
  intro q
  rw [hprocesses]
  by_cases hq : q = p
  · subst hq
    refine ⟨by simp [cell], ?_⟩
    intro Q Q' hQ hQ'
    obtain rfl : P = Q := by simpa [cell] using hQ
    obtain rfl : P' = Q' := by simpa using hQ'
    exact hsame
  · refine ⟨by simp [hq], ?_⟩
    intro Q Q' hQ hQ'
    obtain rfl : Q = Q' := by simpa [hq, hQ] using hQ'
    exact ⟨rfl, fun h => h⟩

/-- What a step can do to the processes there are: none, but for one that is created
and one that is deleted. -/
theorem population_step (hstep : KernelStep host C k t) :
    (IdentityKept k t ∧ ∀ p, population t p = population k p) ∨
    (∃ name script s pid, t = k.withProcess (freshProcess pid name script s) s) ∨
    ∃ p l k₀, t = k.delete p ∧ k.history.dying = (p, true) :: l ∧
      (C (.kills p) k₀ ∨ C (.buries p) k₀) ∧ k.history.called = k₀.history.called ∧
      k.history.leaving = k₀.history.leaving ∧ k.history.entering = k₀.history.entering := by
  have hsame : ∀ {P P' : Process}, P'.pid = P.pid → P'.children = P.children →
      SameIdentity P P' := fun hpid hchildren => ⟨hpid, fun h => hchildren.trans h⟩
  cases hstep
  case create name script s pid entry state =>
    exact Or.inr (Or.inl ⟨name, script, s, pid, rfl⟩)
  case delete k₀ p P l cell dying stack begun called leaving entering =>
    exact Or.inr (Or.inr ⟨p, l, k₀, rfl, dying, begun, called, leaving, entering⟩)
  case machine moves =>
    refine Or.inl ⟨identityKept_of_eq (by rw [moves.rest]), ?_⟩
    intro p
    rw [moves.rest]
    rfl
  case list p P s l l' cell status spawning entering main current condition =>
    refine Or.inl ⟨identityKept_of_eq rfl, ?_⟩
    intro q
    have hcount : k.history.spawning.count q = l.count q + [p].count q := by
      rw [spawning, ← List.singleton_append, List.count_append]
      omega
    simp only [population, Kernel.list, List.count_append, spawning, List.tail_cons] at hcount ⊢
    omega
  case clock p P P' cell same =>
    refine Or.inl ⟨identityKept_update cell rfl ?_, fun _ => rfl⟩
    rw [same]
    exact hsame rfl rfl
  case child p c P cs l cell dying children =>
    refine Or.inl ⟨identityKept_update cell rfl ⟨rfl, ?_⟩, fun _ => rfl⟩
    intro hnone
    rw [children] at hnone
    cases hnone
  case rested p P P' l cell quantum rests =>
    refine Or.inl ⟨identityKept_update (p := p) cell rfl ?_, fun _ => rfl⟩
    rcases rests with rfl | rfl <;> exact hsame rfl rfl
  case suspend cell _ => exact Or.inl ⟨identityKept_update cell rfl (hsame rfl rfl), fun _ => rfl⟩
  case wake cell _ => exact Or.inl ⟨identityKept_update cell rfl (hsame rfl rfl), fun _ => rfl⟩
  case pop p f P rest cell _ _ =>
    exact Or.inl ⟨identityKept_update (p := p) cell rfl (hsame rfl rfl), fun _ => rfl⟩
  case push p P s cell _ _ _ _ _ =>
    exact Or.inl ⟨identityKept_update (p := p) cell rfl (hsame rfl rfl), fun _ => rfl⟩
  case switch cell _ _ =>
    exact Or.inl ⟨identityKept_update cell rfl (hsame rfl rfl), fun _ => rfl⟩
  case main cell _ _ => exact Or.inl ⟨identityKept_update cell rfl (hsame rfl rfl), fun _ => rfl⟩
  case clearPending cell _ =>
    exact Or.inl ⟨identityKept_update cell rfl (hsame rfl rfl), fun _ => rfl⟩
  case defer p P s cell _ _ =>
    exact Or.inl ⟨identityKept_update (p := p) cell rfl (hsame rfl rfl), fun _ => rfl⟩
  case running p P l cell _ =>
    exact Or.inl ⟨identityKept_update (p := p) cell rfl (hsame rfl rfl), fun _ => rfl⟩
  case parks cell _ _ _ =>
    exact Or.inl ⟨identityKept_update cell rfl (hsame rfl rfl), fun _ => rfl⟩
  case die cell _ => exact Or.inl ⟨identityKept_update cell rfl (hsame rfl rfl), fun _ => rfl⟩
  case readied cell _ =>
    exact Or.inl ⟨identityKept_update cell rfl (hsame rfl rfl), fun _ => rfl⟩
  case awake p i P cell _ _ _ _ _ =>
    exact Or.inl ⟨identityKept_update (p := p) cell rfl (hsame rfl rfl), fun _ => rfl⟩
  case resume p P cell _ _ =>
    exact Or.inl ⟨identityKept_update (p := p) cell rfl (hsame rfl rfl), fun _ => rfl⟩
  all_goals exact Or.inl ⟨identityKept_of_eq rfl, fun _ => rfl⟩

/-! ## Places -/

theorem mem_all_of_places (hI : Listed k) {p : ℕ} (h : p ∈ places k) : p ∈ k.all := by
  rw [← List.count_pos_iff, hI.placed p]
  exact List.count_pos_iff.mpr h

theorem count_places_le (hI : Listed k) (p : ℕ) : (places k).count p ≤ 1 := by
  have hplaced := hI.placed p
  have honce := hI.once p
  unfold population at honce
  omega

theorem count_places (k : Kernel σ μ) (p : ℕ) : (places k).count p =
    k.history.pending.count p + (k.history.quanta.map Prod.fst).count p +
      k.history.settling.count p + (k.history.dying.map Prod.fst).count p + k.ready.count p +
      k.suspended.count p := by
  simp only [places, List.count_append]

theorem not_dead_of_listed (hI : Listed k) {p : ℕ} {P : Process} (cell : k.processes p = some P)
    (hall : p ∈ k.all) (hdying : ∀ b, (p, b) ∉ k.history.dying) : P.isDead = false := by
  rcases hI.status p P cell hall hdying with h | h | ⟨h, -⟩ <;> simp [Process.isDead, h]

theorem not_dying_of_count (hI : Listed k) {p : ℕ}
    (h : 0 < k.history.pending.count p + (k.history.quanta.map Prod.fst).count p +
      k.history.settling.count p + k.ready.count p + k.suspended.count p) :
    ∀ b, (p, b) ∉ k.history.dying := by
  intro b hb
  have hmem : p ∈ k.history.dying.map Prod.fst := List.mem_map.mpr ⟨(p, b), hb, rfl⟩
  have hpos := List.count_pos_iff.mpr hmem
  have hle := count_places_le hI p
  rw [count_places] at hle
  omega

theorem count_of_cons {l l' : List ℕ} {p : ℕ} (h : l = p :: l') (q : ℕ) :
    l.count q = [p].count q + l'.count q := by
  rw [h, ← List.singleton_append, List.count_append]

theorem count_eraseIdx {l : List ℕ} {i p : ℕ} (h : l[i]? = some p) (q : ℕ) :
    l.count q = [p].count q + (l.eraseIdx i).count q := by
  obtain ⟨hi, hp⟩ := List.getElem?_eq_some_iff.mp h
  have hperm := List.getElem_cons_eraseIdx_perm hi
  rw [hp] at hperm
  rw [← hperm.count_eq q, ← List.singleton_append, List.count_append]

theorem count_erase_of_mem {l : List ℕ} {p : ℕ} (h : p ∈ l) (q : ℕ) :
    l.count q = [p].count q + (l.erase p).count q := by
  rw [(List.perm_cons_erase h).count_eq q, ← List.singleton_append, List.count_append]

theorem placed_step (hC : ∀ a k, C a k → OrderlyKills a k) (hbury : ∀ p k, ¬ C (.buries p) k)
    (hI : Listed k) (hstep : KernelStep host C k t) (q : ℕ) :
    t.all.count q = (places t).count q := by
  have hold := hI.placed q
  rw [count_places] at hold ⊢
  cases hstep
  case machine moves =>
    rw [moves.rest]
    exact hold
  case visit p P l pending cell alive current condition =>
    have hcount := count_of_cons pending q
    simp only [Kernel.beginVisit, List.map_cons, pending, List.tail_cons] at hold hcount ⊢
    rw [← List.singleton_append, List.count_append]
    omega
  case skip p P l pending cell dead =>
    have hpos : 0 < k.history.pending.count p := by simp [pending]
    have hall : p ∈ k.all := mem_all_of_places hI (by
      rw [← List.count_pos_iff, count_places]
      omega)
    have halive := not_dead_of_listed hI cell hall (not_dying_of_count hI (by omega))
    rw [halive] at dead
    cases dead
  case visited k₀ p begun quantum _ active condition =>
    have hcount : (k.history.quanta.map Prod.fst).count q =
        [p].count q + (k₀.history.quanta.map Prod.fst).count q :=
      count_of_cons (by rw [quantum, List.map_cons]) q
    have hcons := count_of_cons (l := p :: k.history.settling) rfl q
    simp only [Kernel.endVisit, quantum, List.tail_cons] at hold hcount hcons ⊢
    omega
  case running p P l cell quantum =>
    simpa [Kernel.markRunning, Kernel.noting, Kernel.setProcess, quantum] using hold
  case rested p P P' l cell quantum rests =>
    simpa [Kernel.markRested, Kernel.noting, Kernel.setProcess, quantum] using hold
  case place p P l cell settling alive =>
    have hcount := count_of_cons settling q
    have hpos : 0 < k.history.settling.count p := by simp [settling]
    have hall : p ∈ k.all := mem_all_of_places hI (by
      rw [← List.count_pos_iff, count_places]
      omega)
    have hdying := not_dying_of_count hI (p := p) (by omega)
    have hnotRunning : P.status ≠ .RUNNING := by
      intro hrunning
      rcases hI.status p P cell hall hdying with h | h | ⟨-, h⟩
      · rw [hrunning] at h
        cases h
      · rw [hrunning] at h
        cases h
      · have hmem := List.count_pos_iff.mpr (List.mem_map_of_mem (f := Prod.fst) h)
        have hle := count_places_le hI p
        rw [count_places] at hle
        simp only at hmem
        omega
    rcases hI.status p P cell hall hdying with h | h | ⟨h, -⟩
    · simp only [Kernel.place, h, settling, List.tail_cons] at hold hcount ⊢
      simp only [reduceCtorEq, if_false, if_true, List.count_append]
      omega
    · simp only [Kernel.place, h, settling, List.tail_cons] at hold hcount ⊢
      simp only [reduceCtorEq, if_false, if_true, List.count_append]
      omega
    · exact absurd h hnotRunning
  case bury p P l cell settling dead condition => exact absurd condition (hbury p k)
  case detach p P cell alive condition =>
    have hfree : ¬ InUse k p := hC _ k condition
    have hpos : 0 < population k p := (hI.cells p).mp (by rw [cell]; simp)
    have hall : p ∈ k.all := by
      rcases Nat.pos_of_ne_zero (Nat.ne_of_gt hpos) with h
      rw [← List.count_pos_iff]
      have hspawning : k.history.spawning.count p = 0 := by
        rw [List.count_eq_zero]
        intro hmem
        exact hfree (Or.inr (Or.inr (Or.inr (Or.inl hmem))))
      unfold population at hpos
      omega
    have hwhere : p ∈ k.ready ∨ p ∈ k.suspended := by
      have hplaces : p ∈ places k := by
        rw [← List.count_pos_iff, ← hI.placed p]
        exact List.count_pos_iff.mpr hall
      simp only [places, List.mem_append, List.mem_map] at hplaces
      rcases hplaces with ((((h | ⟨⟨_, b⟩, h, rfl⟩) | h) | ⟨⟨_, b⟩, h, rfl⟩) | h) | h
      · exact absurd (Or.inl h) hfree
      · exact absurd (Or.inr (Or.inl ⟨b, h⟩)) hfree
      · exact absurd (Or.inr (Or.inr (Or.inl h))) hfree
      · exact absurd (Or.inr (Or.inr (Or.inr (Or.inr (Or.inl ⟨b, h⟩))))) hfree
      · exact Or.inl h
      · exact Or.inr h
    have hle := count_places_le hI p
    rw [count_places] at hle
    simp only [Kernel.detach, List.map_cons]
    rw [← List.singleton_append, List.count_append]
    rcases hwhere with h | h
    · have hcount := count_erase_of_mem h q
      have hpos := List.count_pos_iff.mpr h
      have hnot : p ∉ k.suspended := by
        rw [← List.count_eq_zero]
        omega
      rw [List.erase_of_not_mem hnot]
      omega
    · have hcount := count_erase_of_mem h q
      have hpos := List.count_pos_iff.mpr h
      have hnot : p ∉ k.ready := by
        rw [← List.count_eq_zero]
        omega
      rw [List.erase_of_not_mem hnot]
      omega
  case unlist p P l cell dying =>
    simpa [Kernel.unlist, dying] using hold
  case delete k₀ p P l cell dying stack begun called leaving entering =>
    have hdying : (k.history.dying.map Prod.fst).count q =
        [p].count q + (l.map Prod.fst).count q :=
      count_of_cons (by rw [dying, List.map_cons]) q
    have hall : p ∈ k.all := mem_all_of_places hI (by
      simp only [places, List.mem_append, List.mem_map]
      exact Or.inl (Or.inl (Or.inr ⟨(p, true), by simp [dying], rfl⟩)))
    have hcount := count_erase_of_mem hall q
    simp only [Kernel.delete, Kernel.setProcess, dying, List.tail_cons] at hold hdying ⊢
    omega
  case unlisted p l dying gone =>
    have hall : p ∈ k.all := mem_all_of_places hI (by
      simp only [places, List.mem_append, List.mem_map]
      exact Or.inl (Or.inl (Or.inr ⟨(p, true), by simp [dying], rfl⟩)))
    exact absurd hall gone
  case list p P s l l' cell status spawning entering main current condition =>
    simp only [Kernel.list, List.count_append]
    omega
  case awake k₀ p i P cell here alive timer begun since =>
    have hcount := count_eraseIdx here q
    simp only [Kernel.awake, Kernel.setProcess, List.count_append]
    omega
  case takeReady =>
    simp only [Kernel.takeReady, List.count_append, List.count_nil]
    omega
  case resume p P cell status condition =>
    have hmem : p ∈ k.suspended := hC _ k condition
    have hcount := count_erase_of_mem hmem q
    simp only [Kernel.resume, Kernel.setProcess, List.count_append]
    omega
  all_goals exact hold

/-! ## The invariant, field by field -/

theorem not_used_of_begun (hC : ∀ a k, C a k → OrderlyKills a k) (hbury : ∀ p k, ¬ C (.buries p) k)
    {k₀ : Kernel σ μ} {p : ℕ} (begun : C (.kills p) k₀ ∨ C (.buries p) k₀)
    (called : k.history.called = k₀.history.called)
    (leaving : k.history.leaving = k₀.history.leaving)
    (entering : k.history.entering = k₀.history.entering) :
    ¬ (p ∈ k.history.called ∨ (∃ s, (p, s) ∈ k.history.leaving) ∨
      ∃ s, (p, s) ∈ k.history.entering) := by
  rcases begun with hkills | hburies
  · have hfree : ¬ InUse k₀ p := hC _ k₀ hkills
    rw [called, leaving, entering]
    exact fun h => hfree (Or.inr (Or.inr (Or.inr (Or.inr (Or.inr h)))))
  · exact absurd hburies (hbury p k₀)

theorem population_fresh (hk : FramesInOrder k) (hI : Listed k) : population k k.processCount = 0 := by
  have hnone := hk.processes k.processCount (Nat.le_refl _)
  by_contra hne
  exact (hI.cells k.processCount).mpr (Nat.pos_of_ne_zero hne) hnone

theorem population_delete (hI : Listed k) {p : ℕ} {l : List (ℕ × Bool)}
    (dying : k.history.dying = (p, true) :: l) (q : ℕ) :
    population k q = [p].count q + population (k.delete p) q := by
  have hall : p ∈ k.all := mem_all_of_places hI (by
    simp only [places, List.mem_append, List.mem_map]
    exact Or.inl (Or.inl (Or.inr ⟨(p, true), by simp [dying], rfl⟩)))
  have hcount := count_erase_of_mem hall q
  simp only [population, Kernel.delete, Kernel.setProcess] at hcount ⊢
  omega

theorem cells_step (hk : FramesInOrder k) (hI : Listed k) (hstep : KernelStep host C k t) :
    (∀ p, population t p ≤ 1) ∧ (∀ p, t.processes p ≠ none ↔ 0 < population t p) ∧
      ∀ p P, t.processes p = some P → P.children = [] := by
  rcases population_step hstep with ⟨hkept, hsame⟩ | ⟨name, script, s, pid, rfl⟩ |
    ⟨p, l, k₀, rfl, dying, -⟩
  · refine ⟨fun p => by rw [hsame p]; exact hI.once p, ?_, ?_⟩
    · intro p
      rw [hsame p, ← hI.cells p, not_iff_not]
      exact (hkept p).1
    · intro p P' hP'
      cases hP : k.processes p with
      | none =>
        rw [(hkept p).1.mpr hP] at hP'
        cases hP'
      | some P => exact ((hkept p).2 P P' hP hP').2 (hI.children p P hP)
  · have hfresh := population_fresh hk hI
    have hpop : ∀ q, population (k.withProcess (freshProcess pid name script s) s) q =
        [k.processCount].count q + population k q := by
      intro q
      simp only [population, Kernel.withProcess, Kernel.setProcess]
      rw [← List.singleton_append, List.count_append]
      omega
    refine ⟨?_, ?_, ?_⟩
    · intro q
      rw [hpop q]
      by_cases hq : q = k.processCount
      · subst hq
        simp [hfresh]
      · simpa [List.count_singleton, Ne.symm hq] using hI.once q
    · intro q
      rw [hpop q]
      by_cases hq : q = k.processCount
      · simp [Kernel.withProcess, Kernel.setProcess, hq, hfresh]
      · simpa [Kernel.withProcess, Kernel.setProcess, hq, List.count_singleton, Ne.symm hq]
          using hI.cells q
    · intro q Q hQ
      by_cases hq : q = k.processCount
      · obtain rfl : freshProcess pid name script s = Q := by
          simpa [Kernel.withProcess, Kernel.setProcess, hq] using hQ
        rfl
      · exact hI.children q Q (by simpa [Kernel.withProcess, Kernel.setProcess, hq] using hQ)
  · have hpop := population_delete hI dying
    refine ⟨?_, ?_, ?_⟩
    · intro q
      have hle := hI.once q
      rw [hpop q] at hle
      omega
    · intro q
      by_cases hq : q = p
      · subst hq
        have hle := hI.once q
        rw [hpop q] at hle
        simp only [List.count_singleton_self] at hle
        simp only [Kernel.delete, Kernel.setProcess, Function.update_self]
        constructor
        · exact fun h => absurd rfl h
        · intro h
          simp only [population, Kernel.delete, Kernel.setProcess] at hle h
          omega
      · have hcells := hI.cells q
        rw [hpop q] at hcells
        simpa [Kernel.delete, Kernel.setProcess, hq, List.count_singleton, Ne.symm hq] using hcells
    · intro q Q hQ
      by_cases hq : q = p
      · simp [Kernel.delete, Kernel.setProcess, hq] at hQ
      · exact hI.children q Q (by simpa [Kernel.delete, Kernel.setProcess, hq] using hQ)

theorem population_pos (hI : Listed k) {p : ℕ} {P : Process} (cell : k.processes p = some P) :
    0 < population k p :=
  (hI.cells p).mp (by rw [cell]; simp)

theorem used_step (hC : ∀ a k, C a k → OrderlyKills a k) (hbury : ∀ p k, ¬ C (.buries p) k)
    (hI : Listed k) (hstep : KernelStep host C k t) :
    ∀ p, (p ∈ t.history.called ∨ (∃ s, (p, s) ∈ t.history.leaving) ∨
      ∃ s, (p, s) ∈ t.history.entering) → 0 < population t p := by
  have hstep' := hstep
  cases hstep
  case machine moves =>
    rw [moves.rest]
    exact hI.used
  case push p P s cell _ _ _ _ _ =>
    rintro q (h | h | ⟨s', h⟩)
    · exact hI.used q (Or.inl h)
    · exact hI.used q (Or.inr (Or.inl h))
    · rcases List.mem_cons.mp h with h | h
      · cases h
        exact population_pos hI cell
      · exact hI.used q (Or.inr (Or.inr ⟨s', h⟩))
  case beginNow p P s cell _ _ =>
    rintro q (h | ⟨s', h⟩ | h)
    · exact hI.used q (Or.inl h)
    · rcases List.mem_cons.mp h with h | h
      · cases h
        exact population_pos hI cell
      · exact hI.used q (Or.inr (Or.inl ⟨s', h⟩))
    · exact hI.used q (Or.inr (Or.inr h))
  case beginPending p P s l cell _ _ =>
    rintro q (h | ⟨s', h⟩ | h)
    · exact hI.used q (Or.inl h)
    · rcases List.mem_cons.mp h with h | h
      · cases h
        exact population_pos hI cell
      · exact hI.used q (Or.inr (Or.inl ⟨s', h⟩))
    · exact hI.used q (Or.inr (Or.inr h))
  case left =>
    rintro q (h | ⟨s', h⟩ | h)
    · exact hI.used q (Or.inl h)
    · exact hI.used q (Or.inr (Or.inl ⟨s', List.mem_of_mem_tail h⟩))
    · exact hI.used q (Or.inr (Or.inr h))
  case entered =>
    rintro q (h | h | ⟨s', h⟩)
    · exact hI.used q (Or.inl h)
    · exact hI.used q (Or.inr (Or.inl h))
    · exact hI.used q (Or.inr (Or.inr ⟨s', List.mem_of_mem_tail h⟩))
  case call p P cell =>
    rintro q (h | h)
    · rcases List.mem_cons.mp h with rfl | h
      · exact population_pos hI cell
      · exact hI.used q (Or.inl h)
    · exact hI.used q (Or.inr h)
  case called =>
    rintro q (h | h)
    · exact hI.used q (Or.inl (List.mem_of_mem_tail h))
    · exact hI.used q (Or.inr h)
  case list p P s l l' cell status spawning entering main current condition =>
    intro q h
    have hsame : population (k.list p P) q = population k q := by
      have hcount := count_of_cons spawning q
      simp only [population, Kernel.list, List.count_append, spawning, List.tail_cons] at hcount ⊢
      omega
    rw [hsame]
    rcases h with h | h | ⟨s', h⟩
    · exact hI.used q (Or.inl h)
    · exact hI.used q (Or.inr (Or.inl h))
    · exact hI.used q (Or.inr (Or.inr ⟨s', List.mem_of_mem_tail h⟩))
  case create name script s pid entry state =>
    intro q h
    have hpos := hI.used q h
    simp only [population, Kernel.withProcess, Kernel.setProcess] at hpos ⊢
    rw [← List.singleton_append, List.count_append]
    omega
  case delete k₀ p P l cell dying stack begun called leaving entering =>
    intro q h
    have hpos := hI.used q h
    have hq : q ≠ p := by
      rintro rfl
      exact not_used_of_begun hC hbury begun called leaving entering h
    rw [population_delete hI dying q] at hpos
    simpa [List.count_singleton, Ne.symm hq] using hpos
  all_goals exact hI.used

theorem inQuantum_step (hI : Listed k) (hstep : KernelStep host C k t) :
    ∀ p, t.currentProcess = some p →
      p ∈ t.history.spawning ∨ ∃ b, (p, b) ∈ t.history.quanta := by
  cases hstep
  case machine moves =>
    rw [moves.rest]
    exact hI.current
  case visit p P l pending cell alive current condition =>
    rintro q ⟨⟩
    exact Or.inr ⟨false, List.mem_cons_self⟩
  case visited => rintro q ⟨⟩
  case begins p l spawning condition =>
    rintro q ⟨⟩
    exact Or.inl (by simp [Kernel.beginEnter, spawning])
  case begun => rintro q ⟨⟩
  case running p P l cell quantum =>
    intro q hq
    rcases hI.current q hq with h | ⟨b, h⟩
    · exact Or.inl h
    · rw [quantum] at h
      rcases List.mem_cons.mp h with h | h
      · cases h
        exact Or.inr ⟨true, List.mem_cons_self⟩
      · exact Or.inr ⟨b, List.mem_cons_of_mem _ (by simpa [Kernel.setProcess, quantum] using h)⟩
  case rested p P P' l cell quantum rests =>
    intro q hq
    rcases hI.current q hq with h | ⟨b, h⟩
    · exact Or.inl h
    · rw [quantum] at h
      rcases List.mem_cons.mp h with h | h
      · cases h
        exact Or.inr ⟨false, List.mem_cons_self⟩
      · exact Or.inr ⟨b, List.mem_cons_of_mem _ (by simpa [Kernel.setProcess, quantum] using h)⟩
  case create name script s pid entry state =>
    intro q hq
    rcases hI.current q hq with h | h
    · exact Or.inl (List.mem_cons_of_mem _ h)
    · exact Or.inr h
  case list p P s l l' cell status spawning entering main current condition =>
    intro q hq
    rw [show (k.list p P).currentProcess = none from current] at hq
    cases hq
  all_goals exact hI.current

/-- A process found by its pid is there after a step, with that pid. -/
theorem cell_of_pid (hk : FramesInOrder k) (hI : Listed k) (hstep : KernelStep host C k t)
    {pid q : ℕ} (h : (pid, q) ∈ k.byPid) : ∃ P, t.processes q = some P ∧ P.pid = pid := by
  obtain ⟨-, hdying, P, hP, hpid⟩ := hI.pids pid q h
  rcases population_step hstep with ⟨hkept, -⟩ | ⟨name, script, s, pid', rfl⟩ |
    ⟨p, l, k₀, rfl, dying, -⟩
  · cases hP' : t.processes q with
    | none =>
      rw [(hkept q).1.mp hP'] at hP
      cases hP
    | some P' => exact ⟨P', rfl, ((hkept q).2 P P' hP hP').1.trans hpid⟩
  · have hq : q ≠ k.processCount := by
      rintro rfl
      rw [hk.processes _ (Nat.le_refl _)] at hP
      cases hP
    exact ⟨P, by simpa [Kernel.withProcess, Kernel.setProcess, hq] using hP, hpid⟩
  · have hq : q ≠ p := by
      rintro rfl
      exact hdying (by simp [dying])
    exact ⟨P, by simpa [Kernel.delete, Kernel.setProcess, hq] using hP, hpid⟩

/-- The table of pids names processes that are listed and have that pid. -/
theorem pids_step (hk : FramesInOrder k) (hI : Listed k) (hstep : KernelStep host C k t) :
    ∀ pid p, (pid, p) ∈ t.byPid →
      p ∈ t.all ∧ (p, true) ∉ t.history.dying ∧ ∃ P, t.processes p = some P ∧ P.pid = pid := by
  have hcell : ∀ pid q, (pid, q) ∈ k.byPid → ∃ P, t.processes q = some P ∧ P.pid = pid :=
    fun pid q h => cell_of_pid hk hI hstep h
  cases hstep
  case list p P s l l' cell status spawning entering main current condition =>
    intro pid q hq
    have honce := hI.once p
    have hzero : k.all.count p = 0 := by
      have hpos : 0 < k.history.spawning.count p := by simp [spawning]
      unfold population at honce
      omega
    rcases List.mem_cons.mp hq with h | h
    · cases h
      refine ⟨by simp [Kernel.list], ?_, P, cell, rfl⟩
      intro hdying
      have hplaces : p ∈ places k := by
        simp only [places, List.mem_append, List.mem_map]
        exact Or.inl (Or.inl (Or.inr ⟨(p, true), hdying, rfl⟩))
      exact List.count_eq_zero.mp hzero (mem_all_of_places hI hplaces)
    · have hmem := (List.mem_filter.mp h).1
      obtain ⟨hall, hdying, -⟩ := hI.pids pid q hmem
      exact ⟨by simp [Kernel.list, hall], hdying, hcell pid q hmem⟩
  case unlist p P l cell dying =>
    intro pid q hq
    obtain ⟨hmem, hne⟩ := List.mem_filter.mp hq
    have hpids : pid ≠ P.pid := of_decide_eq_true hne
    obtain ⟨hall, hdying, Q, hQ, hpid⟩ := hI.pids pid q hmem
    refine ⟨hall, ?_, hcell pid q hmem⟩
    intro h
    rcases List.mem_cons.mp h with h | h
    · cases h
      rw [cell] at hQ
      cases hQ
      exact hpids hpid.symm
    · exact hdying (List.mem_of_mem_tail h)
  case delete k₀ p P l cell dying stack begun called leaving entering =>
    intro pid q hq
    obtain ⟨hall, hdying, -⟩ := hI.pids pid q hq
    have hqp : q ≠ p := by
      rintro rfl
      exact hdying (by simp [dying])
    exact ⟨(List.mem_erase_of_ne hqp).mpr hall, fun h => hdying (List.mem_of_mem_tail h),
      hcell pid q hq⟩
  case unlisted p l dying gone =>
    intro pid q hq
    obtain ⟨hall, hdying, -⟩ := hI.pids pid q hq
    exact ⟨hall, fun h => hdying (List.mem_of_mem_tail h), hcell pid q hq⟩
  case detach p P cell alive condition =>
    intro pid q hq
    obtain ⟨hall, hdying, -⟩ := hI.pids pid q hq
    refine ⟨hall, ?_, hcell pid q hq⟩
    intro h
    rcases List.mem_cons.mp h with h | h
    · cases h
    · exact hdying h
  case bury p P l cell settling dead condition =>
    intro pid q hq
    obtain ⟨hall, hdying, -⟩ := hI.pids pid q hq
    refine ⟨hall, ?_, hcell pid q hq⟩
    intro h
    rcases List.mem_cons.mp h with h | h
    · cases h
    · exact hdying h
  case machine moves =>
    intro pid q hq
    rw [moves.rest] at hq ⊢
    obtain ⟨hall, hdying, hcell⟩ := hI.pids pid q hq
    exact ⟨hall, hdying, hcell⟩
  all_goals
    intro pid q hq
    obtain ⟨hall, hdying, -⟩ := hI.pids pid q hq
    exact ⟨hall, hdying, hcell pid q hq⟩

/-! ## Statuses -/

/-- The statuses of a process that is listed and not torn down. -/
def RunsOrWaits (k : Kernel σ μ) (p : ℕ) (P : Process) : Prop :=
  P.status = .READY ∨ P.status = .SUSPENDED ∨ P.status = .RUNNING ∧ (p, true) ∈ k.history.quanta

/-- A process is changed and its status stays as it was, or one of those. -/
theorem status_update (hI : Listed k) {p : ℕ} {P P' : Process} (cell : k.processes p = some P)
    (hprocesses : t.processes = Function.update k.processes p (some P'))
    (hall : ∀ q, q ∈ t.all → q ∈ k.all)
    (hdying : ∀ q b, (q, b) ∈ k.history.dying → ∃ b, (q, b) ∈ t.history.dying)
    (hquanta : ∀ q, q ≠ p → (q, true) ∈ k.history.quanta → (q, true) ∈ t.history.quanta)
    (hstatus : p ∈ k.all → (∀ b, (p, b) ∉ t.history.dying) → RunsOrWaits k p P →
      RunsOrWaits t p P') :
    ∀ q Q, t.processes q = some Q → q ∈ t.all → (∀ b, (q, b) ∉ t.history.dying) →
      RunsOrWaits t q Q := by
  intro q Q hQ hq hnot
  have hnot' : ∀ b, (q, b) ∉ k.history.dying := by
    intro b hb
    obtain ⟨b', hb'⟩ := hdying q b hb
    exact hnot b' hb'
  rw [hprocesses] at hQ
  by_cases hqp : q = p
  · subst hqp
    obtain rfl : P' = Q := by simpa using hQ
    exact hstatus (hall q hq) hnot (hI.status q P cell (hall q hq) hnot')
  · rcases hI.status q Q (by simpa [hqp] using hQ) (hall q hq) hnot' with h | h | ⟨h, hmem⟩
    · exact Or.inl h
    · exact Or.inr (Or.inl h)
    · exact Or.inr (Or.inr ⟨h, hquanta q hqp hmem⟩)

theorem status_same (hI : Listed k) {p : ℕ} {P P' : Process} (cell : k.processes p = some P)
    (hprocesses : t.processes = Function.update k.processes p (some P'))
    (hall : t.all = k.all) (hdying : t.history.dying = k.history.dying)
    (hquanta : t.history.quanta = k.history.quanta) (hstatus : P'.status = P.status) :
    ∀ q Q, t.processes q = some Q → q ∈ t.all → (∀ b, (q, b) ∉ t.history.dying) →
      RunsOrWaits t q Q := by
  refine status_update hI cell hprocesses (fun q hq => hall ▸ hq)
    (fun q b hb => ⟨b, hdying ▸ hb⟩) (fun q _ hq => hquanta ▸ hq) ?_
  intro _ _ h
  unfold RunsOrWaits at h ⊢
  rw [hstatus, hquanta]
  exact h

theorem status_set (hI : Listed k) {p : ℕ} {P P' : Process} (cell : k.processes p = some P)
    (hprocesses : t.processes = Function.update k.processes p (some P'))
    (hall : t.all = k.all) (hdying : t.history.dying = k.history.dying)
    (hquanta : t.history.quanta = k.history.quanta)
    (hstatus : P'.status = .READY ∨ P'.status = .SUSPENDED) :
    ∀ q Q, t.processes q = some Q → q ∈ t.all → (∀ b, (q, b) ∉ t.history.dying) →
      RunsOrWaits t q Q := by
  refine status_update hI cell hprocesses (fun q hq => hall ▸ hq)
    (fun q b hb => ⟨b, hdying ▸ hb⟩) (fun q _ hq => hquanta ▸ hq) ?_
  intro _ _ _
  rcases hstatus with h | h
  · exact Or.inl h
  · exact Or.inr (Or.inl h)

theorem status_step (hbury : ∀ p k, ¬ C (.buries p) k)
    (hk : FramesInOrder k) (hI : Listed k) (hstep : KernelStep host C k t) :
    ∀ q Q, t.processes q = some Q → q ∈ t.all → (∀ b, (q, b) ∉ t.history.dying) →
      RunsOrWaits t q Q := by
  cases hstep
  case machine moves =>
    rw [moves.rest]
    exact hI.status
  case clock p P P' cell same =>
    exact status_same hI cell rfl rfl rfl rfl (by rw [same])
  case suspend p P cell condition =>
    exact status_set hI cell rfl rfl rfl rfl (Or.inr rfl)
  case wake p P cell condition =>
    refine status_update hI cell rfl (fun _ h => h) (fun _ b h => ⟨b, h⟩) (fun _ _ h => h) ?_
    rintro _ _ (h | h | h)
    · exact Or.inl (by simp [Process.wakeUp, h])
    · exact Or.inl (by simp [Process.wakeUp, h])
    · exact Or.inr (Or.inr ⟨by simp [Process.wakeUp, h.1], h.2⟩)
  case visit p P l pending cell alive current condition =>
    intro q Q hQ hq hdying
    rcases hI.status q Q hQ hq hdying with h | h | ⟨h, hmem⟩
    · exact Or.inl h
    · exact Or.inr (Or.inl h)
    · exact Or.inr (Or.inr ⟨h, List.mem_cons_of_mem _ hmem⟩)
  case visited k₀ p begun quantum _ active condition =>
    intro q Q hQ hq hdying
    rcases hI.status q Q hQ hq hdying with h | h | ⟨h, hmem⟩
    · exact Or.inl h
    · exact Or.inr (Or.inl h)
    · rw [quantum] at hmem
      rcases List.mem_cons.mp hmem with hmem | hmem
      · cases hmem
      · exact Or.inr (Or.inr ⟨h, by simpa [Kernel.endVisit, quantum] using hmem⟩)
  case running p P l cell quantum =>
    refine status_update hI (p := p) cell rfl (fun _ h => h) (fun _ b h => ⟨b, h⟩) ?_ ?_
    · intro q hqp hmem
      rw [quantum] at hmem
      rcases List.mem_cons.mp hmem with hmem | hmem
      · cases hmem
      · exact List.mem_cons_of_mem _ (by simpa [Kernel.setProcess, quantum] using hmem)
    · intro _ _ _
      exact Or.inr (Or.inr ⟨rfl, List.mem_cons_self⟩)
  case rested p P P' l cell quantum rests =>
    refine status_update hI (p := p) cell rfl (fun _ h => h) (fun _ b h => ⟨b, h⟩) ?_ ?_
    · intro q hqp hmem
      rw [quantum] at hmem
      rcases List.mem_cons.mp hmem with hmem | hmem
      · cases hmem
        exact absurd rfl hqp
      · exact List.mem_cons_of_mem _ (by simpa [Kernel.setProcess, quantum] using hmem)
    · rintro _ _ h
      rcases rests with rfl | rfl
      · exact Or.inl rfl
      · rcases h with h | h | ⟨h, -⟩
        · exact Or.inl (by simp [settleStatus, h])
        · exact Or.inr (Or.inl (by simp [settleStatus, h]))
        · exact Or.inl (by simp [settleStatus, h])
  case die p P l cell dying =>
    refine status_update hI cell rfl (fun _ h => h) (fun _ b h => ⟨b, h⟩) (fun _ _ h => h) ?_
    intro _ hnot
    exact absurd (by simp [Kernel.setProcess, dying]) (hnot false)
  case readied p P l cell spawning =>
    exact status_set hI cell rfl rfl rfl rfl (Or.inl rfl)
  case awake k₀ p i P cell here alive timer begun since =>
    exact status_set hI (p := p) cell rfl rfl rfl rfl (Or.inl rfl)
  case resume p P cell status condition =>
    exact status_set hI (p := p) cell rfl rfl rfl rfl (Or.inl rfl)
  case bury p P l cell settling dead condition => exact absurd condition (hbury p k)
  case detach p P cell alive condition =>
    intro q Q hQ hq hdying
    exact hI.status q Q hQ hq fun b hb => hdying b (List.mem_cons_of_mem _ hb)
  case unlist p P l cell dying =>
    intro q Q hQ hq hdying
    refine hI.status q Q hQ hq ?_
    intro b hb
    rw [dying] at hb
    rcases List.mem_cons.mp hb with hb | hb
    · cases hb
      exact hdying true List.mem_cons_self
    · exact hdying b (List.mem_cons_of_mem _ (by simpa [dying] using hb))
  case delete k₀ p P l cell dying stack begun called leaving entering =>
    intro q Q hQ hq hdying
    have hqp : q ≠ p := by
      rintro rfl
      simp [Kernel.delete, Kernel.setProcess] at hQ
    refine hI.status q Q (by simpa [Kernel.delete, Kernel.setProcess, hqp] using hQ)
      (List.mem_of_mem_erase hq) ?_
    intro b hb
    rw [dying] at hb
    rcases List.mem_cons.mp hb with hb | hb
    · cases hb
      exact hqp rfl
    · exact hdying b (by simpa [Kernel.delete, dying] using hb)
  case unlisted p l dying gone =>
    have hplaces : p ∈ places k := by
      simp only [places, List.mem_append, List.mem_map]
      exact Or.inl (Or.inl (Or.inr ⟨(p, true), by simp [dying], rfl⟩))
    exact absurd (mem_all_of_places hI hplaces) gone
  case create name script s pid entry state =>
    intro q Q hQ hq hdying
    have hqn : q ≠ k.processCount := by
      rintro rfl
      have hpos : 0 < population k k.processCount := by
        have hcount := List.count_pos_iff.mpr hq
        unfold population
        simp only [Kernel.withProcess, Kernel.setProcess] at hcount
        omega
      rw [population_fresh hk hI] at hpos
      exact absurd hpos (Nat.lt_irrefl 0)
    exact hI.status q Q (by simpa [Kernel.withProcess, Kernel.setProcess, hqn] using hQ) hq hdying
  case list p P s l l' cell status spawning entering main current condition =>
    intro q Q hQ hq hdying
    rcases List.mem_append.mp hq with hq | hq
    · exact hI.status q Q hQ hq hdying
    · obtain rfl : q = p := by simpa using hq
      obtain rfl : P = Q := by simpa [Kernel.list, cell] using hQ
      exact Or.inl status
  case pop p f P rest cell _ _ => exact status_same hI (p := p) cell rfl rfl rfl rfl rfl
  case push p P s cell _ _ _ _ _ => exact status_same hI (p := p) cell rfl rfl rfl rfl rfl
  case switch p P s l cell _ _ => exact status_same hI cell rfl rfl rfl rfl rfl
  case main p P s l main cell _ _ => exact status_same hI cell rfl rfl rfl rfl rfl
  case clearPending p P s l cell _ => exact status_same hI cell rfl rfl rfl rfl rfl
  case defer p P s cell _ _ => exact status_same hI (p := p) cell rfl rfl rfl rfl rfl
  case parks p P l cell _ _ _ => exact status_same hI cell rfl rfl rfl rfl rfl
  case child p c P cs l cell _ _ => exact status_same hI cell rfl rfl rfl rfl rfl
  all_goals exact hI.status

/-! ## Runs -/

theorem listed_initial (memory : μ) : Listed (Kernel.initial memory : Kernel σ μ) where
  placed := fun _ => rfl
  once := fun _ => Nat.zero_le 1
  cells := fun p => by simp [Kernel.initial, population, History.empty]
  used := fun p h => by simp [Kernel.initial, History.empty] at h
  current := fun _ h => by cases h
  children := fun _ _ h => by cases h
  pids := fun _ _ h => by cases h
  status := fun _ _ h => by cases h

theorem listed_step (hC : ∀ a k, C a k → OrderlyKills a k) (hbury : ∀ p k, ¬ C (.buries p) k)
    (hk : FramesInOrder k) (hI : Listed k) (hstep : KernelStep host C k t) : Listed t where
  placed := placed_step hC hbury hI hstep
  once := (cells_step hk hI hstep).1
  cells := (cells_step hk hI hstep).2.1
  used := used_step hC hbury hI hstep
  current := inQuantum_step hI hstep
  children := (cells_step hk hI hstep).2.2
  pids := pids_step hk hI hstep
  status := status_step hbury hk hI hstep

theorem there_of_mem_all (hI : Listed k) {p : ℕ} (h : p ∈ k.all) : k.processes p ≠ none := by
  refine (hI.cells p).mpr ?_
  have hpos := List.count_pos_iff.mpr h
  unfold population
  omega

theorem there_of_inUse (hI : Listed k) {p : ℕ} (h : InUse k p) : k.processes p ≠ none := by
  have hplace : p ∈ places k → k.processes p ≠ none :=
    fun h => there_of_mem_all hI (mem_all_of_places hI h)
  simp only [places, List.mem_append, List.mem_map] at hplace
  rcases h with h | ⟨b, h⟩ | h | h | ⟨b, h⟩ | h
  · exact hplace (Or.inl (Or.inl (Or.inl (Or.inl (Or.inl h)))))
  · exact hplace (Or.inl (Or.inl (Or.inl (Or.inl (Or.inr ⟨_, h, rfl⟩)))))
  · exact hplace (Or.inl (Or.inl (Or.inl (Or.inr h))))
  · refine (hI.cells p).mpr ?_
    have hpos := List.count_pos_iff.mpr h
    unfold population
    omega
  · exact hplace (Or.inl (Or.inl (Or.inr ⟨_, h, rfl⟩)))
  · exact (hI.cells p).mpr (hI.used p h)

/-- A process that is known is there: nothing is used after it was deleted. -/
theorem there_of_known (hI : Listed k) {p : ℕ} (h : Known k p) : k.processes p ≠ none := by
  rcases h with h | h | h | ⟨pid, h⟩ | h | ⟨q, Q, hQ, h⟩
  · exact there_of_inUse hI h
  · exact there_of_mem_all hI h
  · exact there_of_mem_all hI (mem_all_of_places hI (by simp [places, h]))
  · exact there_of_mem_all hI (hI.pids pid p h).1
  · refine there_of_inUse hI ?_
    rcases hI.current p h with h | h
    · exact Or.inr (Or.inr (Or.inr (Or.inl h)))
    · exact Or.inr (Or.inl h)
  · rw [hI.children q Q hQ] at h
    cases h

/-! ## Between the calls of the host -/

theorem listed_upholds (host : KernelHost σ μ) :
    Upholds host OrderlyKills (fun a _ => ∀ p, a ≠ .buries p) (fun e => e ≠ .freedProcess)
      (Listed (σ := σ) (μ := μ)) where
  step := fun k t hk hI hstep =>
    listed_step (fun _ _ h => h.1) (fun p _ h => h.2 p rfl) hk hI hstep
  enters := fun _ _ hI _ => Or.inl { hI with }
  promise := by
    rintro k a hI hat - p rfl
    obtain ⟨P, l, cell, dead, settling⟩ := hat
    have hpos : 0 < k.history.settling.count p := by simp [settling]
    have hall : p ∈ k.all := mem_all_of_places hI (by simp [places, settling])
    rw [not_dead_of_listed hI cell hall (not_dying_of_count hI (by omega))] at dead
    cases dead
  known := fun k p hI known hnone => absurd hnone (there_of_known hI known)
  freedFrame := by simp
  undefined := by simp
  escaped := by simp
  outOfFuel := by simp

theorem rests_of_listed {memory : μ} (hI : Listed k) (hb : Balanced (Kernel.initial memory) k) :
    Rests k := by
  have hspawning : k.history.spawning = [] := hb.spawning
  have hquanta : k.history.quanta = [] := hb.quanta
  have hdying : k.history.dying = [] := hb.dying
  have hpopulation : ∀ p, population k p = k.all.count p := by
    intro p
    rw [population, hspawning, List.count_nil, Nat.add_zero]
  have hplaces : places k = k.ready ++ k.suspended := by
    rw [places, hb.pending, hb.settling, hquanta, hdying]
    rfl
  have hthere : ∀ p, k.processes p ≠ none ↔ p ∈ k.all := by
    intro p
    rw [hI.cells, hpopulation, List.count_pos_iff]
  refine ⟨?_, hthere, ?_, ?_, ?_, currentProcess_of_balanced hb rfl⟩
  · rw [List.nodup_iff_count_le_one]
    intro p
    rw [← hpopulation]
    exact hI.once p
  · rw [List.perm_iff_count]
    intro p
    rw [hI.placed, hplaces]
  · intro p hp
    obtain ⟨P, cell⟩ := Option.ne_none_iff_exists'.mp ((hthere p).mpr hp)
    rcases hI.status p P cell hp (by simp [hdying]) with h | h | ⟨-, h⟩
    · exact ⟨P, cell, Or.inl h⟩
    · exact ⟨P, cell, Or.inr h⟩
    · simp [hquanta] at h
  · intro pid p h
    obtain ⟨hall, -, hcell⟩ := hI.pids pid p h
    exact ⟨hall, hcell⟩

/-- In a run that kills no process an active call uses and resumes only suspended ones, whatever
else scripts and natives do, no deleted process is used, but for the pid of a killed one that
`kill_recursive` reads for its log line (the step `reads`, which does not stop a run); and where it
ends without an error, each process that is there is in `m_all` once and in one of the two lists
once, ready or suspended, and a pid leads to such a process.
SRCLINE: Scheduler.cpp:32-250, Process.hpp:174-191 -/
theorem hostRun_rests (host : KernelHost σ μ) (fuel : ℕ) (calls : List KernelCall) (memory : μ)
    (hsteps : ∀ step ∈ (hostRun host fuel calls (Kernel.initial memory)).steps,
      OrderlyKills step.1 step.2) :
    (hostRun host fuel calls (Kernel.initial memory)).result ≠ .error .freedProcess ∧
    ((hostRun host fuel calls (Kernel.initial memory)).result = .ok () →
      Rests (hostRun host fuel calls (Kernel.initial memory)).state) := by
  have hmeets : Recording.Meets OrderlyKills _ _ (hostRun host fuel calls)
      (Kernel.initial memory) _ :=
    hostRun_meets (listed_upholds host) calls
      ⟨listed_initial memory, framesInOrder_initial memory⟩ rfl
  refine ⟨?_, ?_⟩
  · intro hfreed
    have hend := (hmeets hsteps).2
    rw [hfreed] at hend
    exact hend rfl
  · intro hok
    obtain ⟨⟨hI, -⟩, hb⟩ := hmeets.result hsteps hok
    exact rests_of_listed hI hb

/-- INTERNAL: two processes that sleep and wake each other up, and one of them killed. -/
theorem hostRun_rests_killed :
    (hostRun (scriptHost twoScripts fun _ => [.currentPid, .yield, .sleep 1]) 20
      [.spawn 1 [], .spawn 2 [], .tick, .tick, .kill 1, .tick]
      (Kernel.initial ())).state.all = [1] ∧
    Rests (hostRun (scriptHost twoScripts fun _ => [.currentPid, .yield, .sleep 1]) 20
      [.spawn 1 [], .spawn 2 [], .tick, .tick, .kill 1, .tick] (Kernel.initial ())).state :=
  ⟨by decide +kernel, (hostRun_rests _ 20 _ () (by decide +kernel)).2 (by decide +kernel)⟩

end Soot.Analysis
