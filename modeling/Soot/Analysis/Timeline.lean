import Soot.Model.Timeline

/-!
# Tracks keep their timelines in clean runs

What the two loops over the lambdas of a track add to its runs is stated first, each by induction
over the list of lambdas. A tick of one track then has three cases: its main lambdas are yet to
begin, the last of them is parked, or all have ended.
-/

set_option autoImplicit false

namespace Soot.Analysis

open Soot.Program Soot.Model

variable {ms : List Lambda}

variable {s : TrackSource} {script : ℕ → Execution}

/-! ## The loops over the lambdas -/

/-- The beginnings of the main lambdas from an index on. -/
def beginnings (script : ℕ → Execution) (time : Word) : ℕ → List Lambda → List LambdaRun
  | _, [] => []
  | j, _ :: ms => ⟨j, time, false, (script j).parks⟩ :: beginnings script time (j + 1) ms

/-- The compiled main lambdas. -/
def mainLambdas (ms : List Lambda) : List TrackLambda :=
  ms.map fun l => ⟨some l, FRAME_SENTINEL_MAIN⟩

/-- The compiled frame lambdas. -/
def frameLambdas (fs : List (Lambda × Word)) : List TrackLambda :=
  fs.map fun (l, frame) => ⟨some l, frame⟩

theorem startMains_frames {fs : List (Lambda × Word)} (hfs : ∀ f ∈ fs, f.2 ≠ FRAME_SENTINEL_MAIN)
    (j : ℕ) (l : Lane) (y : Bool) :
    l.startMains script j (frameLambdas fs) y = (l, y, false) := by
  cases fs with
  | nil => rfl
  | cons f fs =>
    change Lane.startMains script j (⟨some f.1, f.2⟩ :: frameLambdas fs) l y = _
    rw [Lane.startMains, if_pos (hfs f List.mem_cons_self)]

theorem startMains_mains {fs : List (Lambda × Word)} (hfs : ∀ f ∈ fs, f.2 ≠ FRAME_SENTINEL_MAIN)
    {j m : ℕ} (hm : j + ms.length = m) (hne : ms ≠ [])
    (hraised : ∀ i, i < m → (script i).raises = true → (script i).parks = true)
    (hparked : ∀ i, i + 1 < m → (script i).parks = false) {l : Lane}
    (hnone : l.frame.mainFrame = none) :
    l.startMains script j (mainLambdas ms ++ frameLambdas fs) false =
      if (script (m - 1)).parks then
        ({ l with
          frame := { l.frame with mainFrame := some (m - 1), mainStarted := true }
          runs := l.runs ++ beginnings script l.frame.time j ms }, true, true)
      else ({ l with runs := l.runs ++ beginnings script l.frame.time j ms }, false, false) := by
  induction ms generalizing j l with
  | nil => exact absurd rfl hne
  | cons lambda ms ih =>
    rw [List.length_cons] at hm
    have hraises : (script j).parks = false → (script j).raises = false := by
      intro hp
      cases hr : (script j).raises with
      | false => rfl
      | true => rw [hraised j (by omega) hr] at hp; cases hp
    change Lane.startMains script j
      (⟨some lambda, FRAME_SENTINEL_MAIN⟩ :: (mainLambdas ms ++ frameLambdas fs)) l false = _
    rw [Lane.startMains, if_neg (by simp), if_neg (by simp)]
    simp only [Lane.execute, Bool.false_or]
    cases ms with
    | nil =>
      rw [List.length_nil] at hm
      obtain rfl : m - 1 = j := by omega
      cases hp : (script (m - 1)).parks with
      | true => simp [beginnings, hp]
      | false =>
        simp only [hraises hp, Bool.or_false, Bool.false_eq_true, if_false]
        rw [show mainLambdas [] ++ frameLambdas fs = frameLambdas fs from rfl,
          startMains_frames hfs]
        simp [beginnings, hp, ← hnone]
    | cons next ms =>
      have hp := hparked j (by simp only [List.length_cons] at hm; omega)
      simp only [hp, hraises hp, Bool.or_false, Bool.false_eq_true, if_false]
      rw [ih (by omega) (List.cons_ne_nil _ _) rfl]
      simp only [beginnings, hp, List.append_assoc, List.singleton_append]
      cases (script (m - 1)).parks <;> simp [← hnone]

theorem runFrameLambdas_frames (script : ℕ → Execution) {fs : List (Lambda × Word)}
    (hfs : ∀ f ∈ fs, f.2 ≠ FRAME_SENTINEL_MAIN) (j : ℕ) (l : Lane) (y : Bool) :
    ∃ new : List LambdaRun,
      (l.runFrameLambdas script j (frameLambdas fs) y).1 = { l with runs := l.runs ++ new } ∧
      (∀ r ∈ new, j ≤ r.index ∧ r.time = l.frame.time ∧ r.resumed = false) ∧
      ∀ k, ∀ f ∈ fs[k]?, new.countP (·.index = j + k) = if f.2 = l.frame.time then 1 else 0 := by
  induction fs generalizing j l y with
  | nil => exact ⟨[], by simp [frameLambdas, Lane.runFrameLambdas], by simp, by simp⟩
  | cons g fs ih =>
    have htail : ∀ f ∈ fs, f.2 ≠ FRAME_SENTINEL_MAIN := fun f hf => hfs f (.tail _ hf)
    change ∃ new, (Lane.runFrameLambdas script j (⟨some g.1, g.2⟩ :: frameLambdas fs) l y).1 = _ ∧ _
    rw [Lane.runFrameLambdas]
    by_cases hg : g.2 = l.frame.time
    · obtain ⟨new, hrun, hnew, hcount⟩ := ih htail (j + 1) (l.execute script j false y).1 false
      refine ⟨⟨j, l.frame.time, false, (script j).parks⟩ :: new, ?_, ?_, ?_⟩
      · have hframe := hfs g List.mem_cons_self
        rw [hg] at hframe
        rw [if_neg (by simp [hg, hframe]), hrun]
        simp [Lane.execute]
      · intro r hr
        obtain rfl | hr := List.mem_cons.mp hr
        · exact ⟨le_refl _, rfl, rfl⟩
        · obtain ⟨hindex, htime, hresumed⟩ := hnew r hr
          exact ⟨by omega, htime, hresumed⟩
      · intro k f hf
        cases k with
        | zero =>
          obtain rfl : g = f := by simpa using hf
          have hrest : new.countP (·.index = j) = 0 := by
            rw [List.countP_eq_zero]
            intro r hr
            have hindex := (hnew r hr).1
            simp only [decide_eq_true_eq]
            omega
          simp [hrest, hg]
        | succ k =>
          have hk := hcount k f (by simpa using hf)
          rw [List.countP_cons_of_neg (by simp), show j + (k + 1) = j + 1 + k by omega, hk]
          rfl
    · obtain ⟨new, hrun, hnew, hcount⟩ := ih htail (j + 1) l y
      refine ⟨new, ?_, ?_, ?_⟩
      · rw [if_pos (.inr (.inl hg)), hrun]
      · intro r hr
        obtain ⟨hindex, htime, hresumed⟩ := hnew r hr
        exact ⟨by omega, htime, hresumed⟩
      · intro k f hf
        cases k with
        | zero =>
          obtain rfl : g = f := by simpa using hf
          rw [if_neg hg, List.countP_eq_zero]
          intro r hr
          have hindex := (hnew r hr).1
          simp only [decide_eq_true_eq]
          omega
        | succ k =>
          have hk := hcount k f (by simpa using hf)
          rw [show j + (k + 1) = j + 1 + k by omega]
          exact hk

theorem runFrameLambdas_mains (ms : List Lambda) (sls : List TrackLambda) (j : ℕ) (l : Lane)
    (y : Bool) : l.runFrameLambdas script j (mainLambdas ms ++ sls) y =
      l.runFrameLambdas script (j + ms.length) sls y := by
  induction ms generalizing j with
  | nil => rfl
  | cons m ms ih =>
    change Lane.runFrameLambdas script j
      (⟨some m, FRAME_SENTINEL_MAIN⟩ :: (mainLambdas ms ++ sls)) l y = _
    rw [Lane.runFrameLambdas, if_pos (.inl rfl), ih, List.length_cons]
    congr 1
    omega

/-! ## The beginnings -/

theorem beginnings_index {time : Word} {j : ℕ} {r : LambdaRun}
    (hr : r ∈ beginnings script time j ms) : j ≤ r.index ∧ r.index < j + ms.length := by
  induction ms generalizing j with
  | nil => cases hr
  | cons m ms ih =>
    rw [List.length_cons]
    obtain rfl | hr := List.mem_cons.mp hr
    · exact ⟨le_refl _, by simp⟩
    · have hrest := ih hr
      omega

theorem beginnings_chain (time : Word) {j m : ℕ} (hm : j + ms.length = m)
    (hparked : ∀ i, i + 1 < m → (script i).parks = false) :
    (beginnings script time j ms).IsChain NextMain := by
  induction ms generalizing j with
  | nil => exact .nil
  | cons a ms ih =>
    rw [List.length_cons] at hm
    cases ms with
    | nil => exact .singleton _
    | cons b ms =>
      have hp := hparked j (by simp only [List.length_cons] at hm; omega)
      refine .cons_cons ?_ (ih (by omega))
      simp [NextMain, hp]

theorem beginnings_last (script : ℕ → Execution) (time : Word) {j m : ℕ}
    (hm : j + ms.length = m) (hne : ms ≠ []) : (beginnings script time j ms).getLast? =
      some ⟨m - 1, time, false, (script (m - 1)).parks⟩ := by
  induction ms generalizing j with
  | nil => exact absurd rfl hne
  | cons a ms ih =>
    rw [List.length_cons] at hm
    cases ms with
    | nil =>
      rw [List.length_nil] at hm
      obtain rfl : m - 1 = j := by omega
      rfl
    | cons b ms =>
      have hrest := ih (j := j + 1) (by omega) (List.cons_ne_nil _ _)
      rw [beginnings, List.getLast?_cons, hrest]
      rfl

theorem beginnings_parked (time : Word) {j m : ℕ} (hm : j + ms.length = m)
    (hne : ms ≠ []) (hparked : ∀ i, i + 1 < m → (script i).parks = false) :
    (beginnings script time j ms).countP (·.parks) = if (script (m - 1)).parks then 1 else 0 := by
  induction ms generalizing j with
  | nil => exact absurd rfl hne
  | cons a ms ih =>
    rw [List.length_cons] at hm
    cases ms with
    | nil =>
      rw [List.length_nil] at hm
      obtain rfl : m - 1 = j := by omega
      simp [beginnings, List.countP_cons]
    | cons b ms =>
      have hp := hparked j (by simp only [List.length_cons] at hm; omega)
      rw [beginnings, List.countP_cons_of_neg (by simp [hp])]
      exact ih (by omega) (List.cons_ne_nil _ _)

/-! ## A tick of a track -/

theorem counted_data (hplain : s.Plain) : s.data.counted = mainLambdas s.mains ++
    frameLambdas s.frames := by
  have hlength : (BitVec.ofNat 16 s.data.lambdas.length).toInt.toNat = s.data.lambdas.length := by
    have hsmall := hplain.2
    rw [BitVec.toInt_eq_toNat_cond, BitVec.toNat_ofNat, Nat.mod_eq_of_lt (by omega),
      if_pos (by omega)]
    rfl
  rw [TrackData.counted, hlength, List.take_length]
  rfl

/-- What holds of a track between two ticks, after some number of ticks of the state. -/
structure LaneFits (s : TrackSource) (n : ℕ) (l : Lane) : Prop where
  track : l.frame.track = s.data
  time_le : l.frame.time.toNat ≤ n
  keeps : KeepsTimeline s l
  fresh : l.frame.mainStarted = false →
    l.frame.mainFrame = none ∧ l.frame.time = 0 ∧ l.runs = []
  parked : ∀ j ∈ l.frame.mainFrame, j + 1 = s.mains.length ∧ l.frame.time = 0 ∧
    ∃ r ∈ (mainRuns s l).getLast?, r.index = j ∧ r.parks = true
  done : l.frame.mainStarted = true → l.frame.mainFrame = none →
    ∀ j, j + 1 = s.mains.length → ∃ r ∈ (mainRuns s l).getLast?, r.index = j ∧ r.parks = false

/-- What holds of a track in a tick once its main lambdas have ended. -/
structure MainsEnded (s : TrackSource) (n : ℕ) (l : Lane) : Prop where
  track : l.frame.track = s.data
  time_le : l.frame.time.toNat ≤ n
  started : l.frame.mainStarted = true
  mainFrame : l.frame.mainFrame = none
  first : ∀ r ∈ (mainRuns s l).head?, r.index = 0 ∧ r.resumed = false
  next : (mainRuns s l).IsChain NextMain
  done : ∀ j, j + 1 = s.mains.length →
    ∃ r ∈ (mainRuns s l).getLast?, r.index = j ∧ r.parks = false
  clock : l.frame.time.toNat + (mainRuns s l).countP (·.parks) + 1 = l.ticks
  once : ∀ k, ∀ f ∈ s.frames[k]?,
    l.runs.countP (·.index = s.mains.length + k) =
      if f.2.toNat < l.frame.time.toNat then 1 else 0
  onTime : ∀ k, ∀ f ∈ s.frames[k]?, ∀ r ∈ l.runs, r.index = s.mains.length + k →
    r.time = f.2 ∧ r.resumed = false

theorem advance_fits {n : ℕ} {l : Lane} (hplain : s.Plain) (h : MainsEnded s n l)
    (hn : n + 1 < 2 ^ 64) (y : Bool) :
    LaneFits s (n + 1) (let l' := (l.runFrameLambdas script 0 l.frame.track.counted y).1
      { l' with frame := { l'.frame with time := l'.frame.time + 1 } }) := by
  rw [h.track, counted_data hplain, runFrameLambdas_mains, Nat.zero_add]
  obtain ⟨new, hrun, hnew, hcount⟩ :=
    runFrameLambdas_frames script hplain.1 s.mains.length l y
  simp only [hrun]
  have htime : (l.frame.time + 1).toNat = l.frame.time.toNat + 1 := by
    have hle := h.time_le
    rw [BitVec.toNat_add, show (1 : Word).toNat = 1 from rfl]
    exact Nat.mod_eq_of_lt (by omega)
  have hmains : ∀ frame : TrackFrame, mainRuns s ⟨frame, l.ticks, l.runs ++ new⟩ =
      mainRuns s l := by
    intro frame
    have hnone : new.filter (·.index < s.mains.length) = [] := by
      apply List.filter_eq_nil_iff.mpr
      intro r hr
      have hindex := (hnew r hr).1
      simp only [decide_eq_true_eq]
      omega
    rw [mainRuns, mainRuns, List.filter_append, hnone, List.append_nil]
  constructor
  · exact h.track
  · have hle := h.time_le
    change (l.frame.time + 1).toNat ≤ n + 1
    omega
  · constructor
    · rw [hmains]
      exact h.first
    · rw [hmains]
      exact h.next
    · intro _
      rw [hmains]
      exact h.done
    · intro _
      rw [hmains]
      change (l.frame.time + 1).toNat + _ = l.ticks
      have hclock := h.clock
      omega
    · intro k f hf
      change (l.runs ++ new).countP _ = if f.2.toNat < (l.frame.time + 1).toNat then 1 else 0
      rw [List.countP_append, h.once k f hf, hcount k f hf, htime]
      by_cases heq : f.2 = l.frame.time
      · rw [if_pos heq, heq, if_neg (by omega), if_pos (by omega)]
      · have hne : f.2.toNat ≠ l.frame.time.toNat := fun h => heq (BitVec.eq_of_toNat_eq h)
        rw [if_neg heq, Nat.add_zero]
        by_cases hlt : f.2.toNat < l.frame.time.toNat
        · rw [if_pos hlt, if_pos (by omega)]
        · rw [if_neg hlt, if_neg (by omega)]
    · intro k f hf r hr hindex
      obtain hr | hr := List.mem_append.mp hr
      · exact h.onTime k f hf r hr hindex
      · obtain ⟨-, hrtime, hresumed⟩ := hnew r hr
        refine ⟨?_, hresumed⟩
        by_contra hne
        have hzero := hcount k f hf
        rw [if_neg (fun heq => hne (hrtime.trans heq.symm)), List.countP_eq_zero] at hzero
        exact hzero r hr (by simp [hindex])
  · intro hstarted
    rw [h.started] at hstarted
    cases hstarted
  · intro j hj
    rw [h.mainFrame] at hj
    cases hj
  · intro _ _
    rw [hmains]
    exact h.done

/-- What is asked of the runs of the main lambdas of a track. -/
structure CleanMains (s : TrackSource) (script : ℕ → Execution) : Prop where
  raised : ∀ j, j < s.mains.length → (script j).raises = true → (script j).parks = true
  parked : ∀ j, j + 1 < s.mains.length → (script j).parks = false

/-- The first half of a tick has ended: with a parked main lambda, or with none. -/
def MainHalf (s : TrackSource) (n : ℕ) (result : Lane × Bool × Bool) : Prop :=
  if result.2.2 then LaneFits s (n + 1) result.1 else MainsEnded s n result.1

theorem begin_half {n : ℕ} {l : Lane} (hplain : s.Plain) (hne : s.data.lambdas ≠ [])
    (hclean : CleanMains s script) (h : LaneFits s n l) {y : Bool}
    (hy : y = true → MainsDone s l) (hstarted : l.frame.mainStarted = false) :
    MainHalf s n (Lane.tickMain script { l with ticks := l.ticks + 1 } y) := by
  obtain ⟨hnone, htime, hruns⟩ := h.fresh hstarted
  have hclock := h.keeps.clock hne
  have hempty : mainRuns s l = [] := by rw [mainRuns, hruns]; rfl
  have hticks : l.ticks = 0 := by
    rw [hempty, htime] at hclock
    exact hclock.symm
  simp only [Lane.tickMain, hstarted, Bool.not_false, if_true, h.track, counted_data hplain]
  by_cases hmains : s.mains = []
  · rw [hmains]
    change MainHalf s n (let r := Lane.startMains script 0 (frameLambdas s.frames) _ y
      ({ r.1 with frame := { r.1.frame with mainStarted := true } }, r.2.1, r.2.2))
    rw [startMains_frames hplain.1]
    have hlast : ∀ j, j + 1 ≠ s.mains.length := by
      intro j
      rw [hmains]
      exact Nat.succ_ne_zero j
    refine ⟨h.track, h.time_le, rfl, hnone, h.keeps.first, h.keeps.next, ?_, ?_, h.keeps.once,
      h.keeps.onTime⟩
    · intro j hj
      exact absurd hj (hlast j)
    · change l.frame.time.toNat + (mainRuns s l).countP _ + 1 = l.ticks + 1
      rw [hclock]
  · obtain rfl : y = false := by
      cases y with
      | false => rfl
      | true =>
        obtain hdone | hdone := hy rfl
        · exact absurd hdone hmains
        · rw [hstarted] at hdone
          cases hdone.1
    rw [startMains_mains (l := { l with ticks := l.ticks + 1 }) (m := s.mains.length) hplain.1
      (Nat.zero_add _) hmains hclean.raised hclean.parked hnone]
    have hpos := List.length_pos_iff.mpr hmains
    -- the runs so far are the beginnings of the main lambdas
    have hnew : ∀ frame ticks, mainRuns s ⟨frame, ticks,
        l.runs ++ beginnings script l.frame.time 0 s.mains⟩ =
          beginnings script l.frame.time 0 s.mains := by
      intro frame ticks
      rw [mainRuns, hruns, List.nil_append, List.filter_eq_self]
      intro r hr
      have hindex := (beginnings_index hr).2
      simp only [decide_eq_true_eq]
      omega
    have hfirst : ∀ r ∈ (beginnings script l.frame.time 0 s.mains).head?,
        r.index = 0 ∧ r.resumed = false := by
      intro r hr
      cases hms : s.mains with
      | nil => exact absurd hms hmains
      | cons a ms =>
        rw [hms] at hr
        cases hr
        exact ⟨rfl, rfl⟩
    have hnext := beginnings_chain l.frame.time (Nat.zero_add _) hclean.parked
    have hlast := beginnings_last script l.frame.time (Nat.zero_add _) hmains
    have hcount := beginnings_parked l.frame.time (Nat.zero_add _) hmains hclean.parked
    have honce : ∀ k, ∀ f ∈ s.frames[k]?,
        (l.runs ++ beginnings script l.frame.time 0 s.mains).countP
          (·.index = s.mains.length + k) = if f.2.toNat < l.frame.time.toNat then 1 else 0 := by
      intro k f _
      have hearly : ¬f.2.toNat < l.frame.time.toNat := by
        rw [htime]
        exact Nat.not_lt_zero _
      rw [if_neg hearly, List.countP_eq_zero, hruns, List.nil_append]
      intro r hr
      have hindex := (beginnings_index hr).2
      simp only [decide_eq_true_eq]
      omega
    have honTime : ∀ k, ∀ f ∈ s.frames[k]?,
        ∀ r ∈ l.runs ++ beginnings script l.frame.time 0 s.mains,
          r.index = s.mains.length + k → r.time = f.2 ∧ r.resumed = false := by
      intro k f _ r hr hindex
      rw [hruns, List.nil_append] at hr
      have hlt := (beginnings_index hr).2
      omega
    cases hp : (script (s.mains.length - 1)).parks with
    | true =>
      rw [hp] at hlast hcount
      simp only [if_true]
      refine ⟨h.track, Nat.le_succ_of_le h.time_le, ⟨?_, ?_, ?_, ?_, honce, honTime⟩, nofun, ?_,
        nofun⟩
      · rw [hnew]
        exact hfirst
      · rw [hnew]
        exact hnext
      · intro hadvanced
        rw [show l.frame.time = 0 from htime] at hadvanced
        exact absurd hadvanced (Nat.lt_irrefl 0)
      · intro _
        rw [hnew, hcount, hticks]
        change l.frame.time.toNat + 1 = _
        rw [htime]
        rfl
      · intro j hj
        obtain rfl := Option.some.inj hj
        rw [hnew, hlast]
        exact ⟨by omega, htime, _, rfl, rfl, rfl⟩
    | false =>
      rw [hp] at hlast hcount
      simp only [Bool.false_eq_true, if_false]
      refine ⟨h.track, h.time_le, rfl, hnone, ?_, ?_, ?_, ?_, honce, honTime⟩
      · rw [hnew]
        exact hfirst
      · rw [hnew]
        exact hnext
      · intro j hj
        rw [hnew, hlast]
        exact ⟨_, rfl, by change s.mains.length - 1 = j; omega, rfl⟩
      · rw [hnew, hcount, hticks]
        change l.frame.time.toNat + 0 + 1 = _
        rw [htime]
        rfl

theorem resume_half {n j : ℕ} {l : Lane} (hne : s.data.lambdas ≠ [])
    (hclean : CleanMains s script) (h : LaneFits s n l)
    (hstarted : l.frame.mainStarted = true) (hparked : l.frame.mainFrame = some j) :
    MainHalf s n (Lane.tickMain script { l with ticks := l.ticks + 1 } false) := by
  obtain ⟨hj, htime, last, hlast, hindex, hparks⟩ := h.parked j hparked
  have hclock := h.keeps.clock hne
  simp only [Lane.tickMain, hstarted, Bool.not_true, Bool.false_eq_true, if_false, hparked,
    Lane.execute, Bool.false_or]
  have hnew : ∀ frame ticks, mainRuns s ⟨frame, ticks,
      l.runs ++ [LambdaRun.mk j l.frame.time true (script j).parks]⟩ =
        mainRuns s l ++ [LambdaRun.mk j l.frame.time true (script j).parks] := by
    intro frame ticks
    rw [mainRuns, mainRuns, List.filter_append, List.filter_cons_of_pos (by simp; omega),
      List.filter_nil]
  have hfirst : ∀ r ∈ (mainRuns s l ++ [LambdaRun.mk j l.frame.time true (script j).parks]).head?,
      r.index = 0 ∧ r.resumed = false := by
    intro r hr
    cases hruns : mainRuns s l with
    | nil =>
      rw [hruns] at hlast
      cases hlast
    | cons a rs =>
      rw [hruns] at hr
      apply h.keeps.first r
      rw [hruns]
      exact hr
  have hnext : (mainRuns s l ++ [LambdaRun.mk j l.frame.time true (script j).parks]).IsChain
      NextMain := by
    refine h.keeps.next.append (.singleton _) ?_
    intro a ha b hb
    obtain rfl : last = a := Option.some.inj (Option.mem_def.mp hlast ▸ Option.mem_def.mp ha)
    obtain rfl := Option.some.inj hb
    rw [NextMain, if_pos hparks]
    exact ⟨hindex.symm, rfl⟩
  have honce : ∀ k, ∀ f ∈ s.frames[k]?,
      (l.runs ++ [LambdaRun.mk j l.frame.time true (script j).parks]).countP
        (·.index = s.mains.length + k) = if f.2.toNat < l.frame.time.toNat then 1 else 0 := by
    intro k f hf
    have hother : ¬j = s.mains.length + k := by omega
    rw [List.countP_append, List.countP_cons_of_neg (by simpa using hother), List.countP_nil,
      Nat.add_zero, h.keeps.once k f hf]
  have honTime : ∀ k, ∀ f ∈ s.frames[k]?,
      ∀ r ∈ l.runs ++ [LambdaRun.mk j l.frame.time true (script j).parks],
        r.index = s.mains.length + k → r.time = f.2 ∧ r.resumed = false := by
    intro k f hf r hr hk
    obtain hr | hr := List.mem_append.mp hr
    · exact h.keeps.onTime k f hf r hr hk
    · rw [List.mem_singleton.mp hr] at hk
      change j = _ at hk
      omega
  have hlast' : (mainRuns s l ++ [LambdaRun.mk j l.frame.time true (script j).parks]).getLast? =
      some (LambdaRun.mk j l.frame.time true (script j).parks) := by simp
  cases hp : (script j).parks with
  | true =>
    rw [hp] at hnew hfirst hnext honce honTime hlast'
    simp only [Bool.true_or, if_true]
    refine ⟨h.track, Nat.le_succ_of_le h.time_le, ⟨?_, ?_, ?_, ?_, honce, honTime⟩, ?_, ?_, ?_⟩
    · rw [hnew]
      exact hfirst
    · rw [hnew]
      exact hnext
    · intro hadvanced
      rw [show l.frame.time = 0 from htime] at hadvanced
      exact absurd hadvanced (Nat.lt_irrefl 0)
    · intro _
      rw [hnew, List.countP_append]
      change l.frame.time.toNat + (_ + 1) = l.ticks + 1
      omega
    · intro hfresh
      rw [show l.frame.mainStarted = true from hstarted] at hfresh
      cases hfresh
    · intro i hi
      obtain rfl := Option.some.inj (hparked.symm.trans hi)
      rw [hnew, hlast']
      exact ⟨hj, htime, _, rfl, rfl, rfl⟩
    · intro _ hnone
      rw [show l.frame.mainFrame = some j from hparked] at hnone
      cases hnone
  | false =>
    have hraises : (script j).raises = false := by
      cases hr : (script j).raises with
      | false => rfl
      | true => rw [hclean.raised j (by omega) hr] at hp; cases hp
    rw [hp] at hnew hfirst hnext honce honTime hlast'
    simp only [hraises, Bool.or_false, Bool.false_eq_true, if_false]
    refine ⟨h.track, h.time_le, rfl, rfl, ?_, ?_, ?_, ?_, honce, honTime⟩
    · rw [hnew]
      exact hfirst
    · rw [hnew]
      exact hnext
    · intro i hi
      rw [hnew, hlast']
      exact ⟨_, rfl, by change j = i; omega, rfl⟩
    · rw [hnew, List.countP_append]
      change l.frame.time.toNat + (_ + 0) + 1 = l.ticks + 1
      omega

theorem tick_fits {n : ℕ} {l : Lane} (hplain : s.Plain) (hclean : CleanMains s script)
    (h : LaneFits s n l) {y : Bool} (hy : y = true → MainsDone s l) (hn : n + 1 < 2 ^ 64) :
    LaneFits s (n + 1) (l.tick script y).1 := by
  rw [Lane.tick]
  have hcounted : l.frame.track.counted = s.data.lambdas := by
    rw [h.track, counted_data hplain]
    rfl
  by_cases hne : s.data.lambdas = []
  · simp only [hcounted, hne, if_true]
    refine ⟨h.track, Nat.le_succ_of_le h.time_le, ⟨h.keeps.first, h.keeps.next, h.keeps.complete,
      ?_, h.keeps.once, h.keeps.onTime⟩, h.fresh, h.parked, h.done⟩
    intro hlambdas
    exact absurd hne hlambdas
  · have hhalf : MainHalf s n (Lane.tickMain script { l with ticks := l.ticks + 1 } y) := by
      cases hstarted : l.frame.mainStarted with
      | false => exact begin_half hplain hne hclean h hy hstarted
      | true =>
        cases hparked : l.frame.mainFrame with
        | some j =>
          obtain rfl : y = false := by
            cases y with
            | false => rfl
            | true =>
              obtain hdone | ⟨-, hdone⟩ := hy rfl
              · have hj := (h.parked j hparked).1
                rw [hdone] at hj
                cases hj
              · rw [hparked] at hdone
                cases hdone
          exact resume_half hne hclean h hstarted hparked
        | none =>
          have hclock := h.keeps.clock hne
          simp only [Lane.tickMain, hstarted, hparked]
          refine ⟨h.track, h.time_le, hstarted, hparked, h.keeps.first, h.keeps.next,
            h.done hstarted hparked, ?_, h.keeps.once, h.keeps.onTime⟩
          change l.frame.time.toNat + (mainRuns s l).countP _ + 1 = l.ticks + 1
          rw [hclock]
    simp only [hcounted, if_neg hne]
    generalize Lane.tickMain script { l with ticks := l.ticks + 1 } y = result at hhalf
    obtain ⟨l', y', parked⟩ := result
    cases parked with
    | true => exact hhalf
    | false => exact advance_fits hplain hhalf hn y'

/-! ## Runs -/

theorem LaneFits.mono {n : ℕ} {l : Lane} (h : LaneFits s n l) : LaneFits s (n + 1) l :=
  ⟨h.track, Nat.le_succ_of_le h.time_le, h.keeps, h.fresh, h.parked, h.done⟩

theorem tickLanes_fits {script : ℕ → ℕ → Execution} {sources : List TrackSource}
    {lanes : List Lane} {n : ℕ} (h : List.Forall₂ (LaneFits · n) sources lanes)
    (hplain : ∀ s ∈ sources, s.Plain) (hn : n + 1 < 2 ^ 64) {i : ℕ}
    (hclean : ∀ k, ∀ s ∈ sources[k]?, CleanMains s (script (i + k))) {y : Bool}
    (hy : y = true → ∀ s ∈ sources.head?, ∀ l ∈ lanes.head?, MainsDone s l) :
    List.Forall₂ (LaneFits · (n + 1)) sources (tickLanes script i lanes y) := by
  induction h generalizing i y with
  | nil => exact .nil
  | @cons s l sources lanes hfits hrest ih =>
    have htick := tick_fits (hplain s List.mem_cons_self) (hclean 0 s rfl) hfits
      (fun h => hy h s rfl l rfl) hn
    rw [Nat.add_zero] at htick
    rw [tickLanes]
    generalize l.tick (script i) y = result at htick
    obtain ⟨l', y'⟩ := result
    cases y' with
    | true => exact .cons htick (hrest.imp fun _ _ h => h.mono)
    | false =>
      refine .cons htick (ih (fun s hs => hplain s (.tail _ hs)) ?_ nofun)
      intro k s hs
      have hk := hclean (k + 1) s (by simpa using hs)
      rwa [show i + 1 + k = i + (k + 1) by omega]

theorem lane_fits (s : TrackSource) : LaneFits s 0 s.lane := by
  refine ⟨rfl, le_refl _, ⟨nofun, .nil, ?_, fun _ => rfl, ?_, ?_⟩, fun _ => ⟨rfl, rfl, rfl⟩, nofun,
    nofun⟩
  · intro h
    exact absurd h (Nat.lt_irrefl 0)
  · intro k f _
    exact (if_neg (Nat.not_lt_zero _)).symm
  · intro k f _ r hr
    cases hr

theorem runTicks_fits {sources : List TrackSource} {ticks : List StateTick}
    (hclean : Clean sources ticks) {n : ℕ} (hn : n ≤ ticks.length) :
    List.Forall₂ (LaneFits · n) sources (runTicks (sources.map (·.lane)) (ticks.take n)) := by
  obtain ⟨hplain, hlength, hticks⟩ := hclean
  induction n with
  | zero =>
    rw [List.take_zero]
    apply List.forall₂_map_right_iff.mpr
    exact List.forall₂_same.mpr fun s _ => lane_fits s
  | succ n ih =>
    obtain ⟨t, ht⟩ : ∃ t, ticks[n]? = some t := ⟨_, List.getElem?_eq_getElem (by omega)⟩
    have hstep := hticks n t ht
    rw [List.take_add_one, ht, runTicks, List.foldl_append]
    refine tickLanes_fits (ih (by omega)) hplain (by omega) ?_ hstep.flag
    intro k s hs
    rw [Nat.zero_add]
    exact ⟨hstep.raised k s hs, hstep.parked k s hs⟩

/-- In every run of ticks of a state that is clean, all its tracks keep their timelines. -/
theorem keepTimelines_of_clean (sources : List TrackSource) (ticks : List StateTick)
    (hclean : Clean sources ticks) : KeepTimelines sources ticks := by
  have hfits := runTicks_fits hclean (le_refl ticks.length)
  rw [List.take_length] at hfits
  exact hfits.imp fun _ _ h => h.keeps

/-- A track with a main lambda that yields once, and a lambda for its first frame. -/
theorem keepTimelines_yielding : KeepTimelines [⟨0, [7], [(8, 0)]⟩]
    [⟨false, fun _ _ => ⟨true, false⟩⟩, ⟨false, fun _ _ => ⟨false, false⟩⟩] := by
  apply keepTimelines_of_clean
  refine ⟨?_, by decide, ?_⟩
  · intro s hs
    rw [List.mem_singleton.mp hs]
    refine ⟨?_, by decide⟩
    intro f hf
    rw [List.mem_singleton.mp hf]
    decide
  · have hlast : ∀ (i : ℕ) (s : TrackSource), s ∈ [(⟨0, [7], [(8, 0)]⟩ : TrackSource)][i]? →
        ∀ j, ¬j + 1 < s.mains.length := by
      intro i s hs j
      rw [List.mem_singleton.mp (List.mem_of_getElem? hs)]
      exact fun h => absurd (Nat.lt_of_succ_lt_succ h) (Nat.not_lt_zero j)
    intro n t ht
    obtain rfl | rfl : t = ⟨false, fun _ _ => ⟨true, false⟩⟩ ∨
        t = ⟨false, fun _ _ => ⟨false, false⟩⟩ := by
      simpa using List.mem_of_getElem? ht
    · exact ⟨nofun, fun _ _ _ _ _ _ => rfl, fun i s hs j hj => absurd hj (hlast i s hs j)⟩
    · exact ⟨nofun, fun _ _ _ _ _ h => h, fun i s hs j hj => absurd hj (hlast i s hs j)⟩

/-- INTERNAL: of two main lambdas the first yields once; the second never begins, and the time of
the track advances. SRCLINE: TrackFrame.cpp:43-66 -/
theorem not_keepTimelines : ¬KeepTimelines [⟨0, [7, 8], []⟩]
    [⟨false, fun _ _ => ⟨true, false⟩⟩, ⟨false, fun _ _ => ⟨false, false⟩⟩] := by
  intro h
  obtain ⟨hkeeps, -⟩ := List.forall₂_cons.mp h
  obtain ⟨r, hr, hindex, -⟩ := hkeeps.complete (by decide) 1 rfl
  cases hr
  cases hindex

end Soot.Analysis
