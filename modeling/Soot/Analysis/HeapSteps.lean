import Soot.Analysis.Allocation

/-!
# Steps of the mutator and the collector

What each operation of the collector does to the live objects and their headers, and that it
keeps the representation of the heap: allocation hands out one object, release takes one back,
marking writes headers of live objects, and a sweep takes back the objects it finds unmarked.
-/

set_option autoImplicit false

namespace Soot.Analysis

open Soot.Program Soot.Model Soot.Computation

variable {κ : Type} {types : TypeRegistry κ} {s s' : Collector κ} {payload : ℕ}

/-! ## Objects and their blocks -/

theorem headerOf_payloadOf (block : ℕ) :
    Collector.headerOf (Collector.payloadOf block) = block := by
  rw [Collector.headerOf, Collector.payloadOf, Nat.add_sub_cancel]

theorem live_payloadOf {block : ℕ} :
    Live s (Collector.payloadOf block) ↔ LiveBlock s.arenas block := by
  constructor
  · rintro ⟨other, hother, heq⟩
    have : block = other := by
      rw [← headerOf_payloadOf block, heq, headerOf_payloadOf]
    rw [this]
    exact hother
  · intro h
    exact ⟨block, h, rfl⟩

theorem Live.block (h : Live s payload) :
    LiveBlock s.arenas (Collector.headerOf payload) ∧
      payload = Collector.payloadOf (Collector.headerOf payload) := by
  obtain ⟨block, hblock, rfl⟩ := h
  rw [headerOf_payloadOf]
  exact ⟨hblock, rfl⟩

theorem live_of_allocated (i j block : ℕ)
    (h : (s.arenas.arenas[i]?).map (fun entry => (entry.2.isAllocated j, entry.2.block j)) =
      some (true, block)) : Live s (Collector.payloadOf block) := by
  rw [Option.map_eq_some_iff] at h
  obtain ⟨entry, hi, heq⟩ := h
  rw [Prod.mk.injEq] at heq
  exact ⟨block, ⟨i, entry, j, hi, heq.1, heq.2.symm⟩, rfl⟩

theorem live_congr (h : s'.arenas = s.arenas) : Live s' payload ↔ Live s payload := by
  rw [Live, Live, h]

theorem headerOf_injective {other : ℕ} (hlive : Live s payload) (hother : Live s other)
    (h : Collector.headerOf payload = Collector.headerOf other) : payload = other := by
  rw [(Live.block hlive).2, (Live.block hother).2, h]

theorem HeapHolds.liveBlock_owned {m : HeapWords} {arenas : ArenaManager}
    (h : HeapHolds arenas m) {block : ℕ} (hlive : LiveBlock arenas block) :
    arenas.regionStart ≤ block ∧ block + 16 ≤ arenas.regionEnd ∧ 4096 ≤ block := by
  obtain ⟨i, entry, j, hi, hj, rfl⟩ := hlive
  have hat := h.arenas i entry hi
  have hrange := ArenaAt.block_range hat (ArenaAt.lt_capacity hat hj)
  have hsize := (classSize_spec hat.1).1
  have hlen := lt_length_of_getElem? hi
  have hmono : arenaStart arenas (i + 1) ≤ arenaStart arenas arenas.arenas.length :=
    arenaStart_mono hlen
  have hbase : arenas.regionStart ≤ arenaStart arenas i := Nat.le_add_right _ _
  have hbump := h.bump
  have hfits := h.fits
  have haligned := h.aligned
  have hplaced := h.placed
  omega

theorem CollectorHolds.live (h : CollectorHolds s) (hlive : Live s payload) :
    payload ≠ 0 ∧ s.arenas.owns payload = true ∧
      LiveHeader (s.words (Collector.headerOf payload)) := by
  obtain ⟨hblock, hpayload⟩ := Live.block hlive
  obtain ⟨hlow, hhigh, hpos⟩ := HeapHolds.liveBlock_owned h.heap hblock
  have hshift : payload = Collector.headerOf payload + 8 := hpayload
  refine ⟨by omega, ?_, HeapHolds.liveHeader h.heap hblock⟩
  have hlow' : s.arenas.regionStart ≤ payload := by omega
  have hhigh' : payload < s.arenas.regionEnd := by omega
  simp [ArenaManager.owns, hlow', hhigh']

/-! ## Allocation and release -/

/-- What an allocation that succeeds does. -/
structure Allocates (types : TypeRegistry κ) (s : Collector κ) (sid size : ℕ) (s' : Collector κ)
    (payload : ℕ) : Prop where
  handedOut : ∃ block, payload = Collector.payloadOf block ∧
    HandedOut s.arenas s.words block s'.arenas ∧
    ∃ header : GCHeader, header.typeIndex = types.findIndex sid ∧ header.dead = false ∧
      header.passCycle = s.currentPass % 16 ∧ s'.words = s.words.write block (.header header)
  contents : s'.contents =
    types.clear s.contents payload (Collector.objectSize types sid size)
  currentPass : s'.currentPass = s.currentPass
  destroyed : s'.destroyed = s.destroyed

theorem CollectorHolds.alloc (h : CollectorHolds s) {sid size : ℕ}
    (halloc : s.alloc types sid size = some (s', payload)) :
    payload = 0 ∧ s' = s ∨ payload ≠ 0 ∧ Allocates types s sid size s' payload := by
  rw [Collector.alloc] at halloc
  simp only at halloc
  by_cases hzero : Collector.objectSize types sid size = 0
  · rw [if_pos hzero, Option.some.injEq, Prod.mk.injEq] at halloc
    exact .inl ⟨halloc.2.symm, halloc.1.symm⟩
  rw [if_neg hzero] at halloc
  split at halloc
  · cases halloc
  cases hresult : s.arenas.allocate s.words
      (Collector.alignedTotal (Collector.objectSize types sid size)) with
  | mk arenas result =>
    have hspec := HeapHolds.allocate h.heap hresult
    cases result with
    | none =>
      simp only [hresult, Option.some.injEq, Prod.mk.injEq] at halloc
      obtain ⟨rfl, rfl⟩ := halloc
      obtain ⟨rfl, _⟩ := hspec
      exact .inl ⟨rfl, rfl⟩
    | some block =>
      simp only [hresult, Option.some.injEq, Prod.mk.injEq] at halloc
      obtain ⟨rfl, rfl⟩ := halloc
      refine .inr ⟨Nat.succ_ne_zero _, ⟨⟨block, rfl, hspec, _, ?_, ?_, ?_, rfl⟩, rfl, rfl, rfl⟩⟩
        <;> rfl

theorem Allocates.live (h : CollectorHolds s) {sid size : ℕ}
    (halloc : Allocates types s sid size s' payload) :
    CollectorHolds s' ∧ ¬ Live s payload ∧
      (∀ other, Live s' other ↔ Live s other ∨ other = payload) ∧
      ∀ other, Live s other →
        s'.words (Collector.headerOf other) = s.words (Collector.headerOf other) := by
  obtain ⟨block, rfl, hout, header, _, hdead, hcycle, hwords⟩ := halloc.handedOut
  have hfresh : ¬ Live s (Collector.payloadOf block) := by
    rw [live_payloadOf]
    exact hout.fresh
  refine ⟨⟨?_, ?_⟩, hfresh, ?_, ?_⟩
  · rw [hwords]
    refine hout.holds header hdead ?_
    rw [hcycle]
    exact Nat.mod_lt _ (by decide)
  · rw [halloc.currentPass]
    exact h.pass
  · intro other
    constructor
    · rintro ⟨b, hb, rfl⟩
      rcases (hout.liveBlock b).1 hb with hold | rfl
      · exact .inl ⟨b, hold, rfl⟩
      · exact .inr rfl
    · rintro (⟨b, hb, rfl⟩ | rfl)
      · exact ⟨b, (hout.liveBlock b).2 (.inl hb), rfl⟩
      · exact ⟨block, (hout.liveBlock block).2 (.inr rfl), rfl⟩
  · intro other hother
    rw [hwords]
    refine write_other _ _ fun heq => hfresh ?_
    rw [← heq, ← (Live.block hother).2]
    exact hother

/-- What taking an object back does. -/
structure Frees (s s' : Collector κ) (payload : ℕ) : Prop where
  holds : CollectorHolds s'
  live : ∀ other, Live s' other ↔ Live s other ∧ other ≠ payload
  words : ∀ address, address ≠ Collector.headerOf payload → s'.words address = s.words address
  contents : s'.contents = s.contents
  currentPass : s'.currentPass = s.currentPass
  shape : ∃ (i j : ℕ) (entry : ℕ × Arena) (a : Arena), s.arenas.arenas[i]? = some entry ∧
    s'.arenas = s.arenas.setArena i a ∧ a.capacity = entry.2.capacity ∧
    (∀ k, a.block k = entry.2.block k) ∧ Collector.headerOf payload = entry.2.block j

theorem CollectorHolds.frees (h : CollectorHolds s) (hlive : Live s payload) (word : HeapWord)
    (hs' : s'.arenas = (s.arenas.deallocate (s.words.write (Collector.headerOf payload) word)
      (Collector.headerOf payload)).1)
    (hwords : s'.words = (s.arenas.deallocate (s.words.write (Collector.headerOf payload) word)
      (Collector.headerOf payload)).2)
    (hcontents : s'.contents = s.contents) (hpass : s'.currentPass = s.currentPass) :
    Frees s s' payload := by
  obtain ⟨⟨i, entry, j, hi, hj, hblock⟩, hpayload⟩ := Live.block hlive
  have hback := HeapHolds.deallocate h.heap hi hj
  rw [hblock] at hs' hwords
  -- the word that is written first is overwritten by the link
  have hsame : s.arenas.deallocate (s.words.write (entry.2.block j) word) (entry.2.block j) =
      s.arenas.deallocate s.words (entry.2.block j) := by
    have howns : entry.2.owns (entry.2.block j) = true := by
      rw [HeapHolds.owns_iff h.heap hi]
      have hat := h.heap.arenas i entry hi
      have := ArenaAt.block_range hat (ArenaAt.lt_capacity hat hj)
      have := ArenaAt.size_pos hat
      omega
    have hfind := HeapHolds.findArena h.heap hi howns
    simp only [ArenaManager.deallocate, hfind, hi, Arena.deallocate, howns, if_true]
    have hwrite : (s.words.write (entry.2.block j) word).write (entry.2.block j)
        (.link entry.2.freeHead) = s.words.write (entry.2.block j) (.link entry.2.freeHead) := by
      funext address
      by_cases haddress : address = entry.2.block j
      · rw [haddress, write_same, write_same]
      · rw [write_other _ _ haddress, write_other _ _ haddress, write_other _ _ haddress]
    rw [hwrite]
  rw [hsame] at hs' hwords
  have hblocks := GivenBack.liveBlock h.heap hi hj hback
  rw [← hs'] at hback hblocks
  rw [← hwords] at hback
  obtain ⟨a, ha, hcapacity, haddress, _⟩ := hback.arenas
  refine
    { holds := ⟨hback.holds, by rw [hpass]; exact h.pass⟩
      live := ?_
      words := ?_
      contents := hcontents
      currentPass := hpass
      shape := ⟨i, j, entry, a, hi, ha, hcapacity, haddress, hblock⟩ }
  · intro other
    constructor
    · rintro ⟨b, hb, rfl⟩
      obtain ⟨hold, hne⟩ := (hblocks b).1 hb
      refine ⟨⟨b, hold, rfl⟩, fun heq => hne ?_⟩
      rw [← hblock, ← heq, headerOf_payloadOf]
    · rintro ⟨⟨b, hb, rfl⟩, hne⟩
      refine ⟨b, (hblocks b).2 ⟨hb, fun heq => hne ?_⟩, rfl⟩
      rw [heq, ← hblock, ← hpayload]
  · intro address haddress'
    exact hback.words address (by rw [← hblock]; exact haddress')

theorem CollectorHolds.release (h : CollectorHolds s) (howned : Owned s payload) :
    (¬ Live s payload ∧ s.release payload = s) ∨
      (Live s payload ∧ Frees s (s.release payload) payload) := by
  rw [Collector.release]
  by_cases hforeign : payload = 0 ∨ ¬ s.arenas.owns payload
  · rw [if_pos hforeign]
    refine .inl ⟨fun hlive => ?_, rfl⟩
    obtain ⟨hne, howns, _⟩ := CollectorHolds.live h hlive
    rcases hforeign with hzero | hnot
    · exact hne hzero
    · exact hnot howns
  · rw [if_neg hforeign]
    rw [not_or, not_not] at hforeign
    by_cases hreleased : (s.words (Collector.headerOf payload)).asHeader.dead = true
    · rw [if_pos hreleased]
      refine .inl ⟨fun hlive => ?_, rfl⟩
      obtain ⟨_, _, header, hheader, hdead, _⟩ := CollectorHolds.live h hlive
      rw [hheader] at hreleased
      exact Bool.false_ne_true (hdead.symm.trans hreleased)
    have hlive : Live s payload := by
      rcases howned with hzero | hnot | hlive | hdead
      · exact absurd hzero hforeign.1
      · rw [hnot] at hforeign
        exact absurd hforeign.2 (by decide)
      · exact hlive
      · exact absurd hdead hreleased
    obtain ⟨_, _, header, hheader, hdead, _⟩ := CollectorHolds.live h hlive
    have hword : (s.words (Collector.headerOf payload)).asHeader = header := by
      rw [hheader]
      rfl
    simp only [hword, hdead, Bool.false_eq_true, if_false]
    exact .inr ⟨hlive, CollectorHolds.frees h hlive _ rfl rfl rfl rfl⟩

/-! ## Marking -/

theorem markObject_eq_run (depth : ℕ) (s : Collector κ) (payload : ℕ) :
    s.markObject types depth payload = (tracing types).run depth s payload := by
  induction depth generalizing s payload with
  | zero => rfl
  | succ depth ih =>
    rw [Collector.markObject, Traversal.run]
    simp only [ih]
    rfl

/-- What marking needs of a state. -/
def Markable (s : Collector κ) : Prop :=
  s.currentPass < 16 ∧ s.arenas.regionStart % 4096 = 0 ∧
    (s.arenas.regionStart = 0 → s.arenas.regionEnd = 0)

theorem CollectorHolds.markable (h : CollectorHolds s) : Markable s :=
  ⟨h.pass, h.heap.aligned, h.heap.placed⟩

theorem skips_eq_false : s.skips payload = false ↔
    payload ≠ 0 ∧ s.arenas.owns payload = true ∧
      (s.words (Collector.headerOf payload)).asHeader.dead = false ∧
      (s.words (Collector.headerOf payload)).asHeader.passCycle ≠ s.currentPass := by
  simp [Collector.skips, and_assoc]

theorem unskipped_large (hs : Markable s) (h : s.skips payload = false) : 4096 ≤ payload := by
  obtain ⟨_, howns, _⟩ := skips_eq_false.1 h
  rw [ArenaManager.owns, Bool.and_eq_true, decide_eq_true_iff, decide_eq_true_iff] at howns
  obtain ⟨_, haligned, hplaced⟩ := hs
  omega

theorem setMarked_word_other {other : ℕ} (hs : Markable s) (h : s.skips payload = false)
    (hne : other ≠ payload) :
    (s.setMarked payload).words (Collector.headerOf other) =
      s.words (Collector.headerOf other) := by
  have hlarge := unskipped_large hs h
  refine write_other _ _ ?_
  simp only [Collector.headerOf, Collector.headerSize]
  omega

theorem setMarked_word (s : Collector κ) (payload : ℕ) :
    (s.setMarked payload).words (Collector.headerOf payload) =
      .header { (s.words (Collector.headerOf payload)).asHeader with
        passCycle := s.currentPass % 16
        marked := true } := write_same _ _ _

theorem tracing_lawful : (tracing types).Lawful Markable := by
  refine ⟨fun hs _ => hs, ?_, ?_⟩
  · intro s payload other hs h
    change (s.setMarked payload).skips other = true ↔ s.skips other = true ∨ other = payload
    have hmod : s.currentPass % 16 = s.currentPass := Nat.mod_eq_of_lt hs.1
    by_cases hne : other = payload
    · subst hne
      refine ⟨fun _ => .inr rfl, fun _ => ?_⟩
      rw [Collector.skips, setMarked_word]
      simp [HeapWord.asHeader, Collector.setMarked, hmod]
    · rw [Collector.skips, setMarked_word_other hs h hne]
      simp only [hne, or_false]
      rfl
  · intro s payload other hs h
    change (s.setMarked payload).visits types other = s.visits types other
    rw [Collector.visits, Collector.visits]
    by_cases hne : other = payload
    · subst hne
      rw [setMarked_word]
      rfl
    · rw [setMarked_word_other hs h hne]
      rfl

/-- What marking some live objects does. -/
structure Marks (s s' : Collector κ) (objects : List ℕ) : Prop where
  holds : CollectorHolds s'
  arenas : s'.arenas = s.arenas
  contents : s'.contents = s.contents
  currentPass : s'.currentPass = s.currentPass
  cursor : s'.sweepArena = s.sweepArena ∧ s'.sweepBlock = s.sweepBlock
  destroyed : s'.destroyed = s.destroyed
  typeIndex : ∀ other, Live s other →
    (s'.words (Collector.headerOf other)).asHeader.typeIndex =
      (s.words (Collector.headerOf other)).asHeader.typeIndex
  cycle : ∀ other, Live s other →
    (s'.words (Collector.headerOf other)).asHeader.passCycle =
      if other ∈ objects then s.currentPass
      else (s.words (Collector.headerOf other)).asHeader.passCycle

theorem CollectorHolds.setMarked (h : CollectorHolds s) (hlive : Live s payload) :
    Marks s (s.setMarked payload) [payload] := by
  obtain ⟨_, _, header, hheader, hdead, _⟩ := CollectorHolds.live h hlive
  have hword : (s.words (Collector.headerOf payload)).asHeader = header := by
    rw [hheader]
    rfl
  have hother : ∀ other, Live s other → other ≠ payload →
      (s.setMarked payload).words (Collector.headerOf other) =
        s.words (Collector.headerOf other) := fun other hother hne =>
    write_other _ _ fun heq => hne (headerOf_injective hother hlive heq)
  refine
    { holds := ⟨?_, h.pass⟩, arenas := rfl, contents := rfl, currentPass := rfl
      cursor := ⟨rfl, rfl⟩, destroyed := rfl, typeIndex := ?_, cycle := ?_ }
  · refine HeapHolds.writeHeader h.heap (Live.block hlive).1 ?_ (Nat.mod_lt _ (by decide))
    rw [hword]
    exact hdead
  · intro other hlive'
    by_cases hne : other = payload
    · rw [hne, setMarked_word]
      rfl
    · rw [hother other hlive' hne]
  · intro other hlive'
    by_cases hne : other = payload
    · rw [hne, setMarked_word, if_pos List.mem_cons_self]
      exact Nat.mod_eq_of_lt h.pass
    · rw [hother other hlive' hne, if_neg (by simp [hne])]

theorem Marks.refl (h : CollectorHolds s) : Marks s s [] :=
  { holds := h, arenas := rfl, contents := rfl, currentPass := rfl, cursor := ⟨rfl, rfl⟩
    destroyed := rfl, typeIndex := fun _ _ => rfl, cycle := fun _ _ => by simp }

theorem Marks.trans {s'' : Collector κ} {objects objects' : List ℕ} (h : Marks s s' objects)
    (h' : Marks s' s'' objects') : Marks s s'' (objects ++ objects') := by
  have hlive : ∀ other, Live s other → Live s' other := fun other => (live_congr h.arenas).2
  refine
    { holds := h'.holds
      arenas := h'.arenas.trans h.arenas
      contents := h'.contents.trans h.contents
      currentPass := h'.currentPass.trans h.currentPass
      cursor := ⟨h'.cursor.1.trans h.cursor.1, h'.cursor.2.trans h.cursor.2⟩
      destroyed := h'.destroyed.trans h.destroyed
      typeIndex := fun other hother =>
        (h'.typeIndex other (hlive other hother)).trans (h.typeIndex other hother)
      cycle := ?_ }
  intro other hother
  rw [h'.cycle other (hlive other hother), h.cycle other hother, h.currentPass]
  by_cases hmem : other ∈ objects <;> by_cases hmem' : other ∈ objects' <;> simp [hmem, hmem']

theorem marks_of_entered (h : CollectorHolds s) {objects : List ℕ}
    (hentered : (tracing types).Entered s s' objects)
    (hlive : ∀ payload ∈ objects, Live s payload) : Marks s s' objects := by
  rw [hentered.fold]
  clear hentered
  induction objects generalizing s with
  | nil => exact Marks.refl h
  | cons payload rest ih =>
    have hfirst := CollectorHolds.setMarked h (hlive payload List.mem_cons_self)
    have hrest := ih hfirst.holds fun other hother =>
      (live_congr hfirst.arenas).2 (hlive other (List.mem_cons_of_mem _ hother))
    exact hfirst.trans hrest

theorem CollectorHolds.mark (h : CollectorHolds s) {depth : ℕ}
    (hlive : ∀ last, (tracing types).Fresh s payload last → Live s last)
    (hmark : s.markObject types depth payload = some s') :
    ∃ objects, Marks s s' objects ∧
      ∀ last, last ∈ objects ↔ (tracing types).Fresh s payload last := by
  rw [markObject_eq_run] at hmark
  obtain ⟨objects, hentered, hmem⟩ :=
    Traversal.run_spec tracing_lawful (CollectorHolds.markable h) hmark
  exact ⟨objects, marks_of_entered h hentered fun other hother => hlive other ((hmem other).1 hother),
    hmem⟩

end Soot.Analysis
