import Soot.Analysis.HeapRuns

/-!
# What is reachable is marked before it is swept

The invariant of the careful runs: what can be reached is live, and what a marked object holds
is marked. A change of the heap keeps it when it adds edges only to objects that are new, or
that can be reached and do not hide an unmarked object in a marked one; each native function is
some such changes. When the roots are marked, all that can be reached is, and a sweep leaves it.
-/

set_option autoImplicit false

namespace Soot.Analysis

open Soot.Program Soot.Model Soot.Computation

variable {c : Cells}

variable {host : HeapHost} {fpu : FloatUnit} {s s' : Mutator} {payload target : ℕ}

/-! ## The invariant -/

/-- The buffer that the elements of a block are read from. -/
def bufferOf (c : Cells) (payload : ℕ) : ℕ :=
  match c payload with
  | .map m => m.values
  | .array a => a.data
  | _ => 0

/-- A map or an array without a buffer has no elements and no room for any. -/
def CellFits (c : Cells) (payload : ℕ) : Prop :=
  match c payload with
  | .map m => m.values = 0 → m.size = 0 ∧ m.capacity = 0
  | .array a => a.data = 0 → a.size = 0 ∧ a.capacity = 0
  | _ => True

/-- What careful runs keep. -/
structure ReachHolds (s : Mutator) : Prop where
  heap : CollectorHolds s.heap
  bound : s.heap.arenas.regionEnd ≤ 2 ^ 64
  live : ∀ payload, Reached s payload → Live s.heap payload
  closed : ∀ payload target, Reached s payload → Marked s.heap payload →
    Holds s.heap.contents payload target → InHeap s.heap target → Marked s.heap target
  fits : ∀ payload, Reached s payload → CellFits s.heap.contents payload
  apart : ∀ payload other, Reached s payload → Reached s other →
    bufferOf s.heap.contents payload ≠ 0 →
    bufferOf s.heap.contents payload = bufferOf s.heap.contents other → payload = other

/-- What a change of the heap and the roots adds: new objects, which hold nothing, and edges to
them or to what could be reached. -/
structure Mutates (s s' : Mutator) (news : ℕ → Prop) : Prop where
  heap : CollectorHolds s'.heap
  region : s'.heap.arenas.regionStart = s.heap.arenas.regionStart ∧
    s'.heap.arenas.regionEnd = s.heap.arenas.regionEnd
  live : ∀ payload, Reached s payload ∨ news payload → Live s'.heap payload
  marked : ∀ payload, Reached s payload → (Marked s'.heap payload ↔ Marked s.heap payload)
  fresh : ∀ payload, news payload → Marked s'.heap payload ∧
    ∀ target, Holds s'.heap.contents payload target → ¬ InHeap s.heap target
  roots : ∀ slot, InHeap s.heap (s'.roots slot).address →
    Reached s (s'.roots slot).address ∨ news (s'.roots slot).address
  edges : ∀ payload target, Reached s payload → Holds s'.heap.contents payload target →
    InHeap s.heap target → Holds s.heap.contents payload target ∨ news target ∨
      Reached s target ∧ (Marked s.heap payload → Marked s.heap target)
  fits : ∀ payload, Reached s payload ∨ news payload → CellFits s'.heap.contents payload
  apart : ∀ payload other, Reached s payload ∨ news payload → Reached s other ∨ news other →
    bufferOf s'.heap.contents payload ≠ 0 →
    bufferOf s'.heap.contents payload = bufferOf s'.heap.contents other → payload = other

theorem inHeap_congr {h h' : CellHeap} (hregion : h'.arenas.regionStart = h.arenas.regionStart ∧
    h'.arenas.regionEnd = h.arenas.regionEnd) : InHeap h' payload ↔ InHeap h payload := by
  rw [InHeap, InHeap, ArenaManager.owns, ArenaManager.owns, hregion.1, hregion.2]

theorem Mutates.reached {news : ℕ → Prop} (h : Mutates s s' news)
    (hreach : Reached s' payload) : Reached s payload ∨ news payload := by
  induction hreach with
  | root slot hin => exact h.roots slot ((inHeap_congr h.region).1 hin)
  | step _ hholds hin ih =>
    have hin := (inHeap_congr h.region).1 hin
    rcases ih with hold | hnew
    · rcases h.edges _ _ hold hholds hin with hedge | hnew | ⟨hreach, _⟩
      · exact .inl (.step hold hedge hin)
      · exact .inr hnew
      · exact .inl hreach
    · exact absurd hin ((h.fresh _ hnew).2 _ hholds)

theorem Mutates.holds {news : ℕ → Prop} (h : Mutates s s' news) (hs : ReachHolds s) :
    ReachHolds s' := by
  refine ⟨h.heap, by rw [h.region.2]; exact hs.bound, ?_, ?_, ?_, ?_⟩
  · intro payload hreach
    exact h.live payload (h.reached hreach)
  · intro payload target hreach hmarked hholds hin
    have hin := (inHeap_congr h.region).1 hin
    rcases h.reached hreach with hold | hnew
    · have hmarked := (h.marked payload hold).1 hmarked
      rcases h.edges payload target hold hholds hin with hedge | hnew | ⟨htarget, hkept⟩
      · exact (h.marked target (.step hold hedge hin)).2 (hs.closed _ _ hold hmarked hedge hin)
      · exact (h.fresh target hnew).1
      · exact (h.marked target htarget).2 (hkept hmarked)
    · exact absurd hin ((h.fresh payload hnew).2 target hholds)
  · intro payload hreach
    exact h.fits payload (h.reached hreach)
  · intro payload other hreach hother
    exact h.apart payload other (h.reached hreach) (h.reached hother)

/-! ## Cells that are not changed -/

theorem set_same (c : Cells) (payload : ℕ) (cell : Cell) : c.set payload cell payload = cell :=
  if_pos rfl

theorem set_other (c : Cells) {payload other : ℕ} (cell : Cell) (h : other ≠ payload) :
    c.set payload cell other = c other := if_neg h

theorem holds_congr {c c' : Cells} (hcell : c' payload = c payload)
    (hvalues : ∀ i, c'.valueAt (bufferOf c payload) i = c.valueAt (bufferOf c payload) i)
    (helements : ∀ i, c'.elementAt (bufferOf c payload) i = c.elementAt (bufferOf c payload) i) :
    Holds c' payload target ↔ Holds c payload target := by
  rw [Holds, Holds, hcell]
  cases hc : c payload with
  | map m =>
    simp only [bufferOf, hc] at hvalues
    simp only [hvalues]
  | array a =>
    simp only [bufferOf, hc] at helements
    simp only [helements]
  | object fields => exact Iff.rfl
  | keys sids => exact Iff.rfl
  | values variants => exact Iff.rfl
  | elements pointers => exact Iff.rfl
  | scalars words => exact Iff.rfl

theorem valueAt_congr {c c' : Cells} (h : c' payload = c payload) (i : ℕ) :
    c'.valueAt payload i = c.valueAt payload i := by rw [Cells.valueAt, Cells.valueAt, h]

theorem elementAt_congr {c c' : Cells} (h : c' payload = c payload) (i : ℕ) :
    c'.elementAt payload i = c.elementAt payload i := by
  rw [Cells.elementAt, Cells.elementAt, h]

theorem valueAt_values {variants : List Variant} (h : c payload = .values variants)
    (i : ℕ) : c.valueAt payload i = variants.getD i .null := by rw [Cells.valueAt, h]

theorem elementAt_elements {pointers : List ℕ} (h : c payload = .elements pointers)
    (i : ℕ) : c.elementAt payload i = pointers.getD i 0 := by rw [Cells.elementAt, h]

/-- A block is a buffer of a map or an array. -/
def IsBuffer : Cell → Prop
  | .keys _ | .values _ | .elements _ | .scalars _ => True
  | .object _ | .map _ | .array _ => False

theorem not_holds_of_isBuffer (h : IsBuffer (c payload)) :
    ¬ Holds c payload target := by
  cases hc : c payload <;> simp_all [IsBuffer, Holds]

theorem cellFits_of_isBuffer (h : IsBuffer (c payload)) : CellFits c payload := by
  cases hc : c payload <;> simp_all [IsBuffer, CellFits]

theorem bufferOf_of_isBuffer (h : IsBuffer (c payload)) : bufferOf c payload = 0 := by
  cases hc : c payload <;> simp_all [IsBuffer, bufferOf]

theorem read_of_not_isBuffer (h : ¬ IsBuffer (c payload)) (i : ℕ) :
    c.valueAt payload i = .null ∧ c.elementAt payload i = 0 := by
  cases hc : c payload <;> simp_all [IsBuffer, Cells.valueAt, Cells.elementAt]

theorem bufferOf_congr {c c' : Cells} (hcell : c' payload = c payload) :
    bufferOf c' payload = bufferOf c payload := by rw [bufferOf, bufferOf, hcell]

theorem cellFits_congr {c c' : Cells} (hcell : c' payload = c payload) :
    CellFits c' payload ↔ CellFits c payload := by rw [CellFits, CellFits, hcell]

theorem holds_bufferOf (h : bufferOf c payload ≠ 0) :
    Holds c payload (bufferOf c payload) := by
  rw [Holds]
  cases hc : c payload with
  | map m => simp [bufferOf, hc]
  | array a => simp [bufferOf, hc]
  | object fields => simp [bufferOf, hc] at h
  | keys sids => simp [bufferOf, hc] at h
  | values variants => simp [bufferOf, hc] at h
  | elements pointers => simp [bufferOf, hc] at h
  | scalars words => simp [bufferOf, hc] at h

theorem bufferOf_ne (hreach : Reached s payload) {other : ℕ} (hin : InHeap s.heap other)
    (hother : ¬ Reached s other) : bufferOf s.heap.contents payload ≠ other := by
  rintro rfl
  exact hother (.step hreach (holds_bufferOf hin.1) hin)

theorem CollectorHolds.inHeap {h : CellHeap} (hh : CollectorHolds h) (hlive : Live h payload) :
    InHeap h payload := ⟨(CollectorHolds.live hh hlive).1, (CollectorHolds.live hh hlive).2.1⟩

theorem setCell_mutates (hs : ReachHolds s) {cell : Cell} {news : ℕ → Prop}
    (hnews : ∀ other, news other → Live s.heap other ∧ Marked s.heap other ∧
      IsBuffer (s.heap.contents.set payload cell other))
    (hedges : ∀ other target, Reached s other →
      Holds (s.heap.contents.set payload cell) other target → InHeap s.heap target →
      Holds s.heap.contents other target ∨ news target ∨
        Reached s target ∧ (Marked s.heap other → Marked s.heap target))
    (hfits : ∀ other, Reached s other → CellFits (s.heap.contents.set payload cell) other)
    (hapart : ∀ first second, Reached s first → Reached s second →
      bufferOf (s.heap.contents.set payload cell) first ≠ 0 →
      bufferOf (s.heap.contents.set payload cell) first =
        bufferOf (s.heap.contents.set payload cell) second → first = second) :
    Mutates s ⟨CellHeap.setCell s.heap payload cell, s.roots⟩ news := by
  have hbuffer : ∀ other, news other →
      bufferOf (s.heap.contents.set payload cell) other = 0 :=
    fun other hnew => bufferOf_of_isBuffer (hnews other hnew).2.2
  refine
    { heap := ⟨hs.heap.heap, hs.heap.pass⟩
      region := ⟨rfl, rfl⟩
      live := ?_
      marked := fun _ _ => Iff.rfl
      fresh := fun other hnew => ⟨(hnews other hnew).2.1, fun target hholds _ =>
        not_holds_of_isBuffer (hnews other hnew).2.2 hholds⟩
      roots := fun slot hslot => .inl (.root slot hslot)
      edges := hedges
      fits := ?_
      apart := ?_ }
  · rintro other (hreach | hnew)
    · exact hs.live other hreach
    · exact (hnews other hnew).1
  · rintro other (hreach | hnew)
    · exact hfits other hreach
    · exact cellFits_of_isBuffer (hnews other hnew).2.2
  · rintro first second hfirst hsecond hne heq
    rcases hfirst with hfirst | hfirst
    · rcases hsecond with hsecond | hsecond
      · exact hapart first second hfirst hsecond hne heq
      · exact absurd (heq.trans (hbuffer second hsecond)) hne
    · exact absurd (hbuffer first hfirst) hne

theorem setCell_unreached (hs : ReachHolds s) (hlive : Live s.heap payload)
    (hunreached : ¬ Reached s payload) (cell : Cell) :
    Mutates s ⟨CellHeap.setCell s.heap payload cell, s.roots⟩ (fun _ => False) := by
  have hin := CollectorHolds.inHeap hs.heap hlive
  have hcell : ∀ other, Reached s other →
      (s.heap.contents.set payload cell) other = s.heap.contents other :=
    fun other hother => set_other _ _ fun heq => hunreached (by rw [← heq]; exact hother)
  refine setCell_mutates hs (fun _ hnew => hnew.elim) ?_ ?_ ?_
  · intro other target hother hholds _
    have hbuffer : (s.heap.contents.set payload cell) (bufferOf s.heap.contents other) =
        s.heap.contents (bufferOf s.heap.contents other) :=
      set_other _ _ (bufferOf_ne hother hin hunreached)
    exact .inl ((holds_congr (hcell other hother) (valueAt_congr hbuffer)
      (elementAt_congr hbuffer)).1 hholds)
  · intro other hother
    exact (cellFits_congr (hcell other hother)).2 (hs.fits other hother)
  · intro first second hfirst hsecond hne heq
    rw [bufferOf_congr (hcell first hfirst)] at hne
    rw [bufferOf_congr (hcell first hfirst), bufferOf_congr (hcell second hsecond)] at heq
    exact hs.apart first second hfirst hsecond hne heq

theorem setCell_container (hs : ReachHolds s) {cell : Cell}
    (hold : ¬ IsBuffer (s.heap.contents payload)) (hcell : ¬ IsBuffer cell) {news : ℕ → Prop}
    (hnews : ∀ other, news other → Live s.heap other ∧ ¬ Reached s other ∧
      Marked s.heap other ∧ IsBuffer (s.heap.contents other))
    (hedges : ∀ target, Holds (s.heap.contents.set payload cell) payload target →
      InHeap s.heap target → Holds s.heap.contents payload target ∨ news target ∨
        Reached s target ∧ (Marked s.heap payload → Marked s.heap target))
    (hfits : CellFits (s.heap.contents.set payload cell) payload)
    (hbuffer : bufferOf (s.heap.contents.set payload cell) payload =
        bufferOf s.heap.contents payload ∨
      news (bufferOf (s.heap.contents.set payload cell) payload)) :
    Mutates s ⟨CellHeap.setCell s.heap payload cell, s.roots⟩ news := by
  have hsame : ∀ other, other ≠ payload →
      (s.heap.contents.set payload cell) other = s.heap.contents other :=
    fun other hne => set_other _ _ hne
  have hread : ∀ buffer i,
      (s.heap.contents.set payload cell).valueAt buffer i = s.heap.contents.valueAt buffer i ∧
      (s.heap.contents.set payload cell).elementAt buffer i =
        s.heap.contents.elementAt buffer i := by
    intro buffer i
    by_cases hne : buffer = payload
    · subst hne
      have hset : ¬ IsBuffer (s.heap.contents.set buffer cell buffer) := by
        rw [set_same]
        exact hcell
      rw [(read_of_not_isBuffer hold i).1, (read_of_not_isBuffer hold i).2]
      exact read_of_not_isBuffer hset i
    · exact ⟨valueAt_congr (hsame buffer hne) i, elementAt_congr (hsame buffer hne) i⟩
  have hnewBuffer : ∀ other, Reached s other → ¬ news (bufferOf s.heap.contents other) :=
    fun other hother hnew => bufferOf_ne hother
      (CollectorHolds.inHeap hs.heap (hnews _ hnew).1) (hnews _ hnew).2.1 rfl
  refine setCell_mutates hs ?_ ?_ ?_ ?_
  · intro other hnew
    obtain ⟨hlive, _, hmarked, hother⟩ := hnews other hnew
    refine ⟨hlive, hmarked, ?_⟩
    rw [hsame other fun heq => hold (by rw [← heq]; exact hother)]
    exact hother
  · intro other target hother hholds hin
    by_cases hne : other = payload
    · subst hne
      exact hedges target hholds hin
    · exact .inl ((holds_congr (hsame other hne) (fun i => (hread _ i).1)
        (fun i => (hread _ i).2)).1 hholds)
  · intro other hother
    by_cases hne : other = payload
    · subst hne
      exact hfits
    · exact (cellFits_congr (hsame other hne)).2 (hs.fits other hother)
  · intro first second hfirst hsecond hne heq
    by_cases hfirst' : first = payload <;> by_cases hsecond' : second = payload
    · rw [hfirst', hsecond']
    · rw [bufferOf_congr (hsame second hsecond'), hfirst'] at heq
      rw [hfirst'] at hne
      rcases hbuffer with hkept | hnew
      · rw [hfirst'] at hfirst
        rw [hkept] at hne heq
        exact hfirst'.trans (hs.apart payload second hfirst hsecond hne heq)
      · rw [heq] at hnew
        exact absurd hnew (hnewBuffer second hsecond)
    · rw [bufferOf_congr (hsame first hfirst')] at hne heq
      rw [hsecond'] at heq
      rcases hbuffer with hkept | hnew
      · rw [hsecond'] at hsecond
        rw [hkept] at heq
        exact (hs.apart first payload hfirst hsecond hne heq).trans hsecond'.symm
      · rw [← heq] at hnew
        exact absurd hnew (hnewBuffer first hfirst)
    · rw [bufferOf_congr (hsame first hfirst')] at hne heq
      rw [bufferOf_congr (hsame second hsecond')] at heq
      exact hs.apart first second hfirst hsecond hne heq

theorem setCell_buffer (hs : ReachHolds s) (hreach : Reached s payload) {buffer : ℕ} {cell : Cell}
    (hbuffer : bufferOf s.heap.contents payload = buffer) (hpos : buffer ≠ 0)
    (hold : IsBuffer (s.heap.contents buffer)) (hcell : IsBuffer cell)
    (hedges : ∀ target, Holds (s.heap.contents.set buffer cell) payload target →
      InHeap s.heap target → Holds s.heap.contents payload target ∨
        Reached s target ∧ (Marked s.heap payload → Marked s.heap target)) :
    Mutates s ⟨CellHeap.setCell s.heap buffer cell, s.roots⟩ (fun _ => False) := by
  have hsame : ∀ other, other ≠ buffer →
      (s.heap.contents.set buffer cell) other = s.heap.contents other :=
    fun other hne => set_other _ _ hne
  have hset : IsBuffer (s.heap.contents.set buffer cell buffer) := by
    rw [set_same]
    exact hcell
  have hbufferOf : ∀ other, bufferOf (s.heap.contents.set buffer cell) other =
      bufferOf s.heap.contents other := by
    intro other
    by_cases hne : other = buffer
    · rw [hne, bufferOf_of_isBuffer hold, bufferOf_of_isBuffer hset]
    · exact bufferOf_congr (hsame other hne)
  refine setCell_mutates hs (fun _ hnew => hnew.elim) ?_ ?_ ?_
  · intro other target hother hholds hin
    by_cases hne : other = buffer
    · rw [hne] at hholds
      exact absurd hholds (not_holds_of_isBuffer hset)
    by_cases howner : other = payload
    · subst howner
      exact (hedges target hholds hin).imp id .inr
    · have hother' : bufferOf s.heap.contents other ≠ buffer := by
        intro heq
        refine howner (hs.apart other payload hother hreach ?_ (heq.trans hbuffer.symm))
        rw [heq]
        exact hpos
      exact .inl ((holds_congr (hsame other hne) (valueAt_congr (hsame _ hother'))
        (elementAt_congr (hsame _ hother'))).1 hholds)
  · intro other hother
    by_cases hne : other = buffer
    · rw [hne]
      exact cellFits_of_isBuffer hset
    · exact (cellFits_congr (hsame other hne)).2 (hs.fits other hother)
  · intro first second hfirst hsecond hne heq
    rw [hbufferOf] at hne heq
    rw [hbufferOf] at heq
    exact hs.apart first second hfirst hsecond hne heq

/-! ## Allocation -/

/-- A block that was just allocated and cannot be reached yet. -/
structure Spare (s : Mutator) (payload : ℕ) : Prop where
  live : Live s.heap payload
  unreached : ¬ Reached s payload
  marked : Marked s.heap payload

/-- What changes of blocks that cannot be reached leave as it is. -/
structure HeapKeeps (s s' : Mutator) : Prop where
  holds : ReachHolds s'
  region : s'.heap.arenas.regionStart = s.heap.arenas.regionStart ∧
    s'.heap.arenas.regionEnd = s.heap.arenas.regionEnd
  roots : s'.roots = s.roots
  reached : ∀ payload, Reached s' payload ↔ Reached s payload
  live : ∀ payload, Live s.heap payload → Live s'.heap payload
  marked : ∀ payload, Live s.heap payload → (Marked s'.heap payload ↔ Marked s.heap payload)
  cells : ∀ payload, Reached s payload → s'.heap.contents payload = s.heap.contents payload

theorem HeapKeeps.trans {s'' : Mutator} (h : HeapKeeps s s') (h' : HeapKeeps s' s'') : HeapKeeps s s'' := by
  refine ⟨h'.holds, ⟨h'.region.1.trans h.region.1, h'.region.2.trans h.region.2⟩,
    h'.roots.trans h.roots, fun p => (h'.reached p).trans (h.reached p),
    fun p hp => h'.live p (h.live p hp),
    fun p hp => (h'.marked p (h.live p hp)).trans (h.marked p hp), ?_⟩
  intro p hp
  rw [h'.cells p ((h.reached p).2 hp), h.cells p hp]

theorem HeapKeeps.inHeap (h : HeapKeeps s s') : InHeap s'.heap payload ↔ InHeap s.heap payload :=
  inHeap_congr h.region

theorem HeapKeeps.spare (h : HeapKeeps s s') (hspare : Spare s payload) : Spare s' payload :=
  ⟨h.live payload hspare.live, fun hreach => hspare.unreached ((h.reached payload).1 hreach),
    (h.marked payload hspare.live).2 hspare.marked⟩

theorem reached_of_cells (hregion : s'.heap.arenas.regionStart = s.heap.arenas.regionStart ∧
      s'.heap.arenas.regionEnd = s.heap.arenas.regionEnd) (hroots : s'.roots = s.roots)
    (hcell : ∀ other, Reached s other → s'.heap.contents other = s.heap.contents other)
    (hbuffer : ∀ other, Reached s other →
      s'.heap.contents (bufferOf s.heap.contents other) =
        s.heap.contents (bufferOf s.heap.contents other))
    (hreach : Reached s payload) : Reached s' payload := by
  induction hreach with
  | root slot hin =>
    rw [← hroots] at hin ⊢
    exact .root slot ((inHeap_congr hregion).2 hin)
  | step hbefore hholds hin ih =>
    refine .step ih ?_ ((inHeap_congr hregion).2 hin)
    exact (holds_congr (hcell _ hbefore) (valueAt_congr (hbuffer _ hbefore))
      (elementAt_congr (hbuffer _ hbefore))).2 hholds

theorem alloc_keeps (hs : ReachHolds s) {sid size : ℕ} {heap : CellHeap}
    (halloc : s.heap.alloc (runtimeTypes host) sid size = some (heap, payload)) :
    payload = 0 ∧ heap = s.heap ∨
      payload ≠ 0 ∧ HeapKeeps s ⟨heap, s.roots⟩ ∧ Spare ⟨heap, s.roots⟩ payload ∧
        ¬ Live s.heap payload ∧ heap.contents = s.heap.contents.set payload (.object fun _ => .null) := by
  rcases CollectorHolds.alloc hs.heap halloc with hnone | ⟨hne, hnew⟩
  · exact .inl hnone
  obtain ⟨hholds, hfresh, hlive, hwords⟩ := Allocates.live hs.heap hnew
  obtain ⟨block, hpayload, hout, header, _, _, hcycle, hheap⟩ := hnew.handedOut
  have hcontents : heap.contents = s.heap.contents.set payload (.object fun _ => .null) :=
    hnew.contents
  have hregion : heap.arenas.regionStart = s.heap.arenas.regionStart ∧
      heap.arenas.regionEnd = s.heap.arenas.regionEnd := ⟨hout.regionStart, hout.regionEnd⟩
  have hmarked : ∀ other, Live s.heap other → (Marked heap other ↔ Marked s.heap other) := by
    intro other hother
    rw [Marked, Marked, storedCycle, storedCycle, hwords other hother, hnew.currentPass]
  have hlivePayload : Live heap payload := (hlive payload).2 (.inr rfl)
  have hin : InHeap s.heap payload :=
    (inHeap_congr hregion).1 (CollectorHolds.inHeap hholds hlivePayload)
  have hunreached : ¬ Reached s payload := fun hreach => hfresh (hs.live payload hreach)
  have hcell : ∀ other, Reached s other → heap.contents other = s.heap.contents other := by
    intro other hother
    rw [hcontents]
    exact set_other _ _ fun heq => hunreached (by rw [← heq]; exact hother)
  have hbuffer : ∀ other, Reached s other → heap.contents (bufferOf s.heap.contents other) =
      s.heap.contents (bufferOf s.heap.contents other) := by
    intro other hother
    rw [hcontents]
    exact set_other _ _ (bufferOf_ne hother hin hunreached)
  have hmutates : Mutates s ⟨heap, s.roots⟩ (fun _ => False) := by
    refine
      { heap := hholds
        region := hregion
        live := fun other hother => (hlive other).2 (.inl (hs.live other (hother.resolve_right id)))
        marked := fun other hother => hmarked other (hs.live other hother)
        fresh := fun _ hnew => hnew.elim
        roots := fun slot hslot => .inl (.root slot hslot)
        edges := ?_
        fits := ?_
        apart := ?_ }
    · intro other target hother hholds _
      exact .inl ((holds_congr (hcell other hother) (valueAt_congr (hbuffer other hother))
        (elementAt_congr (hbuffer other hother))).1 hholds)
    · intro other hother
      have hother := hother.resolve_right id
      exact (cellFits_congr (hcell other hother)).2 (hs.fits other hother)
    · intro first second hfirst hsecond hne heq
      have hfirst := hfirst.resolve_right id
      have hsecond := hsecond.resolve_right id
      change bufferOf heap.contents first ≠ 0 at hne
      change bufferOf heap.contents first = bufferOf heap.contents second at heq
      rw [bufferOf_congr (hcell first hfirst)] at hne
      rw [bufferOf_congr (hcell first hfirst), bufferOf_congr (hcell second hsecond)] at heq
      exact hs.apart first second hfirst hsecond hne heq
  refine .inr ⟨hne, ⟨hmutates.holds hs, hregion, rfl, fun other =>
    ⟨fun hother => (hmutates.reached hother).resolve_right id,
      reached_of_cells hregion rfl hcell hbuffer⟩,
    fun other hother => (hlive other).2 (.inl hother), hmarked, hcell⟩,
    ⟨hlivePayload, fun hreach => ?_, ?_⟩, hfresh, hcontents⟩
  · exact hunreached ((hmutates.reached hreach).resolve_right id)
  · change storedCycle heap payload = heap.currentPass
    rw [storedCycle, hpayload, headerOf_payloadOf, hheap, write_same, hnew.currentPass]
    exact hcycle.trans (Nat.mod_eq_of_lt hs.heap.pass)

theorem setCell_keeps (hs : ReachHolds s) (hspare : Spare s payload) (cell : Cell) :
    HeapKeeps s ⟨CellHeap.setCell s.heap payload cell, s.roots⟩ := by
  have hmutates := setCell_unreached hs hspare.live hspare.unreached cell
  have hin := CollectorHolds.inHeap hs.heap hspare.live
  have hcell : ∀ other, Reached s other →
      (s.heap.contents.set payload cell) other = s.heap.contents other :=
    fun other hother => set_other _ _ fun heq => hspare.unreached (by rw [← heq]; exact hother)
  refine ⟨hmutates.holds hs, ⟨rfl, rfl⟩, rfl, fun other =>
    ⟨fun hother => (hmutates.reached hother).resolve_right id,
      reached_of_cells ⟨rfl, rfl⟩ rfl hcell fun other hother => ?_⟩,
    fun _ => id, fun _ _ => Iff.rfl, hcell⟩
  exact set_other _ _ (bufferOf_ne hother hin hspare.unreached)

/-! ## New objects -/

/-- An object, a map or an array that holds nothing. -/
def IsBlank : Cell → Prop
  | .object fields => ∀ i, fields i = .null
  | .map m => m.size = 0 ∧ m.capacity = 0 ∧ m.keys = 0 ∧ m.values = 0
  | .array a => a.size = 0 ∧ a.capacity = 0 ∧ a.data = 0
  | _ => False

theorem isBlank_spec (h : IsBlank (c payload)) :
    (∀ target, Holds c payload target → target = 0) ∧ CellFits c payload ∧
      bufferOf c payload = 0 := by
  cases hc : c payload with
  | object fields =>
    rw [hc] at h
    refine ⟨?_, by simp [CellFits, hc], by simp [bufferOf, hc]⟩
    intro target hholds
    rw [Holds, hc] at hholds
    obtain ⟨i, rfl⟩ := hholds
    rw [h i]
    rfl
  | map m =>
    rw [hc] at h
    obtain ⟨hsize, hcapacity, hkeys, hvalues⟩ := h
    refine ⟨?_, by simp [CellFits, hc, hsize, hcapacity], by simp [bufferOf, hc, hvalues]⟩
    intro target hholds
    rw [Holds, hc] at hholds
    simpa [hsize, hkeys, hvalues] using hholds
  | array a =>
    rw [hc] at h
    obtain ⟨hsize, hcapacity, hdata⟩ := h
    refine ⟨?_, by simp [CellFits, hc, hsize, hcapacity], by simp [bufferOf, hc, hdata]⟩
    intro target hholds
    rw [Holds, hc] at hholds
    simpa [hsize, hdata] using hholds
  | keys sids => rw [hc] at h; exact h.elim
  | values variants => rw [hc] at h; exact h.elim
  | elements pointers => rw [hc] at h; exact h.elim
  | scalars words => rw [hc] at h; exact h.elim

theorem setRoot_holds (hs : ReachHolds s) {slot : ℕ} {value : Variant}
    (hvalue : InHeap s.heap value.address → Reached s value.address ∨
      Spare s value.address ∧ IsBlank (s.heap.contents value.address)) :
    ReachHolds (s.setRoot s.heap slot value) := by
  have hmutates : Mutates s (s.setRoot s.heap slot value) fun other =>
      other = value.address ∧ Spare s other ∧ IsBlank (s.heap.contents other) := by
    refine
      { heap := hs.heap
        region := ⟨rfl, rfl⟩
        live := ?_
        marked := fun _ _ => Iff.rfl
        fresh := ?_
        roots := ?_
        edges := fun _ _ _ hholds _ => .inl hholds
        fits := ?_
        apart := ?_ }
    · rintro other (hreach | ⟨_, hspare, _⟩)
      · exact hs.live other hreach
      · exact hspare.live
    · rintro other ⟨_, hspare, hblank⟩
      refine ⟨hspare.marked, fun target hholds hin => hin.1 ?_⟩
      exact (isBlank_spec hblank).1 target hholds
    · intro other hin
      by_cases hslot : other = slot
      · have hroot : (s.setRoot s.heap slot value).roots other = value := if_pos hslot
        rw [hroot] at hin ⊢
        exact (hvalue hin).imp id fun hnew => ⟨rfl, hnew⟩
      · have hroot : (s.setRoot s.heap slot value).roots other = s.roots other := if_neg hslot
        rw [hroot] at hin ⊢
        exact .inl (.root other hin)
    · rintro other (hreach | ⟨_, _, hblank⟩)
      · exact hs.fits other hreach
      · exact (isBlank_spec hblank).2.1
    · rintro first second hfirst hsecond hne heq
      rcases hfirst with hfirst | ⟨_, _, hblank⟩
      · rcases hsecond with hsecond | ⟨_, _, hblank⟩
        · exact hs.apart first second hfirst hsecond hne heq
        · exact absurd (heq.trans (isBlank_spec hblank).2.2) hne
      · exact absurd (isBlank_spec hblank).2.2 hne
  exact hmutates.holds hs

theorem Live.lt_bound (hs : ReachHolds s) (hlive : Live s.heap payload) :
    payload < 2 ^ 64 := by
  obtain ⟨hblock, hpayload⟩ := Live.block hlive
  obtain ⟨_, hhigh, _⟩ := HeapHolds.liveBlock_owned hs.heap.heap hblock
  have hbound := hs.bound
  have hshift : payload = Collector.headerOf payload + 8 := hpayload
  omega

theorem pointerTo_address (h : payload < 2 ^ 64) :
    (CellHeap.pointerTo payload).address = payload := by
  rw [CellHeap.pointerTo, Variant.address, BitVec.toNat_ofNat, Nat.mod_eq_of_lt h]

theorem newObject_holds (hs : ReachHolds s) (slot : ℕ) {sid size : ℕ} {heap : CellHeap}
    {cell : Cell} (hblank : IsBlank cell)
    (halloc : s.heap.alloc (runtimeTypes host) sid size = some (heap, payload)) :
    ReachHolds (s.setRoot (if payload = 0 then heap else CellHeap.setCell heap payload cell) slot
      (CellHeap.pointerTo payload)) := by
  rcases alloc_keeps hs halloc with ⟨rfl, rfl⟩ | ⟨hne, hkeeps, hspare, _, _⟩
  · rw [if_pos rfl]
    exact setRoot_holds hs fun hin => absurd rfl hin.1
  · rw [if_neg hne]
    have hset := setCell_keeps hkeeps.holds hspare cell
    have haddress := pointerTo_address (Live.lt_bound hset.holds (hset.spare hspare).live)
    refine setRoot_holds hset.holds fun _ => .inr ?_
    rw [haddress]
    refine ⟨hset.spare hspare, ?_⟩
    change IsBlank (heap.contents.set payload cell payload)
    rw [set_same]
    exact hblank

theorem isBlank_blankCell (sid : ℕ) : IsBlank (CellHeap.blankCell sid) := by
  rw [CellHeap.blankCell]
  split
  · exact ⟨rfl, rfl, rfl, rfl⟩
  split
  · exact ⟨rfl, rfl, rfl⟩
  · exact fun _ => rfl

/-! ## Maps -/

theorem InRegister.reached {value : Variant} (h : InRegister s value)
    (hin : InHeap s.heap value.address) : Reached s value.address := by
  obtain ⟨slot, rfl⟩ := h
  exact .root slot hin

theorem setKey_holds (hs : ReachHolds s) {buffer i : ℕ} {key : Word} {heap : CellHeap}
    (hset : CellHeap.setKey s.heap buffer i key = some heap) :
    ReachHolds ⟨heap, s.roots⟩ ∧ ∃ sids sids', s.heap.contents buffer = .keys sids ∧
      heap = CellHeap.setCell s.heap buffer (.keys sids') := by
  rw [CellHeap.setKey] at hset
  cases hc : s.heap.contents buffer with
  | keys sids =>
    simp only [hc, Option.some.injEq] at hset
    subst hset
    refine ⟨?_, sids, _, rfl, rfl⟩
    have hcell : ∀ other, other ≠ buffer →
        (s.heap.contents.set buffer (.keys (sids.set i key))) other = s.heap.contents other :=
      fun other hne => set_other _ _ hne
    have hself : (s.heap.contents.set buffer (.keys (sids.set i key))) buffer =
        .keys (sids.set i key) := set_same _ _ _
    have hread : ∀ other j,
        (s.heap.contents.set buffer (.keys (sids.set i key))).valueAt other j =
          s.heap.contents.valueAt other j ∧
        (s.heap.contents.set buffer (.keys (sids.set i key))).elementAt other j =
          s.heap.contents.elementAt other j := by
      intro other j
      by_cases hne : other = buffer
      · subst hne
        simp [Cells.valueAt, Cells.elementAt, hself, hc]
      · exact ⟨valueAt_congr (hcell other hne) j, elementAt_congr (hcell other hne) j⟩
    have hbufferOf : ∀ other,
        bufferOf (s.heap.contents.set buffer (.keys (sids.set i key))) other =
          bufferOf s.heap.contents other := by
      intro other
      by_cases hne : other = buffer
      · subst hne
        simp [bufferOf, hself, hc]
      · exact bufferOf_congr (hcell other hne)
    refine (setCell_mutates hs (fun _ hnew => hnew.elim) ?_ ?_ ?_ :
      Mutates s _ fun _ => False).holds hs
    · intro other target _ hholds _
      by_cases hne : other = buffer
      · subst hne
        rw [Holds, hself] at hholds
        exact hholds.elim
      · exact .inl ((holds_congr (hcell other hne) (fun j => (hread _ j).1)
          (fun j => (hread _ j).2)).1 hholds)
    · intro other hother
      by_cases hne : other = buffer
      · subst hne
        simp [CellFits, hself]
      · exact (cellFits_congr (hcell other hne)).2 (hs.fits other hother)
    · intro first second hfirst hsecond hne heq
      rw [hbufferOf] at hne heq
      rw [hbufferOf] at heq
      exact hs.apart first second hfirst hsecond hne heq
  | object fields => simp [hc] at hset
  | map m => simp [hc] at hset
  | array a => simp [hc] at hset
  | values variants => simp [hc] at hset
  | elements pointers => simp [hc] at hset
  | scalars words => simp [hc] at hset

theorem getD_set {α : Type} (l : List α) (i j : ℕ) (x d : α) :
    (l.set i x).getD j d = l.getD j d ∨ j = i ∧ (l.set i x).getD j d = x := by
  by_cases hji : j = i
  · subst hji
    by_cases hlt : j < l.length
    · right
      simp [List.getD_eq_getElem?_getD, hlt]
    · left
      rw [List.set_eq_of_length_le (by omega)]
  · left
    simp [List.getD_eq_getElem?_getD, Ne.symm hji]

theorem setValue_holds (hs : ReachHolds s) (hreach : Reached s payload) {m : RuntimeMap}
    (hcell : s.heap.contents payload = .map m) (hpos : m.values ≠ 0) {i : ℕ} {value : Variant}
    (hvalue : InRegister s value) (hmay : MayStore s payload value) {heap : CellHeap}
    (hset : CellHeap.setValue s.heap m.values i value = some heap) :
    ReachHolds ⟨heap, s.roots⟩ ∧ ∃ variants, s.heap.contents m.values = .values variants ∧
      heap = CellHeap.setCell s.heap m.values (.values (variants.set i value)) := by
  rw [CellHeap.setValue] at hset
  have hbuffer : bufferOf s.heap.contents payload = m.values := by rw [bufferOf, hcell]
  cases hc : s.heap.contents m.values with
  | values variants =>
    simp only [hc, Option.some.injEq] at hset
    subst hset
    refine ⟨?_, variants, rfl, rfl⟩
    have hne : payload ≠ m.values := by
      intro heq
      rw [← heq, hcell] at hc
      cases hc
    refine (setCell_buffer hs hreach hbuffer hpos ?_ ?_ ?_).holds hs
    · rw [hc]
      trivial
    · trivial
    · intro target hholds hin
      rw [Holds, set_other _ _ hne, hcell] at hholds
      rw [Holds, hcell]
      rcases hholds with hkeys | hvalues | ⟨j, hj, rfl⟩
      · exact .inl (.inl hkeys)
      · exact .inl (.inr (.inl hvalues))
      · have hread : (s.heap.contents.set m.values (.values (variants.set i value))).valueAt
            m.values j = (variants.set i value).getD j .null := by
          rw [Cells.valueAt, set_same]
        have hread' : s.heap.contents.valueAt m.values j = variants.getD j .null := by
          rw [Cells.valueAt, hc]
        rw [hread] at hin ⊢
        rcases getD_set variants i j value .null with hsame | ⟨_, hnew⟩
        · rw [hsame]
          exact .inl (.inr (.inr ⟨j, hj, by rw [hread']⟩))
        · rw [hnew] at hin ⊢
          exact .inr ⟨InRegister.reached hvalue hin, fun hmarked => hmay hmarked hin⟩
  | object fields => simp [hc] at hset
  | map m => simp [hc] at hset
  | array a => simp [hc] at hset
  | keys variants => simp [hc] at hset
  | elements pointers => simp [hc] at hset
  | scalars words => simp [hc] at hset

/-- A native function changes cells only: the headers and the registers are as they were. -/
structure CellsOnly (s s' : Mutator) : Prop where
  arenas : s'.heap.arenas = s.heap.arenas
  words : s'.heap.words = s.heap.words
  currentPass : s'.heap.currentPass = s.heap.currentPass
  roots : s'.roots = s.roots

theorem CellsOnly.setCell (s : Mutator) (payload : ℕ) (cell : Cell) :
    CellsOnly s ⟨CellHeap.setCell s.heap payload cell, s.roots⟩ := ⟨rfl, rfl, rfl, rfl⟩

theorem CellsOnly.trans {s'' : Mutator} (h : CellsOnly s s') (h' : CellsOnly s' s'') :
    CellsOnly s s'' :=
  ⟨h'.arenas.trans h.arenas, h'.words.trans h.words, h'.currentPass.trans h.currentPass,
    h'.roots.trans h.roots⟩

theorem CellsOnly.inHeap (h : CellsOnly s s') : InHeap s'.heap payload ↔ InHeap s.heap payload := by
  rw [InHeap, InHeap, h.arenas]

theorem CellsOnly.marked (h : CellsOnly s s') :
    Marked s'.heap payload ↔ Marked s.heap payload := by
  rw [Marked, Marked, storedCycle, storedCycle, h.words, h.currentPass]

theorem CellsOnly.inRegister (h : CellsOnly s s') {value : Variant} (hvalue : InRegister s value) :
    InRegister s' value := by
  obtain ⟨slot, hslot⟩ := hvalue
  exact ⟨slot, by rw [h.roots, hslot]⟩

theorem CellsOnly.mayStore (h : CellsOnly s s') {value : Variant}
    (hmay : MayStore s payload value) : MayStore s' payload value := by
  intro hmarked hin
  exact h.marked.2 (hmay (h.marked.1 hmarked) (h.inHeap.1 hin))

theorem appendEntry_holds (hs : ReachHolds s) {map value : Variant} (hmap : InRegister s map)
    (hin : InHeap s.heap map.address) {m : RuntimeMap}
    (hcell : s.heap.contents map.address = .map m) (hpos : m.values ≠ 0) {key : Word}
    (hvalue : InRegister s value) (hmay : MayStore s map.address value) {heap : CellHeap}
    (happend : CellHeap.appendEntry s.heap map.address m key value = some heap) :
    ReachHolds ⟨heap, s.roots⟩ := by
  rw [CellHeap.appendEntry, Option.bind_eq_some_iff] at happend
  obtain ⟨keyed, hkey, hrest⟩ := happend
  rw [Option.map_eq_some_iff] at hrest
  obtain ⟨valued, hset, rfl⟩ := hrest
  obtain ⟨hs₁, sids, sids', hsids, hkeyed⟩ := setKey_holds hs hkey
  have h₁ : CellsOnly s ⟨keyed, s.roots⟩ := by
    rw [hkeyed]
    exact CellsOnly.setCell s _ _
  have hreach₁ : Reached ⟨keyed, s.roots⟩ map.address :=
    InRegister.reached (h₁.inRegister hmap) (h₁.inHeap.2 hin)
  have hcell₁ : keyed.contents map.address = .map m := by
    rw [hkeyed, ← hcell]
    refine set_other _ _ fun heq => ?_
    rw [← heq, hcell] at hsids
    cases hsids
  obtain ⟨hs₂, variants, hvariants, hvalued⟩ := setValue_holds hs₁ hreach₁ hcell₁ hpos
    (h₁.inRegister hvalue) (h₁.mayStore hmay) hset
  have h₂ : CellsOnly s ⟨valued, s.roots⟩ := by
    refine h₁.trans ?_
    rw [hvalued]
    exact CellsOnly.setCell ⟨keyed, s.roots⟩ _ _
  have hcell₂ : valued.contents map.address = .map m := by
    rw [hvalued, ← hcell₁]
    refine set_other _ _ fun heq => ?_
    rw [← heq, hcell₁] at hvariants
    cases hvariants
  have hbuffer : valued.contents m.values = .values (variants.set m.size value) := by
    rw [hvalued]
    exact set_same _ _ _
  have hne : m.values ≠ map.address := by
    intro heq
    rw [heq, hcell₂] at hbuffer
    cases hbuffer
  have hreach₂ : Reached ⟨valued, s.roots⟩ map.address :=
    InRegister.reached (h₂.inRegister hmap) (h₂.inHeap.2 hin)
  refine (setCell_container hs₂ (by rw [hcell₂]; exact id) id (fun _ hnew => hnew.elim) ?_ ?_ ?_ :
    Mutates ⟨valued, s.roots⟩ _ fun _ => False).holds hs₂
  · intro target hholds hin'
    rw [Holds, set_same] at hholds
    rw [Holds, hcell₂]
    rcases hholds with hkeys | hvalues | ⟨j, hj, rfl⟩
    · exact .inl (.inl hkeys)
    · exact .inl (.inr (.inl hvalues))
    · have hread := valueAt_congr (set_other valued.contents
        (.map { m with size := (m.size + 1) % 2 ^ 32 }) hne) j
      rw [hread] at hin' ⊢
      by_cases hlt : j < m.size
      · exact .inl (.inr (.inr ⟨j, hlt, rfl⟩))
      · have hj' : j = m.size := by
          have hmod := Nat.mod_le (m.size + 1) (2 ^ 32)
          change j < (m.size + 1) % 2 ^ 32 at hj
          omega
        have hlast : valued.contents.valueAt m.values j = value ∨
            valued.contents.valueAt m.values j = .null := by
          rw [valueAt_values hbuffer, hj']
          by_cases hroom : m.size < variants.length
          · left
            simp [List.getD_eq_getElem?_getD, hroom]
          · right
            rw [List.set_eq_of_length_le (by omega), List.getD_eq_getElem?_getD,
              List.getElem?_eq_none (by omega)]
            rfl
        rcases hlast with hnew | hnull
        · rw [hnew] at hin' ⊢
          exact .inr (.inr ⟨InRegister.reached (h₂.inRegister hvalue) hin',
            fun hmarked => h₂.mayStore hmay hmarked hin'⟩)
        · rw [hnull] at hin'
          exact absurd rfl hin'.1
  · rw [CellFits, set_same]
    exact fun hzero => absurd hzero hpos
  · left
    rw [bufferOf, bufferOf, set_same, hcell₂]

theorem growMap_holds (hs : ReachHolds s) (hreach : Reached s payload) {m : RuntimeMap}
    (hcell : s.heap.contents payload = .map m) {heap : CellHeap} {grown : Option RuntimeMap}
    (hgrow : CellHeap.growMap (runtimeTypes host) s.heap payload m = some (heap, grown)) :
    ReachHolds ⟨heap, s.roots⟩ ∧
      (∀ other, InHeap heap other ↔ InHeap s.heap other) ∧
      (∀ other, Live s.heap other → (Marked heap other ↔ Marked s.heap other)) ∧
      ∀ m' ∈ grown, heap.contents payload = .map m' ∧ m'.values ≠ 0 := by
  rw [CellHeap.growMap, Option.bind_eq_some_iff] at hgrow
  obtain ⟨⟨h₁, k⟩, halloc, hrest⟩ := hgrow
  rcases alloc_keeps hs halloc with ⟨rfl, rfl⟩ | ⟨hk, hkeeps, hspare, _, _⟩
  · simp only [if_true, Option.some.injEq, Prod.mk.injEq] at hrest
    obtain ⟨rfl, rfl⟩ := hrest
    exact ⟨hs, fun _ => Iff.rfl, fun _ _ => Iff.rfl, by simp⟩
  simp only [hk, if_false] at hrest
  rw [Option.map_eq_some_iff] at hrest
  obtain ⟨⟨h₂, v⟩, halloc', hrest⟩ := hrest
  rcases alloc_keeps hkeeps.holds halloc' with ⟨rfl, rfl⟩ | ⟨hv, hkeeps', hspare', hfresh, _⟩
  · simp only [if_true, Prod.mk.injEq] at hrest
    obtain ⟨rfl, rfl⟩ := hrest
    exact ⟨hkeeps.holds, fun _ => hkeeps.inHeap, hkeeps.marked, by simp⟩
  simp only [hv, if_false, Prod.mk.injEq] at hrest
  obtain ⟨rfl, rfl⟩ := hrest
  have hkv : k ≠ v := by
    rintro rfl
    exact hfresh hspare.live
  -- the new buffers are written while nothing leads to them
  generalize hkeysCell : ((List.range (if m.capacity = 0 then 8 else m.capacity * 2 % 2 ^ 32)).map
    fun i => if i < m.size then h₂.contents.keyAt m.keys i else 0) = newKeys
  generalize hnewValues : ((List.range (if m.capacity = 0 then 8
    else m.capacity * 2 % 2 ^ 32)).map
    fun i => if i < m.size then h₂.contents.valueAt m.values i else .null) = newValues
  have hkeeps₂ := hkeeps.trans hkeeps'
  have hspareK : Spare ⟨h₂, s.roots⟩ k := hkeeps'.spare hspare
  have hkeeps₃ := setCell_keeps hkeeps₂.holds hspareK (.keys newKeys)
  have hspareV := hkeeps₃.spare hspare'
  have hkeeps₄ := setCell_keeps hkeeps₃.holds hspareV (.values newValues)
  have hkeeps := (hkeeps₂.trans hkeeps₃).trans hkeeps₄
  have hspareV := hkeeps₄.spare hspareV
  have hspareK := hkeeps₄.spare (hkeeps₃.spare hspareK)
  generalize hbuilt : CellHeap.setCell (CellHeap.setCell h₂ k (.keys newKeys)) v
    (.values newValues) = built at *
  have hreach' : Reached ⟨built, s.roots⟩ payload := (hkeeps.reached payload).2 hreach
  have hcell' : built.contents payload = .map m := (hkeeps.cells payload hreach).trans hcell
  have hcellV : built.contents v = .values newValues := by
    rw [← hbuilt]
    exact set_same _ _ _
  have hcellK : built.contents k = .keys newKeys := by
    rw [← hbuilt]
    exact (set_other _ _ hkv).trans (set_same _ _ _)
  have hneV : v ≠ payload := by
    rintro rfl
    exact hspareV.unreached hreach'
  have hold : ∀ i, built.contents.valueAt m.values i = h₂.contents.valueAt m.values i := by
    intro i
    have hbufferOf : bufferOf s.heap.contents payload = m.values := by rw [bufferOf, hcell]
    have hbuffer : ∀ other, Spare ⟨built, s.roots⟩ other → m.values ≠ other := by
      intro other hother
      have hne := bufferOf_ne hreach' (CollectorHolds.inHeap hkeeps.holds.heap hother.live)
        hother.unreached
      rw [bufferOf, hcell'] at hne
      exact hne
    rw [← hbuilt]
    exact valueAt_congr ((set_other _ _ (hbuffer v hspareV)).trans
      (set_other _ _ (hbuffer k hspareK))) i
  have hmutates : Mutates ⟨built, s.roots⟩ ⟨CellHeap.setCell built payload
      (.map { m with
        keys := k
        values := v
        capacity := if m.capacity = 0 then 8 else m.capacity * 2 % 2 ^ 32 }), s.roots⟩
      (fun other => other = k ∨ other = v) := by
    refine setCell_container hkeeps.holds (by rw [hcell']; exact id) id ?_ ?_ ?_ ?_
    · rintro other (rfl | rfl)
      · exact ⟨hspareK.live, hspareK.unreached, hspareK.marked, by rw [hcellK]; trivial⟩
      · exact ⟨hspareV.live, hspareV.unreached, hspareV.marked, by rw [hcellV]; trivial⟩
    · intro target hholds hin
      rw [Holds, set_same] at hholds
      rw [Holds, hcell']
      rcases hholds with rfl | rfl | ⟨j, hj, rfl⟩
      · exact .inr (.inl (.inl rfl))
      · exact .inr (.inl (.inr rfl))
      · change j < m.size at hj
        change InHeap _ (Cells.valueAt _ v j).address at hin
        change _ ∨ _ ∨ Reached _ (Cells.valueAt _ v j).address ∧ _
        rw [valueAt_congr (set_other built.contents _ hneV) j] at hin
        have hread : built.contents.valueAt v j = built.contents.valueAt m.values j ∨
            built.contents.valueAt v j = .null := by
          rw [valueAt_values hcellV, ← hnewValues, List.getD_eq_getElem?_getD, List.getElem?_map]
          by_cases hlt : j < (if m.capacity = 0 then 8 else m.capacity * 2 % 2 ^ 32)
          · left
            rw [List.getElem?_range hlt, Option.map_some, Option.getD_some, if_pos hj, ← hold]
          · right
            rw [List.getElem?_eq_none (by rw [List.length_range]; omega)]
            rfl
        rcases hread with hsame | hnull
        · left
          refine .inr (.inr ⟨j, hj, ?_⟩)
          rw [← hsame]
          change _ = (Cells.valueAt _ v j).address
          rw [valueAt_congr (set_other built.contents _ hneV) j]
        · rw [hnull] at hin
          exact absurd rfl hin.1
    · rw [CellFits, set_same]
      exact fun hzero => absurd hzero hv
    · right
      right
      rw [bufferOf, set_same]
  refine ⟨hmutates.holds hkeeps.holds, fun _ => hkeeps.inHeap, hkeeps.marked, ?_⟩
  intro m' hm'
  obtain rfl := Option.some.inj hm'
  exact ⟨set_same _ _ _, hv⟩

theorem mapSet_holds (hs : ReachHolds s) {map value result : Variant} {key : Word}
    (hmap : InRegister s map) (hin : map.address ≠ 0 → InHeap s.heap map.address)
    (hvalue : InRegister s value) (hmay : MayStore s map.address value) {heap : CellHeap}
    (hset : CellHeap.mapSet (runtimeTypes host) s.heap map key value = some (heap, result)) :
    ReachHolds ⟨heap, s.roots⟩ := by
  rw [CellHeap.mapSet] at hset
  by_cases hzero : map.address = 0
  · rw [if_pos hzero, Option.some.injEq, Prod.mk.injEq] at hset
    rw [← hset.1]
    exact hs
  rw [if_neg hzero] at hset
  have hin := hin hzero
  have hreach := InRegister.reached hmap hin
  cases hcell : s.heap.contents map.address with
  | map m =>
    have hfits := hs.fits _ hreach
    rw [CellFits, hcell] at hfits
    simp only [hcell] at hset
    cases hfind : CellHeap.findKey s.heap.contents m key with
    | some i =>
      simp only [hfind] at hset
      rw [Option.map_eq_some_iff] at hset
      obtain ⟨_, hset, heq⟩ := hset
      rw [Prod.mk.injEq] at heq
      obtain ⟨rfl, _⟩ := heq
      have hpos : m.values ≠ 0 := by
        intro hnull
        have hmem := List.mem_of_find?_eq_some hfind
        rw [(hfits hnull).1] at hmem
        cases hmem
      exact (setValue_holds hs hreach hcell hpos hvalue hmay hset).1
    | none =>
      simp only [hfind] at hset
      by_cases hroom : m.size < m.capacity
      · rw [if_pos hroom, Option.map_eq_some_iff] at hset
        obtain ⟨_, happend, heq⟩ := hset
        rw [Prod.mk.injEq] at heq
        obtain ⟨rfl, _⟩ := heq
        have hpos : m.values ≠ 0 := by
          intro hnull
          have := (hfits hnull).2
          omega
        exact appendEntry_holds hs hmap hin hcell hpos hvalue hmay happend
      · rw [if_neg hroom, Option.bind_eq_some_iff] at hset
        obtain ⟨⟨grownHeap, grown⟩, hgrow, hset⟩ := hset
        obtain ⟨hgrown, hinGrown, hmarked, hcellGrown⟩ := growMap_holds hs hreach hcell hgrow
        cases grown with
        | none =>
          simp only [Option.some.injEq, Prod.mk.injEq] at hset
          rw [← hset.1]
          exact hgrown
        | some m' =>
          obtain ⟨hcell', hpos⟩ := hcellGrown m' rfl
          simp only at hset
          rw [Option.map_eq_some_iff] at hset
          obtain ⟨_, happend, heq⟩ := hset
          rw [Prod.mk.injEq] at heq
          obtain ⟨rfl, _⟩ := heq
          have hmay' : MayStore ⟨grownHeap, s.roots⟩ map.address value := by
            intro hm hinValue
            have hinValue := (hinGrown _).1 hinValue
            have hlive := hs.live _ (InRegister.reached hvalue hinValue)
            exact (hmarked _ hlive).2 (hmay ((hmarked _ (hs.live _ hreach)).1 hm) hinValue)
          exact appendEntry_holds hgrown hmap ((hinGrown _).2 hin) hcell' hpos hvalue hmay' happend
  | object fields => simp [hcell] at hset
  | array a => simp [hcell] at hset
  | keys sids => simp [hcell] at hset
  | values variants => simp [hcell] at hset
  | elements pointers => simp [hcell] at hset
  | scalars words => simp [hcell] at hset

/-! ## Arrays -/

theorem appendElement_holds (hs : ReachHolds s) {array value : Variant}
    (harray : InRegister s array) (hin : InHeap s.heap array.address) {a : RuntimeArray}
    (hcell : s.heap.contents array.address = .array a) (hpos : a.data ≠ 0)
    (hvalue : InRegister s value) (hmay : MayStore s array.address value) {heap : CellHeap}
    {result : Except VmErrorKind Unit}
    (happend : CellHeap.appendElement fpu s.heap array.address a value = some (heap, result)) :
    ReachHolds ⟨heap, s.roots⟩ := by
  have hreach := InRegister.reached harray hin
  have hbuffer : bufferOf s.heap.contents array.address = a.data := by rw [bufferOf, hcell]
  -- the element is written first, and then the size
  have hsized : ∀ cell : Cell, IsBuffer (s.heap.contents a.data) → IsBuffer cell →
      (∀ j, j ≠ a.size ∧ Cells.elementAt (s.heap.contents.set a.data cell) a.data j =
          s.heap.contents.elementAt a.data j ∨
        Cells.elementAt (s.heap.contents.set a.data cell) a.data j = 0 ∨
        j = a.size ∧ Cells.elementAt (s.heap.contents.set a.data cell) a.data j =
          value.address) →
      ReachHolds ⟨CellHeap.setCell (CellHeap.setCell s.heap a.data cell) array.address
        (.array { a with size := (a.size + 1) % 2 ^ 32 }), s.roots⟩ := by
    intro cell hold hnew helements
    have hne : a.data ≠ array.address := by
      intro heq
      rw [heq, hcell] at hold
      exact hold
    have hcell₁ : (s.heap.contents.set a.data cell) array.address = .array a :=
      (set_other _ _ (Ne.symm hne)).trans hcell
    have h₁ := CellsOnly.setCell s a.data cell
    have hs₁ : ReachHolds ⟨CellHeap.setCell s.heap a.data cell, s.roots⟩ := by
      refine (setCell_buffer hs hreach hbuffer hpos hold hnew ?_).holds hs
      intro target hholds hin'
      rw [Holds, hcell₁] at hholds
      rw [Holds, hcell]
      rcases hholds with hdata | ⟨j, hj, rfl⟩
      · exact .inl (.inl hdata)
      · rcases helements j with ⟨_, hsame⟩ | hzero | ⟨hsize, _⟩
        · exact .inl (.inr ⟨j, hj, hsame.symm⟩)
        · rw [hzero] at hin'
          exact absurd rfl hin'.1
        · omega
    refine (setCell_container hs₁ ?_ id (fun _ hnew => hnew.elim) ?_ ?_ ?_ :
      Mutates ⟨CellHeap.setCell s.heap a.data cell, s.roots⟩ _ fun _ => False).holds hs₁
    · change ¬ IsBuffer ((s.heap.contents.set a.data cell) array.address)
      rw [hcell₁]
      exact id
    · intro target hholds hin'
      rw [Holds, set_same] at hholds
      change Holds (s.heap.contents.set a.data cell) array.address target ∨ _
      rw [Holds, hcell₁]
      rcases hholds with hdata | ⟨j, hj, rfl⟩
      · exact .inl (.inl hdata)
      · change j < (a.size + 1) % 2 ^ 32 at hj
        rw [elementAt_congr (set_other _ _ hne) j] at hin' ⊢
        by_cases hlt : j < a.size
        · exact .inl (.inr ⟨j, hlt, rfl⟩)
        · change InHeap _ (Cells.elementAt (s.heap.contents.set a.data cell) a.data j) at hin'
          change _ ∨ _ ∨ Reached _ (Cells.elementAt (s.heap.contents.set a.data cell) a.data j) ∧
            (_ → Marked _ (Cells.elementAt (s.heap.contents.set a.data cell) a.data j))
          rcases helements j with ⟨hother, _⟩ | hzero | ⟨_, hvalueAt⟩
          · have hmod := Nat.mod_le (a.size + 1) (2 ^ 32)
            omega
          · rw [hzero] at hin'
            exact absurd rfl hin'.1
          · rw [hvalueAt] at hin' ⊢
            exact .inr (.inr ⟨InRegister.reached (h₁.inRegister hvalue) hin',
              fun hmarked => h₁.mayStore hmay hmarked hin'⟩)
    · rw [CellFits, set_same]
      exact fun hzero => absurd hzero hpos
    · left
      change bufferOf _ _ = bufferOf (s.heap.contents.set a.data cell) _
      rw [bufferOf, bufferOf, set_same, hcell₁]
  rw [CellHeap.appendElement] at happend
  cases hc : s.heap.contents a.data with
  | scalars words =>
    simp only [hc] at happend
    split at happend
    · cases hint : value.toInt fpu with
      | ok i =>
        simp only [hint, Option.some.injEq, Prod.mk.injEq] at happend
        rw [← happend.1]
        refine hsized _ (by rw [hc]; trivial) trivial fun j => .inr (.inl ?_)
        rw [Cells.elementAt, set_same]
      | error e =>
        simp only [hint, Option.some.injEq, Prod.mk.injEq] at happend
        rw [← happend.1]
        exact hs
    · cases happend
  | elements pointers =>
    simp only [hc] at happend
    split at happend
    · cases happend
    · simp only [Option.some.injEq, Prod.mk.injEq] at happend
      rw [← happend.1]
      refine hsized _ (by rw [hc]; trivial) trivial fun j => ?_
      rw [elementAt_elements (set_same _ _ _), elementAt_elements hc]
      by_cases hj : j = a.size
      · subst hj
        by_cases hroom : a.size < pointers.length
        · exact .inr (.inr ⟨rfl, by simp [List.getD_eq_getElem?_getD, hroom]⟩)
        · refine .inr (.inl ?_)
          rw [List.set_eq_of_length_le (by omega), List.getD_eq_getElem?_getD,
            List.getElem?_eq_none (by omega)]
          rfl
      · refine .inl ⟨hj, ?_⟩
        rcases getD_set pointers a.size j value.address 0 with hsame | ⟨heq, _⟩
        · exact hsame
        · exact absurd heq hj
  | object fields => simp [hc] at happend
  | map m => simp [hc] at happend
  | array a => simp [hc] at happend
  | keys sids => simp [hc] at happend
  | values variants => simp [hc] at happend

theorem growArray_holds (hs : ReachHolds s) (hreach : Reached s payload) {a : RuntimeArray}
    (hcell : s.heap.contents payload = .array a) {heap : CellHeap} {grown : Option RuntimeArray}
    (hgrow : CellHeap.growArray (runtimeTypes host) s.heap payload a = some (heap, grown)) :
    ReachHolds ⟨heap, s.roots⟩ ∧
      (∀ other, InHeap heap other ↔ InHeap s.heap other) ∧
      (∀ other, Live s.heap other → (Marked heap other ↔ Marked s.heap other)) ∧
      ∀ a' ∈ grown, heap.contents payload = .array a' ∧ a'.data ≠ 0 := by
  rw [CellHeap.growArray, Option.map_eq_some_iff] at hgrow
  obtain ⟨⟨h₁, v⟩, halloc, hrest⟩ := hgrow
  rcases alloc_keeps hs halloc with ⟨rfl, rfl⟩ | ⟨hv, hkeeps, hspare, _, _⟩
  · simp only [if_true, Prod.mk.injEq] at hrest
    obtain ⟨rfl, rfl⟩ := hrest
    exact ⟨hs, fun _ => Iff.rfl, fun _ _ => Iff.rfl, by simp⟩
  simp only [hv, if_false, Prod.mk.injEq] at hrest
  obtain ⟨rfl, rfl⟩ := hrest
  generalize hbuffer : (if CellHeap.elemSizeOf a = 4 then
      Cell.scalars ((List.range (if a.capacity = 0 then 8 else a.capacity * 2 % 2 ^ 32)).map
        fun i => if decide (a.data ≠ 0 ∧ i < a.size) = true then h₁.contents.scalarAt a.data i
          else 0)
    else
      Cell.elements ((List.range (if a.capacity = 0 then 8 else a.capacity * 2 % 2 ^ 32)).map
        fun i => if decide (a.data ≠ 0 ∧ i < a.size) = true then h₁.contents.elementAt a.data i
          else 0)) = buffer
  have hisBuffer : IsBuffer buffer := by
    rw [← hbuffer]
    split <;> trivial
  have hkeeps' := setCell_keeps hkeeps.holds hspare buffer
  have hspare' := hkeeps'.spare hspare
  have hkeeps := hkeeps.trans hkeeps'
  generalize hbuilt : CellHeap.setCell h₁ v buffer = built at *
  have hreach' : Reached ⟨built, s.roots⟩ payload := (hkeeps.reached payload).2 hreach
  have hcell' : built.contents payload = .array a := (hkeeps.cells payload hreach).trans hcell
  have hcellV : built.contents v = buffer := by
    rw [← hbuilt]
    exact set_same _ _ _
  have hneV : v ≠ payload := by
    rintro rfl
    exact hspare'.unreached hreach'
  have hold : ∀ i, built.contents.elementAt a.data i = h₁.contents.elementAt a.data i := by
    intro i
    have hne := bufferOf_ne hreach' (CollectorHolds.inHeap hkeeps.holds.heap hspare'.live)
      hspare'.unreached
    rw [bufferOf, hcell'] at hne
    rw [← hbuilt]
    exact elementAt_congr (set_other _ _ hne) i
  -- an element of the new buffer is null or was one of the old
  have hread : ∀ j < a.size, built.contents.elementAt v j = built.contents.elementAt a.data j ∨
      built.contents.elementAt v j = 0 := by
    intro j hj
    by_cases hscalar : CellHeap.elemSizeOf a = 4
    · right
      rw [Cells.elementAt, hcellV, ← hbuffer, if_pos hscalar]
    · rw [if_neg hscalar] at hbuffer
      rw [elementAt_elements (hcellV.trans hbuffer.symm), List.getD_eq_getElem?_getD,
        List.getElem?_map]
      by_cases hlt : j < (if a.capacity = 0 then 8 else a.capacity * 2 % 2 ^ 32)
      · rw [List.getElem?_range hlt, Option.map_some, Option.getD_some]
        by_cases hdata : a.data ≠ 0
        · left
          rw [if_pos (by simp [hdata, hj]), ← hold]
        · right
          rw [if_neg (by simp [hdata])]
      · right
        rw [List.getElem?_eq_none (by rw [List.length_range]; omega)]
        rfl
  have hmutates : Mutates ⟨built, s.roots⟩ ⟨CellHeap.setCell built payload
      (.array { a with
        data := v
        capacity := if a.capacity = 0 then 8 else a.capacity * 2 % 2 ^ 32 }), s.roots⟩
      (fun other => other = v) := by
    refine setCell_container hkeeps.holds (by rw [hcell']; exact id) id ?_ ?_ ?_ ?_
    · rintro other rfl
      exact ⟨hspare'.live, hspare'.unreached, hspare'.marked, by rw [hcellV]; exact hisBuffer⟩
    · intro target hholds hin
      rw [Holds, set_same] at hholds
      rw [Holds, hcell']
      rcases hholds with rfl | ⟨j, hj, rfl⟩
      · exact .inr (.inl rfl)
      · change j < a.size at hj
        change InHeap _ (Cells.elementAt _ v j) at hin
        rw [elementAt_congr (set_other built.contents _ hneV) j] at hin
        rcases hread j hj with hsame | hzero
        · left
          refine .inr ⟨j, hj, ?_⟩
          rw [← hsame]
          change _ = Cells.elementAt _ v j
          rw [elementAt_congr (set_other built.contents _ hneV) j]
        · rw [hzero] at hin
          exact absurd rfl hin.1
    · rw [CellFits, set_same]
      exact fun hzero => absurd hzero hv
    · right
      rw [bufferOf, set_same]
  refine ⟨hmutates.holds hkeeps.holds, fun _ => hkeeps.inHeap, hkeeps.marked, ?_⟩
  intro a' ha'
  obtain rfl := Option.some.inj ha'
  exact ⟨set_same _ _ _, hv⟩

theorem arrayPush_holds (hs : ReachHolds s) {array value : Variant}
    {result : Except VmErrorKind Variant} (harray : InRegister s array)
    (hin : array.address ≠ 0 → InHeap s.heap array.address) (hvalue : InRegister s value)
    (hmay : MayStore s array.address value) {heap : CellHeap}
    (hpush : CellHeap.arrayPush (runtimeTypes host) fpu s.heap array value =
      some (heap, result)) : ReachHolds ⟨heap, s.roots⟩ := by
  rw [CellHeap.arrayPush] at hpush
  by_cases hzero : array.address = 0
  · simp only [if_pos hzero, Option.some.injEq, Prod.mk.injEq] at hpush
    rw [← hpush.1]
    exact hs
  simp only [if_neg hzero] at hpush
  have hin := hin hzero
  have hreach := InRegister.reached harray hin
  cases hcell : s.heap.contents array.address with
  | array a =>
    have hfits := hs.fits _ hreach
    rw [CellFits, hcell] at hfits
    simp only [hcell] at hpush
    by_cases hroom : a.size < a.capacity
    · rw [if_pos hroom, Option.map_eq_some_iff] at hpush
      obtain ⟨⟨pushed, _⟩, happend, heq⟩ := hpush
      rw [Prod.mk.injEq] at heq
      obtain ⟨rfl, _⟩ := heq
      have hpos : a.data ≠ 0 := by
        intro hnull
        have := (hfits hnull).2
        omega
      exact appendElement_holds hs harray hin hcell hpos hvalue hmay happend
    · rw [if_neg hroom, Option.bind_eq_some_iff] at hpush
      obtain ⟨⟨grownHeap, grown⟩, hgrow, hpush⟩ := hpush
      obtain ⟨hgrown, hinGrown, hmarked, hcellGrown⟩ := growArray_holds hs hreach hcell hgrow
      cases grown with
      | none =>
        simp only [Option.some.injEq, Prod.mk.injEq] at hpush
        rw [← hpush.1]
        exact hgrown
      | some a' =>
        obtain ⟨hcell', hpos⟩ := hcellGrown a' rfl
        simp only at hpush
        rw [Option.map_eq_some_iff] at hpush
        obtain ⟨⟨pushed, _⟩, happend, heq⟩ := hpush
        rw [Prod.mk.injEq] at heq
        obtain ⟨rfl, _⟩ := heq
        have hmay' : MayStore ⟨grownHeap, s.roots⟩ array.address value := by
          intro hm hinValue
          have hinValue := (hinGrown _).1 hinValue
          have hlive := hs.live _ (InRegister.reached hvalue hinValue)
          exact (hmarked _ hlive).2 (hmay ((hmarked _ (hs.live _ hreach)).1 hm) hinValue)
        exact appendElement_holds hgrown harray ((hinGrown _).2 hin) hcell' hpos hvalue hmay'
          happend
  | object fields => simp [hcell] at hpush
  | map m => simp [hcell] at hpush
  | keys sids => simp [hcell] at hpush
  | values variants => simp [hcell] at hpush
  | elements pointers => simp [hcell] at hpush
  | scalars words => simp [hcell] at hpush

end Soot.Analysis
