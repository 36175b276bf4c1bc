import Soot.Model.ContainerTags
import Soot.Analysis.MutatorRuns
import Soot.Analysis.HeapTypes

/-!
# Marking what script code holds

Nothing is freed while the map and array functions run, so blocks keep their headers and what they
are used for. As long as `array-data` gives out no buffer, the objects that script code has pointers
to are maps and arrays with the tags of their kinds, and what they store as pointers is what the
code has stored.
-/

set_option autoImplicit false

namespace Soot.Analysis

open Soot.Program Soot.Model

variable {heap : CellHeap} {a : RuntimeArray} {m : RuntimeMap}

variable {host : HeapHost} {fpu : FloatUnit} {s t : ScriptHeap} {h h' : CellHeap}
  {payload : ℕ}

/-! ## Delegates of the registered types -/

theorem findByIndex_registered {sid i : ℕ} {entry : ℕ × TypeDescriptor Cells}
    (hnamed : ((registeredTypes bareHost.word).map Prod.fst).findIdx? (· == sid) = some i)
    (hentry : (registeredTypes host.word)[i]? = some entry) :
    (runtimeTypes host).findByIndex ((runtimeTypes host).findIndex sid) = some entry.2 := by
  have hlt : i < (registeredTypes host.word).length := (List.getElem?_eq_some_iff.mp hentry).1
  have hnames : (registeredTypes bareHost.word).map Prod.fst =
      (registeredTypes host.word).map Prod.fst := rfl
  have hfound : (registeredTypes host.word).findIdx? (fun entry => entry.1 == sid) = some i := by
    rw [hnames, List.findIdx?_map] at hnamed
    exact hnamed
  simp only [runtimeTypes, List.findIdx?_append, hfound, Option.some_or, Option.map_some,
    Option.getD_some, Nat.add_sub_cancel, Nat.add_one_ne_zero, if_false,
    List.getElem?_append_left hlt, hentry]

theorem delegate_map : ((runtimeTypes host).findByIndex
    ((runtimeTypes host).findIndex (sidOf "runtime-map"))).bind (·.mark) =
      some markRuntimeMap := by
  rw [findByIndex_registered (i := 7) (by with_unfolding_all decide) rfl]
  rfl

/-- The delegate of a kind of arrays. -/
def arrayDelegate (word : Cells → ℕ → ℕ) : CellHeap.ArrayKind → Cells → ℕ → List ℕ
  | .ptr => markArrayPtr word
  | _ => markArrayScalar

theorem delegate_array (kind : CellHeap.ArrayKind) : ((runtimeTypes host).findByIndex
    ((runtimeTypes host).findIndex (CellHeap.arraySidFor kind))).bind (·.mark) =
      some (arrayDelegate host.word kind) := by
  cases kind with
  | i32 =>
    rw [findByIndex_registered (i := 8) (by with_unfolding_all decide) rfl]
    rfl
  | f32 =>
    rw [findByIndex_registered (i := 9) (by with_unfolding_all decide) rfl]
    rfl
  | ptr =>
    rw [findByIndex_registered (i := 10) (by with_unfolding_all decide) rfl]
    rfl

/-! ## Blocks after an allocation -/

section Blocks

variable {m m' : ArenaManager} {words : HeapWords}

/-- Arenas keep their places and classes. -/
def KeepsClasses (m m' : ArenaManager) : Prop :=
  m'.regionStart = m.regionStart ∧ ∀ (i : ℕ) (entry : ℕ × Arena), m.arenas[i]? = some entry →
    ∃ entry', m'.arenas[i]? = some entry' ∧ entry'.1 = entry.1

theorem keepsClasses_refl (m : ArenaManager) : KeepsClasses m m :=
  ⟨rfl, fun _ entry hi => ⟨entry, hi, rfl⟩⟩

theorem KeepsClasses.trans {m'' : ArenaManager} (hm : KeepsClasses m m')
    (hm' : KeepsClasses m' m'') : KeepsClasses m m'' := by
  refine ⟨hm'.1.trans hm.1, fun i entry hi => ?_⟩
  obtain ⟨entry', hi', hclass⟩ := hm.2 i entry hi
  obtain ⟨entry'', hi'', hclass'⟩ := hm'.2 i entry' hi'
  exact ⟨entry'', hi'', hclass'.trans hclass⟩

theorem keepsClasses_allocateFrom {i : ℕ} {taken : ℕ × ArenaManager}
    (halloc : m.allocateFrom words i = some taken) : KeepsClasses m taken.2 := by
  rw [ArenaManager.allocateFrom, Option.bind_eq_some_iff] at halloc
  obtain ⟨entry, hi, halloc⟩ := halloc
  rw [Option.map_eq_some_iff] at halloc
  obtain ⟨⟨_, a⟩, -, rfl⟩ := halloc
  refine ⟨rfl, fun k other hk => ?_⟩
  rw [getElem?_setArena, hk, Option.map_some]
  refine ⟨_, rfl, ?_⟩
  split <;> rfl

theorem keepsClasses_growClass {index : ℕ} (hgrow : m.growClass index = some m') :
    KeepsClasses m m' := by
  simp only [ArenaManager.growClass, Option.ite_none_left_eq_some, Option.some.injEq] at hgrow
  obtain ⟨-, rfl⟩ := hgrow
  refine ⟨rfl, fun k other hk => ⟨other, ?_, rfl⟩⟩
  exact (List.getElem?_append_left (lt_length_of_getElem? hk)).trans hk

theorem keepsClasses_allocate {size : ℕ} {result : Option ℕ}
    (halloc : m.allocate words size = (m', result)) : KeepsClasses m m' := by
  rw [ArenaManager.allocate] at halloc
  cases hclass : sizeClassFor size with
  | none =>
    simp only [hclass, Prod.mk.injEq] at halloc
    rw [← halloc.1]
    exact keepsClasses_refl m
  | some index =>
    simp only [hclass] at halloc
    cases hlast : (m.lastOfClass index).bind (m.allocateFrom words) with
    | some taken =>
      simp only [hlast, Prod.mk.injEq] at halloc
      obtain ⟨i, -, hfrom⟩ := Option.bind_eq_some_iff.mp hlast
      rw [← halloc.1]
      exact keepsClasses_allocateFrom hfrom
    | none =>
      simp only [hlast] at halloc
      cases hgrow : m.growClass index with
      | none =>
        simp only [hgrow, Prod.mk.injEq] at halloc
        rw [← halloc.1]
        exact keepsClasses_refl m
      | some grown =>
        simp only [hgrow] at halloc
        cases hfrom : grown.allocateFrom words (grown.arenas.length - 1) with
        | none =>
          simp only [hfrom, Prod.mk.injEq] at halloc
          rw [← halloc.1]
          exact keepsClasses_growClass hgrow
        | some taken =>
          simp only [hfrom, Prod.mk.injEq] at halloc
          rw [← halloc.1]
          exact (keepsClasses_growClass hgrow).trans
            (keepsClasses_allocateFrom hfrom)

end Blocks

theorem inside_of_keepsClasses (hh : CollectorHolds h) (hh' : CollectorHolds h')
    (hclasses : KeepsClasses h.arenas h'.arenas) (hlive : Live h' payload) {size : ℕ}
    (hinside : Inside h payload size) : Inside h' payload size := by
  obtain ⟨i, entry, j, hi, hj, hpayload, hfits⟩ := hinside
  obtain ⟨block, ⟨i', entry', j', hi', hj', rfl⟩, hpayload'⟩ := hlive
  have hat := hh.heap.arenas i entry hi
  have hat' := hh'.heap.arenas i' entry' hi'
  have hrange := ArenaAt.block_range hat (ArenaAt.lt_capacity hat hj)
  have hrange' := ArenaAt.block_range hat' (ArenaAt.lt_capacity hat' hj')
  have hsize := ArenaAt.size_pos hat
  have hsize' := ArenaAt.size_pos hat'
  have hblock : entry.2.block j = entry'.2.block j' := by
    rw [← headerOf_payloadOf (entry.2.block j), ← hpayload, hpayload', headerOf_payloadOf]
  have hstart : ∀ k, arenaStart h'.arenas k = arenaStart h.arenas k := by
    intro k
    rw [arenaStart, arenaStart, hclasses.1]
  rw [hstart, hstart] at hrange'
  have hsame : i' = i := by
    rcases Nat.lt_trichotomy i' i with hlt | heq | hlt
    · have hmono : arenaStart h.arenas (i' + 1) ≤ arenaStart h.arenas i := arenaStart_mono hlt
      omega
    · exact heq
    · have hmono : arenaStart h.arenas (i + 1) ≤ arenaStart h.arenas i' := arenaStart_mono hlt
      omega
  subst hsame
  obtain ⟨entry'', hi'', hclass⟩ := hclasses.2 i' entry hi
  rw [hi', Option.some.injEq] at hi''
  subst hi''
  obtain ⟨_, _, _, _, hholds⟩ := hat
  obtain ⟨_, _, _, _, hholds'⟩ := hat'
  refine ⟨i', entry', j', hi', hj', hpayload', ?_⟩
  rw [hholds'.blockSize, hclass, ← hholds.blockSize]
  exact hfits

/-! ## The invariant -/

/-- What kind of thing a block is used for. -/
inductive Shape where
  | object | map | array | keys
  | values (length : ℕ)
  | elements (length : ℕ)
  | scalars
  deriving DecidableEq

/-- The shape of a cell. -/
def shapeOf : Cell → Shape
  | .object _ => .object
  | .map _ => .map
  | .array _ => .array
  | .keys _ => .keys
  | .values variants => .values variants.length
  | .elements pointers => .elements pointers.length
  | .scalars _ => .scalars

/-- The index of the type in the header of an object. -/
def tagOf (h : CellHeap) (payload : ℕ) : ℕ :=
  (h.words (Collector.headerOf payload)).asHeader.typeIndex

/-- A heap has grown, and nothing was freed or is used for something else than before. -/
structure HeapGrows (h h' : CellHeap) : Prop where
  holds : CollectorHolds h'
  region : h'.arenas.regionStart = h.arenas.regionStart ∧
    h'.arenas.regionEnd = h.arenas.regionEnd
  live : ∀ payload, Live h payload → Live h' payload
  tag : ∀ payload, Live h payload → tagOf h' payload = tagOf h payload
  inside : ∀ payload size, Live h payload → Inside h payload size → Inside h' payload size
  shape : ∀ payload, Live h payload → shapeOf (h.contents payload) ≠ .object →
    shapeOf (h'.contents payload) = shapeOf (h.contents payload)

theorem heapGrows_refl (hh : CollectorHolds h) : HeapGrows h h :=
  ⟨hh, ⟨rfl, rfl⟩, fun _ => id, fun _ _ => rfl, fun _ _ _ => id, fun _ _ _ => rfl⟩

theorem HeapGrows.trans {h'' : CellHeap} (hg : HeapGrows h h')
    (hg' : HeapGrows h' h'') : HeapGrows h h'' := by
  have hregion := And.intro (hg'.region.1.trans hg.region.1) (hg'.region.2.trans hg.region.2)
  refine ⟨hg'.holds, hregion, ?_, ?_, ?_, ?_⟩
  · intro p hp
    exact hg'.live p (hg.live p hp)
  · intro p hp
    exact (hg'.tag p (hg.live p hp)).trans (hg.tag p hp)
  · intro p size hp hinside
    exact hg'.inside p size (hg.live p hp) (hg.inside p size hp hinside)
  · intro p hp hshape
    have hsame := hg.shape p hp hshape
    rw [← hsame]
    exact hg'.shape p (hg.live p hp) (by rw [hsame]; exact hshape)

/-- The buffers of a map: none yet, or with room for its entries. -/
def MapBuffers (h : CellHeap) (m : RuntimeMap) : Prop :=
  m = ⟨0, 0, 0, 0⟩ ∨ m.size ≤ m.capacity ∧ (Live h m.keys ∧ shapeOf (h.contents m.keys) = .keys) ∧
    Live h m.values ∧ shapeOf (h.contents m.values) = .values m.capacity ∧
    Inside h m.values (m.capacity * 16)

/-- The buffer of an array of a kind. -/
def ArrayBuffer (h : CellHeap) (kind : CellHeap.ArrayKind) (a : RuntimeArray) : Prop :=
  a.elemSize = CellHeap.elemSizeFor kind ∧
    (a.data = 0 ∧ a.size = 0 ∧ a.capacity = 0 ∨ a.size ≤ a.capacity ∧ Live h a.data ∧
      Inside h a.data (a.capacity * CellHeap.elemSizeFor kind) ∧
      shapeOf (h.contents a.data) =
        if kind = .ptr then .elements a.capacity else .scalars)

/-- A pointer is null or one that script code has got. -/
def IsHeld (held : List Variant) (target : ℕ) : Prop :=
  target = 0 ∨ ∃ word, Variant.pointer word ∈ held ∧ word.toNat = target

/-- What holds of the cell of a live block: containers have the tags of their kinds and buffers with
room, and buffers hold what was stored. -/
def CellHolds (host : HeapHost) (h : CellHeap) (held : List Variant) (payload : ℕ) : Prop :=
  match h.contents payload with
  | .map m => tagOf h payload = (runtimeTypes host).findIndex (sidOf "runtime-map") ∧
      Inside h payload 24 ∧ MapBuffers h m
  | .array a => ∃ kind,
      tagOf h payload = (runtimeTypes host).findIndex (CellHeap.arraySidFor kind) ∧
      Inside h payload 24 ∧ ArrayBuffer h kind a
  | .values variants => ∀ value ∈ variants, IsHeld held value.address
  | .elements pointers => ∀ target ∈ pointers, IsHeld held target
  | _ => True

/-- The invariant of a run. -/
structure ContainersHold (host : HeapHost) (s : ScriptHeap) : Prop where
  heap : CollectorHolds s.heap
  bound : s.heap.arenas.regionEnd ≤ 2 ^ 64
  cells : ∀ payload, Live s.heap payload → CellHolds host s.heap s.held payload
  held : ∀ value ∈ s.held, InHeap s.heap value.address → Live s.heap value.address ∧
    (shapeOf (s.heap.contents value.address) = .map ∨
      shapeOf (s.heap.contents value.address) = .array)

theorem inside_le (hh : CollectorHolds h) {size : ℕ} (hinside : Inside h payload size) :
    size ≤ 4088 := by
  obtain ⟨i, entry, j, hi, -, -, hfits⟩ := hinside
  obtain ⟨hclass, -, _, _, hholds⟩ := hh.heap.arenas i entry hi
  have hle := (classSize_spec hclass).2.1
  rw [hholds.blockSize, Collector.headerSize] at hfits
  omega

/-! ## Growing -/

theorem MapBuffers.grows (hg : HeapGrows h h') (hm : MapBuffers h m) :
    MapBuffers h' m := by
  obtain rfl | ⟨hsize, ⟨hkeys, hkeysShape⟩, hvalues, hvaluesShape, hinside⟩ := hm
  · exact .inl rfl
  refine .inr ⟨hsize, ⟨hg.live _ hkeys, ?_⟩, hg.live _ hvalues, ?_, hg.inside _ _ hvalues hinside⟩
  · rw [← hkeysShape]
    exact hg.shape _ hkeys (by simp [hkeysShape])
  · rw [← hvaluesShape]
    exact hg.shape _ hvalues (by simp [hvaluesShape])

theorem ArrayBuffer.grows {kind : CellHeap.ArrayKind} (hg : HeapGrows h h')
    (ha : ArrayBuffer h kind a) : ArrayBuffer h' kind a := by
  obtain ⟨helem, hnone | ⟨hsize, hdata, hinside, hshape⟩⟩ := ha
  · exact ⟨helem, .inl hnone⟩
  refine ⟨helem, .inr ⟨hsize, hg.live _ hdata, hg.inside _ _ hdata hinside, ?_⟩⟩
  rw [← hshape]
  refine hg.shape _ hdata ?_
  rw [hshape]
  split <;> simp

theorem IsHeld.mono {held held' : List Variant} {target : ℕ} (hheld : ∀ v ∈ held, v ∈ held')
    (ht : IsHeld held target) : IsHeld held' target := by
  obtain hzero | ⟨word, hword, heq⟩ := ht
  · exact .inl hzero
  · exact .inr ⟨word, hheld _ hword, heq⟩

theorem CellHolds.grows {held held' : List Variant} (hg : HeapGrows h h')
    (hheld : ∀ v ∈ held, v ∈ held') (hlive : Live h payload)
    (hcell : h'.contents payload = h.contents payload) (hc : CellHolds host h held payload) :
    CellHolds host h' held' payload := by
  rw [CellHolds] at hc ⊢
  rw [hcell, hg.tag payload hlive]
  cases hkind : h.contents payload with
  | map m =>
    simp only [hkind] at hc
    exact ⟨hc.1, hg.inside _ _ hlive hc.2.1, hc.2.2.grows hg⟩
  | array a =>
    simp only [hkind] at hc
    obtain ⟨kind, htag, hinside, hbuffer⟩ := hc
    exact ⟨kind, htag, hg.inside _ _ hlive hinside, hbuffer.grows hg⟩
  | values variants =>
    simp only [hkind] at hc
    exact fun value hvalue => (hc value hvalue).mono hheld
  | elements pointers =>
    simp only [hkind] at hc
    exact fun target htarget => (hc target htarget).mono hheld
  | _ => trivial

theorem ContainersHold.grows {held : List Variant} (hs : ContainersHold host s)
    (hg : HeapGrows s.heap heap) (hheld : ∀ v ∈ s.held, v ∈ held)
    (hcells : ∀ payload, Live heap payload → CellHolds host heap held payload ∨
      Live s.heap payload ∧ heap.contents payload = s.heap.contents payload)
    (hnew : ∀ v ∈ held, v ∈ s.held ∨ (InHeap heap v.address → Live heap v.address ∧
      (shapeOf (heap.contents v.address) = .map ∨ shapeOf (heap.contents v.address) = .array))) :
    ContainersHold host ⟨heap, held⟩ where
  heap := hg.holds
  bound := by
    rw [hg.region.2]
    exact hs.bound
  cells := by
    intro p hp
    obtain hc | ⟨hlive, hsame⟩ := hcells p hp
    · exact hc
    · exact (hs.cells p hlive).grows hg hheld hlive hsame
  held := by
    intro v hv hin
    obtain hold | hlive := hnew v hv
    · obtain ⟨hlive, hshape⟩ := hs.held v hold ((inHeap_congr hg.region).1 hin)
      have hkept := hg.shape v.address hlive (by rcases hshape with h | h <;> simp [h])
      exact ⟨hg.live _ hlive, by rwa [hkept]⟩
    · exact hlive hin

/-! ## Allocating and writing -/

/-- What an allocation that succeeds gives. -/
structure IsNew (host : HeapHost) (h heap : CellHeap) (payload sid size : ℕ) : Prop where
  grows : HeapGrows h heap
  live : ∀ other, Live heap other ↔ Live h other ∨ other = payload
  fresh : ¬ Live h payload
  tag : tagOf heap payload = (runtimeTypes host).findIndex sid
  inside : Inside heap payload size
  contents : heap.contents = h.contents.set payload (.object fun _ => .null)

theorem isNew_of_alloc (hh : CollectorHolds h) {sid size : ℕ} (hsize : size ≠ 0)
    (halloc : h.alloc (runtimeTypes host) sid size = some (heap, payload)) :
    payload = 0 ∧ heap = h ∨ payload ≠ 0 ∧ IsNew host h heap payload sid size := by
  obtain hnone | ⟨hne, hnew⟩ := CollectorHolds.alloc hh halloc
  · exact .inl hnone
  obtain ⟨hholds, hfresh, hlive, hwords⟩ := Allocates.live hh hnew
  obtain ⟨block, hpayload, hout, header, htype, -, -, hheap⟩ := hnew.handedOut
  have hcontents : heap.contents = h.contents.set payload (.object fun _ => .null) := hnew.contents
  have hclasses : KeepsClasses h.arenas heap.arenas := by
    rw [Collector.alloc] at halloc
    simp only [Collector.objectSize, if_neg hsize] at halloc
    split at halloc
    · cases halloc
    cases hresult : h.arenas.allocate h.words (Collector.alignedTotal size) with
    | mk arenas result =>
      have hkeeps := keepsClasses_allocate hresult
      rw [hresult] at halloc
      cases result <;> cases halloc <;> exact hkeeps
  refine .inr ⟨hne, ⟨hholds, ⟨hout.regionStart, hout.regionEnd⟩, ?_, ?_, ?_, ?_⟩, hlive, hfresh, ?_,
    ?_, hcontents⟩
  · exact fun other hother => (hlive other).2 (.inl hother)
  · intro other hother
    rw [tagOf, tagOf, hwords other hother]
  · intro other n hother
    exact inside_of_keepsClasses hh hholds hclasses ((hlive other).2 (.inl hother))
  · intro other hother _
    have hne : other ≠ payload := fun heq => hfresh (heq ▸ hother)
    rw [hcontents, set_other _ _ hne]
  · rw [tagOf, hpayload, headerOf_payloadOf, hheap, write_same]
    exact htype
  · obtain ⟨index, i, entry, j, hclass, hi, hblockSize, hj, hplace, -⟩ :=
      CollectorHolds.alloc_block hh hsize halloc hne
    have hle := sizeClassFor_le hclass
    refine ⟨i, entry, j, hi, hj, hplace, ?_⟩
    rw [hblockSize]
    rw [Collector.alignedTotal] at hle
    omega

theorem ContainersHold.alloc (hs : ContainersHold host s) {sid size : ℕ}
    (hnew : IsNew host s.heap heap payload sid size) : ContainersHold host ⟨heap, s.held⟩ := by
  refine hs.grows hnew.grows (fun _ => id) ?_ fun v hv => .inl hv
  intro other hother
  obtain hold | rfl := (hnew.live other).1 hother
  · have hne : other ≠ payload := fun heq => hnew.fresh (heq ▸ hold)
    refine .inr ⟨hold, ?_⟩
    rw [hnew.contents, set_other _ _ hne]
  · refine .inl ?_
    rw [CellHolds, hnew.contents, set_same]
    trivial

theorem setCell_grows (hh : CollectorHolds h) (cell : Cell)
    (hshape : shapeOf (h.contents payload) = .object ∨
      shapeOf cell = shapeOf (h.contents payload)) :
    HeapGrows h (CellHeap.setCell h payload cell) := by
  refine ⟨⟨hh.heap, hh.pass⟩, ⟨rfl, rfl⟩, fun _ => id, fun _ _ => rfl, fun _ _ _ => id, ?_⟩
  intro other _ hused
  change shapeOf (h.contents.set payload cell other) = _
  by_cases heq : other = payload
  · subst heq
    rw [set_same]
    exact hshape.resolve_left hused
  · rw [set_other _ _ heq]

theorem ContainersHold.write (hs : ContainersHold host s) (cell : Cell)
    (hshape : shapeOf (s.heap.contents payload) = .object ∨
      shapeOf cell = shapeOf (s.heap.contents payload))
    (hcell : CellHolds host (CellHeap.setCell s.heap payload cell) s.held payload) :
    ContainersHold host ⟨CellHeap.setCell s.heap payload cell, s.held⟩ := by
  refine hs.grows (setCell_grows hs.heap cell hshape) (fun _ => id) ?_ fun v hv => .inl hv
  intro other hother
  by_cases heq : other = payload
  · exact .inl (heq ▸ hcell)
  · exact .inr ⟨hother, set_other _ _ heq⟩

theorem ContainersHold.got (hs : ContainersHold host s) {value : Variant}
    (hvalue : InHeap s.heap value.address → Live s.heap value.address ∧
      (shapeOf (s.heap.contents value.address) = .map ∨
        shapeOf (s.heap.contents value.address) = .array)) :
    ContainersHold host ⟨s.heap, value :: s.held⟩ := by
  refine hs.grows (heapGrows_refl hs.heap) (fun v hv => .tail _ hv) ?_ ?_
  · exact fun other hother => .inr ⟨hother, rfl⟩
  · intro v hv
    obtain rfl | hv := List.mem_cons.mp hv
    · exact .inr hvalue
    · exact .inl hv

theorem Live.address (hs : ContainersHold host s) (hlive : Live s.heap payload) :
    (CellHeap.pointerTo payload).address = payload := by
  obtain ⟨hblock, hpayload⟩ := Live.block hlive
  obtain ⟨_, hhigh, _⟩ := HeapHolds.liveBlock_owned hs.heap.heap hblock
  have hbound := hs.bound
  have hshift : payload = Collector.headerOf payload + 8 := hpayload
  exact pointerTo_address (by omega)

theorem ContainersHold.make (hs : ContainersHold host s) {sid : ℕ} (cell : Cell)
    (halloc : s.heap.alloc (runtimeTypes host) sid 24 = some (heap, payload))
    (hkind : shapeOf cell = .map ∨ shapeOf cell = .array)
    (hcell : tagOf heap payload = (runtimeTypes host).findIndex sid → Inside heap payload 24 →
      CellHolds host (CellHeap.setCell heap payload cell) s.held payload) :
    ContainersHold host
      (if payload = 0 then ⟨heap, CellHeap.pointerTo 0 :: s.held⟩
        else ⟨CellHeap.setCell heap payload cell, CellHeap.pointerTo payload :: s.held⟩) := by
  obtain ⟨rfl, rfl⟩ | ⟨hne, hnew⟩ := isNew_of_alloc hs.heap (by decide) halloc
  · rw [if_pos rfl]
    exact hs.got fun hin => absurd rfl hin.1
  · rw [if_neg hne]
    have hlive : Live heap payload := (hnew.live payload).2 (.inr rfl)
    have hobject : heap.contents payload = .object fun _ => .null := by
      rw [hnew.contents, set_same]
    have hwrite := (hs.alloc hnew).write cell
      (.inl (by rw [hobject]; rfl)) (hcell hnew.tag hnew.inside)
    have haddress := Live.address (hs.alloc hnew) hlive
    refine hwrite.got fun _ => ?_
    rw [haddress]
    refine ⟨hlive, ?_⟩
    change shapeOf (heap.contents.set payload cell payload) = _ ∨
      shapeOf (heap.contents.set payload cell payload) = _
    rwa [set_same]

/-! ## Maps -/

theorem shapeOf_map {c : Cell} (hc : shapeOf c = .map) : ∃ m, c = .map m := by
  cases c <;> cases hc
  exact ⟨_, rfl⟩

theorem shapeOf_array {c : Cell} (hc : shapeOf c = .array) : ∃ a, c = .array a := by
  cases c <;> cases hc
  exact ⟨_, rfl⟩

theorem shapeOf_keys {c : Cell} (hc : shapeOf c = .keys) : ∃ sids, c = .keys sids := by
  cases c <;> cases hc
  exact ⟨_, rfl⟩

theorem shapeOf_values {c : Cell} {n : ℕ} (hc : shapeOf c = .values n) :
    ∃ variants, c = .values variants ∧ variants.length = n := by
  cases c <;> cases hc
  exact ⟨_, rfl, rfl⟩

theorem shapeOf_scalars {c : Cell} (hc : shapeOf c = .scalars) : ∃ words, c = .scalars words := by
  cases c <;> cases hc
  exact ⟨_, rfl⟩

theorem shapeOf_elements {c : Cell} {n : ℕ} (hc : shapeOf c = .elements n) :
    ∃ pointers, c = .elements pointers ∧ pointers.length = n := by
  cases c <;> cases hc
  exact ⟨_, rfl, rfl⟩

theorem HeapGrows.map (hg : HeapGrows h h') (hlive : Live h payload)
    (hcell : h.contents payload = .map m) : ∃ m', h'.contents payload = .map m' := by
  have hkept := hg.shape payload hlive (by simp [hcell, shapeOf])
  rw [hcell] at hkept
  exact shapeOf_map hkept

theorem HeapGrows.array (hg : HeapGrows h h') (hlive : Live h payload)
    (hcell : h.contents payload = .array a) : ∃ a', h'.contents payload = .array a' := by
  have hkept := hg.shape payload hlive (by simp [hcell, shapeOf])
  rw [hcell] at hkept
  exact shapeOf_array hkept

theorem isHeld_address {held : List Variant} {value : Variant} (hvalue : value ∈ held) :
    IsHeld held value.address := by
  cases value with
  | pointer word => exact .inr ⟨word, hvalue, rfl⟩
  | _ => exact .inl rfl

theorem ContainersHold.of_isHeld (hs : ContainersHold host s) {target : ℕ}
    (ht : IsHeld s.held target) (hin : InHeap s.heap target) : Live s.heap target ∧
      (shapeOf (s.heap.contents target) = .map ∨ shapeOf (s.heap.contents target) = .array) := by
  obtain rfl | ⟨word, hword, rfl⟩ := ht
  · exact absurd rfl hin.1
  · exact hs.held _ hword hin

theorem cellHolds_map {held : List Variant} (hcell : h.contents payload = .map m) :
    CellHolds host h held payload ↔
      tagOf h payload = (runtimeTypes host).findIndex (sidOf "runtime-map") ∧
        Inside h payload 24 ∧ MapBuffers h m := by
  rw [CellHolds, hcell]

theorem cellHolds_array {held : List Variant}
    (hcell : h.contents payload = .array a) : CellHolds host h held payload ↔
      ∃ kind, tagOf h payload = (runtimeTypes host).findIndex (CellHeap.arraySidFor kind) ∧
        Inside h payload 24 ∧ ArrayBuffer h kind a := by
  rw [CellHolds, hcell]

theorem ContainersHold.values (hs : ContainersHold host s) {variants : List Variant}
    (hlive : Live s.heap payload) (hcell : s.heap.contents payload = .values variants) (i : ℕ) :
    IsHeld s.held (variants.getD i .null).address := by
  have hholds := hs.cells payload hlive
  rw [CellHolds, hcell] at hholds
  rw [List.getD_eq_getElem?_getD]
  cases hi : variants[i]? with
  | none => exact .inl rfl
  | some value => exact hholds value (List.mem_of_getElem? hi)

theorem ContainersHold.writeKeys (hs : ContainersHold host s) (sids : List Word)
    (hshape : shapeOf (s.heap.contents payload) = .object ∨
      shapeOf (s.heap.contents payload) = .keys) :
    ContainersHold host ⟨CellHeap.setCell s.heap payload (.keys sids), s.held⟩ := by
  refine hs.write _ (hshape.imp id Eq.symm) ?_
  have hcell : (CellHeap.setCell s.heap payload (.keys sids)).contents payload = .keys sids :=
    set_same ..
  rw [CellHolds, hcell]
  trivial

theorem ContainersHold.writeValues (hs : ContainersHold host s) {variants : List Variant}
    (hshape : shapeOf (s.heap.contents payload) = .object ∨
      shapeOf (s.heap.contents payload) = .values variants.length)
    (hvalues : ∀ value ∈ variants, IsHeld s.held value.address) :
    ContainersHold host ⟨CellHeap.setCell s.heap payload (.values variants), s.held⟩ := by
  refine hs.write _ (hshape.imp id Eq.symm) ?_
  have hcell : (CellHeap.setCell s.heap payload (.values variants)).contents payload =
      .values variants := set_same ..
  rw [CellHolds, hcell]
  exact hvalues

theorem ContainersHold.writeMap (hs : ContainersHold host s) {m₀ m : RuntimeMap}
    (hlive : Live s.heap payload) (hcell : s.heap.contents payload = .map m₀)
    (hbuffers : MapBuffers s.heap m) :
    ContainersHold host ⟨CellHeap.setCell s.heap payload (.map m), s.held⟩ := by
  have hshape : shapeOf (Cell.map m) = shapeOf (s.heap.contents payload) := by
    rw [hcell]
    rfl
  obtain ⟨htag, hinside, -⟩ := (cellHolds_map hcell).mp (hs.cells payload hlive)
  refine hs.write _ (.inr hshape) ?_
  rw [cellHolds_map (m := m) (set_same ..)]
  exact ⟨htag, hinside, hbuffers.grows (setCell_grows hs.heap _ (.inr hshape))⟩

theorem ContainersHold.appendEntry (hs : ContainersHold host s) {m₀ m : RuntimeMap}
    (hlive : Live s.heap payload) (hcell : s.heap.contents payload = .map m₀)
    (hbuffers : MapBuffers s.heap m) (hroom : m.size < m.capacity) {key : Word} {value : Variant}
    (hvalue : value ∈ s.held)
    (happend : CellHeap.appendEntry s.heap payload m key value = some heap) :
    ContainersHold host ⟨heap, s.held⟩ ∧ HeapGrows s.heap heap := by
  obtain rfl | ⟨hsize, ⟨hkeys, hkeysShape⟩, hvalues, hvaluesShape, hinside⟩ := hbuffers
  · exact absurd hroom (Nat.lt_irrefl 0)
  obtain ⟨sids, hsids⟩ := shapeOf_keys hkeysShape
  obtain ⟨variants, hvariants, hlength⟩ := shapeOf_values hvaluesShape
  have hne : m.values ≠ m.keys := by
    intro heq
    rw [heq, hsids] at hvariants
    cases hvariants
  rw [CellHeap.appendEntry, CellHeap.setKey, hsids, Option.bind_some] at happend
  have hsetKey := hs.writeKeys (sids.set m.size key) (.inr hkeysShape)
  have hgrowsKey := setCell_grows hs.heap (.keys (sids.set m.size key)) (.inr hkeysShape.symm)
  have hvariants' :
      (CellHeap.setCell s.heap m.keys (.keys (sids.set m.size key))).contents m.values =
      .values variants := (set_other _ _ hne).trans hvariants
  rw [CellHeap.setValue, hvariants', Option.map_some, Option.some.injEq] at happend
  have hstored : ∀ v ∈ variants.set m.size value, IsHeld s.held v.address := by
    intro v hv
    obtain hold | rfl := List.mem_or_eq_of_mem_set hv
    · have hholds := hs.cells m.values hvalues
      rw [CellHolds, hvariants] at hholds
      exact hholds v hold
    · exact isHeld_address hvalue
  have hvaluesShape' : shapeOf ((CellHeap.setCell s.heap m.keys
      (.keys (sids.set m.size key))).contents m.values) =
        shapeOf (.values (variants.set m.size value)) := by
    rw [hvariants', shapeOf, shapeOf, List.length_set]
  have hsetValue := hsetKey.writeValues (.inr hvaluesShape') hstored
  have hgrowsValue := setCell_grows hsetKey.heap (.values (variants.set m.size value))
    (.inr hvaluesShape'.symm)
  have hgrows := hgrowsKey.trans hgrowsValue
  obtain ⟨m₁, hm₁⟩ := hgrows.map hlive hcell
  have hcapacity := inside_le hs.heap hinside
  have hbuffers' : MapBuffers s.heap { m with size := (m.size + 1) % 2 ^ 32 } := by
    refine .inr ⟨?_, ⟨hkeys, hkeysShape⟩, hvalues, hvaluesShape, hinside⟩
    dsimp only
    rw [Nat.mod_eq_of_lt (by omega)]
    exact hroom
  rw [← happend]
  exact ⟨hsetValue.writeMap (hgrows.live payload hlive) hm₁ (hbuffers'.grows hgrows),
    hgrows.trans (setCell_grows hsetValue.heap _ (.inr (by rw [hm₁]; rfl)))⟩

theorem ContainersHold.growMap (hs : ContainersHold host s)
    (hlive : Live s.heap payload) (hcell : s.heap.contents payload = .map m)
    (hfull : ¬ m.size < m.capacity) {grown : Option RuntimeMap}
    (hgrow : CellHeap.growMap (runtimeTypes host) s.heap payload m = some (heap, grown)) :
    ContainersHold host ⟨heap, s.held⟩ ∧ HeapGrows s.heap heap ∧ ∀ m', grown = some m' →
      heap.contents payload = .map m' ∧ MapBuffers heap m' ∧ m'.size < m'.capacity := by
  have hbuffers := ((cellHolds_map hcell).mp (hs.cells payload hlive)).2.2
  obtain ⟨newCap, hcap, hpos, hsize⟩ : ∃ newCap,
      newCap = (if m.capacity = 0 then 8 else m.capacity * 2 % 2 ^ 32) ∧ 0 < newCap ∧
        m.size < newCap := by
    refine ⟨_, rfl, ?_⟩
    obtain rfl | ⟨hle, -, -, -, hinside⟩ := hbuffers
    · simp
    · have hbound := inside_le hs.heap hinside
      split <;> omega
  rw [CellHeap.growMap] at hgrow
  simp only [← hcap] at hgrow
  rw [Option.bind_eq_some_iff] at hgrow
  obtain ⟨⟨heap₁, keys⟩, hkeys, hgrow⟩ := hgrow
  obtain ⟨rfl, rfl⟩ | ⟨hkeysNe, hnewKeys⟩ := isNew_of_alloc hs.heap (by omega) hkeys
  · simp only [if_true, Option.some.injEq, Prod.mk.injEq] at hgrow
    obtain ⟨rfl, rfl⟩ := hgrow
    exact ⟨hs, heapGrows_refl hs.heap, fun _ hnone => by cases hnone⟩
  have hs₁ := hs.alloc hnewKeys
  rw [if_neg hkeysNe, Option.map_eq_some_iff] at hgrow
  obtain ⟨⟨heap₂, values⟩, hvalues, hgrow⟩ := hgrow
  obtain ⟨rfl, rfl⟩ | ⟨hvaluesNe, hnewValues⟩ := isNew_of_alloc hs₁.heap (by omega) hvalues
  · simp only [if_true, Prod.mk.injEq] at hgrow
    obtain ⟨rfl, rfl⟩ := hgrow
    exact ⟨hs₁, hnewKeys.grows, fun _ hnone => by cases hnone⟩
  have hs₂ := hs₁.alloc hnewValues
  rw [if_neg hvaluesNe, Prod.mk.injEq] at hgrow
  obtain ⟨rfl, rfl⟩ := hgrow
  have hgrows₂ := hnewKeys.grows.trans hnewValues.grows
  have hkeysLive₁ : Live heap₁ keys := (hnewKeys.live keys).2 (.inr rfl)
  have hkeysLive : Live heap₂ keys := hnewValues.grows.live keys hkeysLive₁
  have hvaluesLive : Live heap₂ values := (hnewValues.live values).2 (.inr rfl)
  have hne : keys ≠ values := fun heq => hnewValues.fresh (heq ▸ hkeysLive₁)
  -- the copies
  generalize hnewKeysList : ((List.range newCap).map fun i =>
    if i < m.size then heap₂.contents.keyAt m.keys i else 0) = newKeys
  generalize hnewValuesList : ((List.range newCap).map fun i =>
    if i < m.size then heap₂.contents.valueAt m.values i else Variant.null) = newValues
  have hlength : newValues.length = newCap := by
    rw [← hnewValuesList, List.length_map, List.length_range]
  have hstored : ∀ value ∈ newValues, IsHeld s.held value.address := by
    intro value hvalue
    rw [← hnewValuesList, List.mem_map] at hvalue
    obtain ⟨i, -, rfl⟩ := hvalue
    split
    · rename_i hi
      obtain rfl | ⟨-, -, hold, hshape, -⟩ := hbuffers
      · exact absurd hi (Nat.not_lt_zero i)
      · have hkept := hgrows₂.shape m.values hold (by simp [hshape])
        obtain ⟨variants, hvariants, -⟩ := shapeOf_values (hkept.trans hshape)
        rw [valueAt_values hvariants]
        exact hs₂.values (hgrows₂.live _ hold) hvariants i
    · exact .inl rfl
  have hkeysBlank : shapeOf (heap₂.contents keys) = .object := by
    rw [hnewValues.contents, set_other _ _ hne, hnewKeys.contents, set_same]
    rfl
  have hs₃ := hs₂.writeKeys newKeys (.inl hkeysBlank)
  have hgrows₃ := setCell_grows hs₂.heap (.keys newKeys) (.inl hkeysBlank)
  have hvaluesBlank : shapeOf ((CellHeap.setCell heap₂ keys (.keys newKeys)).contents values) =
      .object := by
    change shapeOf (heap₂.contents.set keys (.keys newKeys) values) = _
    rw [set_other _ _ hne.symm, hnewValues.contents, set_same]
    rfl
  have hs₄ := hs₃.writeValues (.inl hvaluesBlank) hstored
  have hgrows₄ := setCell_grows hs₃.heap (.values newValues) (.inl hvaluesBlank)
  have hgrows := (hgrows₂.trans hgrows₃).trans hgrows₄
  obtain ⟨m₁, hm₁⟩ := hgrows.map hlive hcell
  have hkeysShape : shapeOf ((CellHeap.setCell (CellHeap.setCell heap₂ keys (.keys newKeys)) values
      (.values newValues)).contents keys) = .keys := by
    change shapeOf ((heap₂.contents.set keys _).set values (.values newValues) keys) = _
    rw [set_other _ _ hne, set_same]
    rfl
  have hvaluesShape : shapeOf ((CellHeap.setCell (CellHeap.setCell heap₂ keys
    (.keys newKeys)) values
      (.values newValues)).contents values) = .values newCap := by
    change shapeOf ((heap₂.contents.set keys (.keys newKeys)).set values (.values newValues)
      values) = _
    rw [set_same, shapeOf, hlength]
  have hbuffers' : MapBuffers (CellHeap.setCell (CellHeap.setCell heap₂ keys (.keys newKeys)) values
      (.values newValues)) { m with keys := keys, values := values, capacity := newCap } :=
    .inr ⟨hsize.le, ⟨hkeysLive, hkeysShape⟩, hvaluesLive, hvaluesShape, hnewValues.inside⟩
  have hgrows₅ := setCell_grows hs₄.heap
    (.map { m with keys := keys, values := values, capacity := newCap })
    (.inr (by rw [hm₁]; rfl))
  refine ⟨hs₄.writeMap (hgrows.live payload hlive) hm₁ hbuffers', hgrows.trans hgrows₅, ?_⟩
  rintro m' ⟨⟩
  exact ⟨set_same .., hbuffers'.grows hgrows₅, hsize⟩

theorem ContainersHold.again (hs : ContainersHold host s) {value : Variant}
    (hvalue : IsHeld s.held value.address) : ContainersHold host ⟨s.heap, value :: s.held⟩ :=
  hs.got fun hin => hs.of_isHeld hvalue hin

theorem isHeld_null (held : List Variant) : IsHeld held Variant.null.address := .inl rfl

theorem isHeld_ofBool (held : List Variant) (b : Bool) : IsHeld held (Variant.ofBool b).address :=
  .inl rfl

theorem MapBuffers.of_findKey {key : Word} {i : ℕ} (hm : MapBuffers h m)
    (hfind : CellHeap.findKey h.contents m key = some i) :
    i < m.size ∧ m.size ≤ m.capacity ∧
      (Live h m.keys ∧ ∃ sids, h.contents m.keys = .keys sids) ∧ Live h m.values ∧
      ∃ variants, h.contents m.values = .values variants ∧ variants.length = m.capacity := by
  have hi : i < m.size := List.mem_range.mp (List.mem_of_find?_eq_some hfind)
  obtain rfl | ⟨hsize, ⟨hkeys, hkeysShape⟩, hvalues, hvaluesShape, -⟩ := hm
  · exact absurd hi (Nat.not_lt_zero i)
  · exact ⟨hi, hsize, ⟨hkeys, shapeOf_keys hkeysShape⟩, hvalues, shapeOf_values hvaluesShape⟩

theorem ContainersHold.map_cases (hs : ContainersHold host s) {map : Variant}
    (hmap : map ∈ s.held)
    (hkind : MapOrNull s.heap map) : map.address = 0 ∨ map.address ≠ 0 ∧
      Live s.heap map.address ∧
        ∃ m, s.heap.contents map.address = .map m ∧ MapBuffers s.heap m := by
  obtain hzero | ⟨hin, m, hm⟩ := hkind
  · exact .inl hzero
  · have hlive := (hs.held map hmap hin).1
    exact .inr ⟨hin.1, hlive, m, hm, ((cellHolds_map hm).mp (hs.cells _ hlive)).2.2⟩

theorem ContainersHold.mapGet (hs : ContainersHold host s) {map default : Variant} {key : Word}
    (hmap : map ∈ s.held) (hdefault : default ∈ s.held) (hkind : MapOrNull s.heap map)
    {result : Variant}
    (hrun : CellHeap.mapGet s.heap map key default = some (heap, result)) :
    ContainersHold host ⟨heap, result :: s.held⟩ := by
  unfold CellHeap.mapGet at hrun
  obtain hzero | ⟨hne, hlive, m, hm, hbuffers⟩ := hs.map_cases hmap hkind
  · rw [if_pos hzero] at hrun
    cases hrun
    exact hs.again (isHeld_null _)
  · rw [if_neg hne, hm] at hrun
    dsimp only at hrun
    cases hfind : CellHeap.findKey s.heap.contents m key with
    | none =>
      rw [hfind] at hrun
      cases hrun
      exact hs.again (isHeld_address hdefault)
    | some i =>
      rw [hfind] at hrun
      cases hrun
      obtain ⟨-, -, -, hvalues, variants, hvariants, -⟩ := hbuffers.of_findKey hfind
      apply hs.again
      rw [valueAt_values hvariants]
      exact hs.values hvalues hvariants i

theorem ContainersHold.mapSet (hs : ContainersHold host s) {map value : Variant} {key : Word}
    (hmap : map ∈ s.held) (hvalue : value ∈ s.held) (hkind : MapOrNull s.heap map)
    {result : Variant}
    (hrun : CellHeap.mapSet (runtimeTypes host) s.heap map key value = some (heap, result)) :
    ContainersHold host ⟨heap, result :: s.held⟩ := by
  unfold CellHeap.mapSet at hrun
  obtain hzero | ⟨hne, hlive, m, hm, hbuffers⟩ := hs.map_cases hmap hkind
  · rw [if_pos hzero] at hrun
    cases hrun
    exact hs.again (isHeld_null _)
  rw [if_neg hne, hm] at hrun
  dsimp only at hrun
  cases hfind : CellHeap.findKey s.heap.contents m key with
  | some i =>
    obtain ⟨-, -, -, hvalues, variants, hvariants, -⟩ := hbuffers.of_findKey hfind
    simp only [hfind, CellHeap.setValue, hvariants, Option.map_some, Option.some.injEq,
      Prod.mk.injEq] at hrun
    obtain ⟨rfl, rfl⟩ := hrun
    apply ContainersHold.again (s := ⟨_, s.held⟩)
    · apply hs.writeValues
      · right
        rw [hvariants, shapeOf, List.length_set]
      · intro v hv
        obtain hold | rfl := List.mem_or_eq_of_mem_set hv
        · have hholds := hs.cells _ hvalues
          rw [CellHolds, hvariants] at hholds
          exact hholds v hold
        · exact isHeld_address hvalue
    · exact isHeld_address hmap
  | none =>
    rw [hfind] at hrun
    dsimp only at hrun
    by_cases hroom : m.size < m.capacity
    · rw [if_pos hroom, Option.map_eq_some_iff] at hrun
      obtain ⟨heap', happend, heq⟩ := hrun
      cases heq
      exact (hs.appendEntry hlive hm hbuffers hroom hvalue happend).1.again (isHeld_address hmap)
    · rw [if_neg hroom, Option.bind_eq_some_iff] at hrun
      obtain ⟨⟨heap₁, grown⟩, hgrow, hrun⟩ := hrun
      obtain ⟨hs₁, hgrows, hspec⟩ := hs.growMap hlive hm hroom hgrow
      cases grown with
      | none =>
        cases hrun
        exact hs₁.again (isHeld_null _)
      | some m' =>
        obtain ⟨hm', hbuffers', hroom'⟩ := hspec m' rfl
        rw [Option.map_eq_some_iff] at hrun
        obtain ⟨heap', happend, heq⟩ := hrun
        cases heq
        have happended := hs₁.appendEntry (hgrows.live _ hlive) hm' hbuffers' hroom' hvalue happend
        exact happended.1.again (isHeld_address hmap)

theorem closeGap_length {α : Type} {l : List α} {i n : ℕ} (blank : α) (hi : i < n)
    (hn : n ≤ l.length) : (CellHeap.closeGap l i n blank).length = l.length := by
  have htake : (l.take n).length = n := by rw [List.length_take, Nat.min_eq_left hn]
  rw [CellHeap.closeGap, List.length_append, List.length_eraseIdx, List.length_cons,
    List.length_drop, htake, if_pos hi]
  omega

theorem mem_of_mem_closeGap {α : Type} {l : List α} {i n : ℕ} {blank x : α}
    (hx : x ∈ CellHeap.closeGap l i n blank) : x ∈ l ∨ x = blank := by
  rw [CellHeap.closeGap, List.mem_append, List.mem_cons] at hx
  obtain htake | hblank | hdrop := hx
  · exact .inl (List.mem_of_mem_take (List.mem_of_mem_eraseIdx htake))
  · exact .inr hblank
  · exact .inl (List.mem_of_mem_drop hdrop)

theorem ContainersHold.mapDel (hs : ContainersHold host s) {map : Variant} {key : Word}
    (hmap : map ∈ s.held) (hkind : MapOrNull s.heap map) {result : Variant}
    (hrun : CellHeap.mapDel s.heap map key = some (heap, result)) :
    ContainersHold host ⟨heap, result :: s.held⟩ := by
  unfold CellHeap.mapDel at hrun
  obtain hzero | ⟨hne, hlive, m, hm, hbuffers⟩ := hs.map_cases hmap hkind
  · rw [if_pos hzero] at hrun
    cases hrun
    exact hs.again (isHeld_ofBool _ _)
  rw [if_neg hne, hm] at hrun
  dsimp only at hrun
  cases hfind : CellHeap.findKey s.heap.contents m key with
  | none =>
    rw [hfind] at hrun
    cases hrun
    exact hs.again (isHeld_ofBool _ _)
  | some i =>
    obtain ⟨hi, hsize, ⟨hkeys, sids, hsids⟩, hvalues, variants, hvariants, hlength⟩ :=
      hbuffers.of_findKey hfind
    rw [hfind] at hrun
    simp only [hsids, hvariants, Option.some.injEq, Prod.mk.injEq] at hrun
    obtain ⟨rfl, rfl⟩ := hrun
    have hne : m.values ≠ m.keys := by
      intro heq
      rw [heq, hsids] at hvariants
      cases hvariants
    have hkeysShape : shapeOf (s.heap.contents m.keys) = .keys := by rw [hsids]; rfl
    have hs₁ := hs.writeKeys (CellHeap.closeGap sids i m.size 0) (.inr hkeysShape)
    have hgrows₁ := setCell_grows hs.heap (.keys (CellHeap.closeGap sids i m.size 0))
      (.inr hkeysShape.symm)
    have hvaluesShape : shapeOf ((CellHeap.setCell s.heap m.keys
        (.keys (CellHeap.closeGap sids i m.size 0))).contents m.values) =
        .values (CellHeap.closeGap variants i m.size .null).length := by
      change shapeOf (s.heap.contents.set m.keys _ m.values) = _
      rw [set_other _ _ hne, hvariants, shapeOf, closeGap_length _ hi (hlength ▸ hsize)]
    have hstored : ∀ v ∈ CellHeap.closeGap variants i m.size .null, IsHeld s.held v.address := by
      intro v hv
      obtain hold | rfl := mem_of_mem_closeGap hv
      · have hholds := hs.cells m.values hvalues
        rw [CellHolds, hvariants] at hholds
        exact hholds v hold
      · exact isHeld_null _
    have hs₂ := hs₁.writeValues (.inr hvaluesShape) hstored
    have hgrows := hgrows₁.trans (setCell_grows hs₁.heap
      (.values (CellHeap.closeGap variants i m.size .null)) (.inr hvaluesShape.symm))
    obtain ⟨m₁, hm₁⟩ := hgrows.map hlive hm
    have hbuffers' : MapBuffers s.heap { m with size := m.size - 1 } := by
      obtain rfl | ⟨hle, hrest⟩ := hbuffers
      · exact absurd hi (Nat.not_lt_zero i)
      · exact .inr ⟨Nat.le_trans (Nat.sub_le _ _) hle, hrest⟩
    exact (hs₂.writeMap (hgrows.live _ hlive) hm₁ (hbuffers'.grows hgrows)).again
      (isHeld_ofBool _ _)

/-! ## Arrays -/

theorem ContainersHold.array_cases (hs : ContainersHold host s) {array : Variant}
    {condition : RuntimeArray → Prop} (harray : array ∈ s.held)
    (hkind : ArrayOrNull s.heap condition array) : array.address = 0 ∨ array.address ≠ 0 ∧
      Live s.heap array.address ∧ ∃ a, s.heap.contents array.address = .array a ∧ condition a ∧
        ∃ kind, tagOf s.heap array.address =
          (runtimeTypes host).findIndex (CellHeap.arraySidFor kind) ∧
            ArrayBuffer s.heap kind a := by
  obtain hzero | ⟨hin, a, ha, hcondition⟩ := hkind
  · exact .inl hzero
  · have hlive := (hs.held array harray hin).1
    obtain ⟨kind, htag, -, hbuffer⟩ := (cellHolds_array ha).mp (hs.cells _ hlive)
    exact .inr ⟨hin.1, hlive, a, ha, hcondition, kind, htag, hbuffer⟩

theorem ContainersHold.writeArray (hs : ContainersHold host s) {a₀ a : RuntimeArray}
    {kind : CellHeap.ArrayKind} (hlive : Live s.heap payload)
    (hcell : s.heap.contents payload = .array a₀)
    (htag : tagOf s.heap payload = (runtimeTypes host).findIndex (CellHeap.arraySidFor kind))
    (hbuffer : ArrayBuffer s.heap kind a) :
    ContainersHold host ⟨CellHeap.setCell s.heap payload (.array a), s.held⟩ := by
  have hshape : shapeOf (Cell.array a) = shapeOf (s.heap.contents payload) := by
    rw [hcell]
    rfl
  obtain ⟨_, -, hinside, -⟩ := (cellHolds_array hcell).mp (hs.cells payload hlive)
  refine hs.write _ (.inr hshape) ?_
  rw [cellHolds_array (a := a) (set_same ..)]
  exact ⟨kind, htag, hinside, hbuffer.grows (setCell_grows hs.heap _ (.inr hshape))⟩

theorem ContainersHold.arrayClear (hs : ContainersHold host s) {array : Variant}
    (harray : array ∈ s.held) (hkind : ArrayOrNull s.heap (fun _ => True) array)
    {result : Variant} (hrun : CellHeap.arrayClear s.heap array = some (heap, result)) :
    ContainersHold host ⟨heap, result :: s.held⟩ := by
  unfold CellHeap.arrayClear at hrun
  obtain hzero | ⟨hne, hlive, a, ha, -, kind, htag, helem, hbuffer⟩ := hs.array_cases harray hkind
  · rw [if_pos hzero] at hrun
    cases hrun
    exact hs.again (isHeld_null _)
  · rw [if_neg hne, ha] at hrun
    cases hrun
    have hbuffer' : ArrayBuffer s.heap kind { a with size := 0 } := by
      obtain ⟨hdata, -, hcapacity⟩ | ⟨-, hrest⟩ := hbuffer
      · exact ⟨helem, .inl ⟨hdata, rfl, hcapacity⟩⟩
      · exact ⟨helem, .inr ⟨Nat.zero_le _, hrest⟩⟩
    exact (hs.writeArray hlive ha htag hbuffer').again (isHeld_null _)

theorem ContainersHold.arrayData (hs : ContainersHold host s) {array : Variant}
    (harray : array ∈ s.held) (hkind : ArrayOrNull s.heap (·.data = 0) array)
    {result : Variant} (hrun : CellHeap.arrayData s.heap array = some (heap, result)) :
    ContainersHold host ⟨heap, result :: s.held⟩ := by
  unfold CellHeap.arrayData at hrun
  obtain hzero | ⟨hne, -, a, ha, hdata, -⟩ := hs.array_cases harray hkind
  · rw [if_pos hzero] at hrun
    cases hrun
    exact hs.again (.inl rfl)
  · rw [if_neg hne, ha] at hrun
    cases hrun
    apply hs.again
    rw [hdata]
    exact .inl rfl

theorem elemSizeOf_kind {kind : CellHeap.ArrayKind}
    (helem : a.elemSize = CellHeap.elemSizeFor kind) :
    CellHeap.elemSizeOf a = CellHeap.elemSizeFor kind := by
  rw [CellHeap.elemSizeOf, helem]
  cases kind <;> rfl

theorem elemSizeFor_pos (kind : CellHeap.ArrayKind) : 0 < CellHeap.elemSizeFor kind := by
  cases kind <;> decide

theorem elemSizeFor_eq_four (kind : CellHeap.ArrayKind) :
    CellHeap.elemSizeFor kind = 4 ↔ kind ≠ .ptr := by
  cases kind <;> decide

theorem ContainersHold.elements (hs : ContainersHold host s) {pointers : List ℕ}
    (hlive : Live s.heap payload) (hcell : s.heap.contents payload = .elements pointers) (i : ℕ) :
    IsHeld s.held (pointers.getD i 0) := by
  have hholds := hs.cells payload hlive
  rw [CellHolds, hcell] at hholds
  rw [List.getD_eq_getElem?_getD]
  cases hi : pointers[i]? with
  | none => exact .inl rfl
  | some target => exact hholds target (List.mem_of_getElem? hi)

theorem ContainersHold.writeElements (hs : ContainersHold host s) {pointers : List ℕ}
    (hshape : shapeOf (s.heap.contents payload) = .object ∨
      shapeOf (s.heap.contents payload) = .elements pointers.length)
    (hpointers : ∀ target ∈ pointers, IsHeld s.held target) :
    ContainersHold host ⟨CellHeap.setCell s.heap payload (.elements pointers), s.held⟩ := by
  refine hs.write _ (hshape.imp id Eq.symm) ?_
  have hcell : (CellHeap.setCell s.heap payload (.elements pointers)).contents payload =
      .elements pointers := set_same ..
  rw [CellHolds, hcell]
  exact hpointers

theorem ContainersHold.writeScalars (hs : ContainersHold host s) (words : List (BitVec 32))
    (hshape : shapeOf (s.heap.contents payload) = .object ∨
      shapeOf (s.heap.contents payload) = .scalars) :
    ContainersHold host ⟨CellHeap.setCell s.heap payload (.scalars words), s.held⟩ := by
  refine hs.write _ (hshape.imp id Eq.symm) ?_
  have hcell : (CellHeap.setCell s.heap payload (.scalars words)).contents payload =
      .scalars words := set_same ..
  rw [CellHolds, hcell]
  trivial

theorem ContainersHold.growArray (hs : ContainersHold host s)
    {kind : CellHeap.ArrayKind} (hlive : Live s.heap payload)
    (hcell : s.heap.contents payload = .array a)
    (htag : tagOf s.heap payload = (runtimeTypes host).findIndex (CellHeap.arraySidFor kind))
    (hbuffer : ArrayBuffer s.heap kind a) (hfull : ¬ a.size < a.capacity)
    {grown : Option RuntimeArray}
    (hgrow : CellHeap.growArray (runtimeTypes host) s.heap payload a = some (heap, grown)) :
    ContainersHold host ⟨heap, s.held⟩ ∧ HeapGrows s.heap heap ∧ ∀ a', grown = some a' →
      heap.contents payload = .array a' ∧ ArrayBuffer heap kind a' ∧ a'.size < a'.capacity := by
  obtain ⟨helem, hbuffer⟩ := hbuffer
  have hsizeOf := elemSizeOf_kind helem
  have hsizePos := elemSizeFor_pos kind
  obtain ⟨newCap, hcap, hpos, hsize⟩ : ∃ newCap,
      newCap = (if a.capacity = 0 then 8 else a.capacity * 2 % 2 ^ 32) ∧ 0 < newCap ∧
        a.size < newCap := by
    refine ⟨_, rfl, ?_⟩
    obtain ⟨-, hzero, hcapacity⟩ | ⟨hle, -, hinside, -⟩ := hbuffer
    · simp [hzero, hcapacity]
    · have hbound := inside_le hs.heap hinside
      have hmul := Nat.le_mul_of_pos_right a.capacity hsizePos
      split <;> omega
  rw [CellHeap.growArray] at hgrow
  simp only [← hcap, hsizeOf] at hgrow
  rw [Option.map_eq_some_iff] at hgrow
  obtain ⟨⟨heap₁, data⟩, hdata, hgrow⟩ := hgrow
  obtain ⟨rfl, rfl⟩ | ⟨hdataNe, hnew⟩ :=
    isNew_of_alloc hs.heap (Nat.mul_pos hpos hsizePos).ne' hdata
  · simp only [if_true, Prod.mk.injEq] at hgrow
    obtain ⟨rfl, rfl⟩ := hgrow
    exact ⟨hs, heapGrows_refl hs.heap, fun _ hnone => by cases hnone⟩
  have hs₁ := hs.alloc hnew
  rw [if_neg hdataNe, Prod.mk.injEq] at hgrow
  obtain ⟨rfl, rfl⟩ := hgrow
  have hdataLive : Live heap₁ data := (hnew.live data).2 (.inr rfl)
  have hblank : shapeOf (heap₁.contents data) = .object := by
    rw [hnew.contents, set_same]
    rfl
  -- the copy
  generalize hcell' : (if CellHeap.elemSizeFor kind = 4 then _ else _ : Cell) = buffer
  obtain ⟨hs₂, hshape⟩ : ContainersHold host ⟨CellHeap.setCell heap₁ data buffer, s.held⟩ ∧
      shapeOf buffer = if kind = .ptr then .elements newCap else .scalars := by
    by_cases hptr : kind = .ptr
    · have hfour : ¬ CellHeap.elemSizeFor kind = 4 := fun h =>
        (elemSizeFor_eq_four kind).mp h hptr
      rw [if_neg hfour] at hcell'
      subst hcell'
      refine ⟨hs₁.writeElements (.inl hblank) ?_, ?_⟩
      · intro target htarget
        obtain ⟨i, -, rfl⟩ := List.mem_map.mp htarget
        split
        · rename_i hcopied
          obtain ⟨hzero, -⟩ | ⟨-, hold, -, holdShape⟩ := hbuffer
          · simp [hzero] at hcopied
          · rw [if_pos hptr] at holdShape
            have hkept := hnew.grows.shape a.data hold (by simp [holdShape])
            obtain ⟨pointers, hpointers, -⟩ := shapeOf_elements (hkept.trans holdShape)
            rw [elementAt_elements hpointers]
            exact hs₁.elements (hnew.grows.live _ hold) hpointers i
        · exact .inl rfl
      · rw [if_pos hptr, shapeOf, List.length_map, List.length_range]
    · have hfour : CellHeap.elemSizeFor kind = 4 := (elemSizeFor_eq_four kind).mpr hptr
      rw [if_pos hfour] at hcell'
      subst hcell'
      refine ⟨hs₁.writeScalars _ (.inl hblank), ?_⟩
      rw [if_neg hptr]
      rfl
  have hgrows := hnew.grows.trans (setCell_grows hs₁.heap buffer (.inl hblank))
  obtain ⟨a₁, ha₁⟩ := hgrows.array hlive hcell
  have hbuffer' : ArrayBuffer (CellHeap.setCell heap₁ data buffer) kind
      { a with data := data, capacity := newCap } := by
    refine ⟨helem, .inr ⟨hsize.le, hdataLive, hnew.inside, ?_⟩⟩
    change shapeOf (heap₁.contents.set data buffer data) = _
    rw [set_same, hshape]
  have hgrows' := setCell_grows hs₂.heap (.array { a with data := data, capacity := newCap })
    (.inr (by rw [ha₁]; rfl))
  have htag' := (hgrows.tag payload hlive).trans htag
  refine ⟨hs₂.writeArray (hgrows.live _ hlive) ha₁ htag' hbuffer', hgrows.trans hgrows', ?_⟩
  rintro a' ⟨⟩
  exact ⟨set_same .., hbuffer'.grows hgrows', hsize⟩

theorem ContainersHold.appendElement (hs : ContainersHold host s)
    {kind : CellHeap.ArrayKind} (hlive : Live s.heap payload)
    (hcell : s.heap.contents payload = .array a)
    (htag : tagOf s.heap payload = (runtimeTypes host).findIndex (CellHeap.arraySidFor kind))
    (hbuffer : ArrayBuffer s.heap kind a) (hroom : a.size < a.capacity) {value : Variant}
    (hvalue : value ∈ s.held) {result : Except VmErrorKind Unit}
    (happend : CellHeap.appendElement fpu s.heap payload a value = some (heap, result)) :
    ContainersHold host ⟨heap, s.held⟩ := by
  obtain ⟨helem, ⟨-, -, hzero⟩ | ⟨hle, hdata, hinside, hshape⟩⟩ := hbuffer
  · exact absurd hroom (by omega)
  have hsizeOf := elemSizeOf_kind helem
  have hcapacity : (a.size + 1) % 2 ^ 32 ≤ a.capacity := by
    have hmod := Nat.mod_le (a.size + 1) (2 ^ 32)
    omega
  -- the fields after the buffer is written
  have hsized : ∀ {buffer : Cell},
      ContainersHold host ⟨CellHeap.setCell s.heap a.data buffer, s.held⟩ →
      shapeOf buffer = shapeOf (s.heap.contents a.data) →
      ContainersHold host ⟨CellHeap.setCell (CellHeap.setCell s.heap a.data buffer) payload
        (.array { a with size := (a.size + 1) % 2 ^ 32 }), s.held⟩ := by
    intro buffer hs₁ hsame
    have hgrows := setCell_grows hs.heap buffer (.inr hsame)
    obtain ⟨a₁, ha₁⟩ := hgrows.array hlive hcell
    have hbuffer' : ArrayBuffer s.heap kind { a with size := (a.size + 1) % 2 ^ 32 } :=
      ⟨helem, .inr ⟨hcapacity, hdata, hinside, hshape⟩⟩
    exact hs₁.writeArray hlive ha₁ htag (hbuffer'.grows hgrows)
  rw [CellHeap.appendElement] at happend
  by_cases hptr : kind = .ptr
  · have hfour : ¬ CellHeap.elemSizeOf a = 4 := by
      rw [hsizeOf]
      exact fun h => (elemSizeFor_eq_four kind).mp h hptr
    rw [if_pos hptr] at hshape
    obtain ⟨pointers, hpointers, hlength⟩ := shapeOf_elements hshape
    rw [hpointers] at happend
    simp only [hfour, if_false, Option.some.injEq, Prod.mk.injEq] at happend
    obtain ⟨rfl, -⟩ := happend
    have hsame : shapeOf (.elements (pointers.set a.size value.address)) =
        shapeOf (s.heap.contents a.data) := by
      rw [hpointers, shapeOf, shapeOf, List.length_set]
    refine hsized (hs.writeElements (.inr hsame.symm) ?_) hsame
    intro target htarget
    obtain hold | rfl := List.mem_or_eq_of_mem_set htarget
    · have hholds := hs.cells a.data hdata
      rw [CellHolds, hpointers] at hholds
      exact hholds target hold
    · exact isHeld_address hvalue
  · have hfour : CellHeap.elemSizeOf a = 4 := by
      rw [hsizeOf]
      exact (elemSizeFor_eq_four kind).mpr hptr
    rw [if_neg hptr] at hshape
    obtain ⟨words, hwords⟩ := shapeOf_scalars hshape
    rw [hwords] at happend
    simp only [hfour, if_true] at happend
    cases hint : value.toInt fpu with
    | error e =>
      rw [hint] at happend
      cases happend
      exact hs
    | ok i =>
      rw [hint] at happend
      cases happend
      have hsame : shapeOf (.scalars (words.set a.size (i.truncate 32))) =
          shapeOf (s.heap.contents a.data) := by
        rw [hwords]
        rfl
      exact hsized (hs.writeScalars _ (.inr (by rw [hwords]; rfl))) hsame

theorem ContainersHold.arrayPush (hs : ContainersHold host s) {array value : Variant}
    (harray : array ∈ s.held) (hvalue : value ∈ s.held)
    (hkind : ArrayOrNull s.heap (fun _ => True) array)
    {result : Except VmErrorKind Variant}
    (hrun : CellHeap.arrayPush (runtimeTypes host) fpu s.heap array value = some (heap, result)) :
    ContainersHold host ⟨heap, result.toOption.getD .null :: s.held⟩ := by
  unfold CellHeap.arrayPush at hrun
  obtain hzero | ⟨hne, hlive, a, ha, -, kind, htag, hbuffer⟩ := hs.array_cases harray hkind
  · rw [if_pos hzero] at hrun
    cases hrun
    exact hs.again (isHeld_null _)
  rw [if_neg hne, ha] at hrun
  dsimp only at hrun
  -- what a push returns
  have hreturn : ∀ {heap : CellHeap} (r : Except VmErrorKind Unit),
      ContainersHold host ⟨heap, s.held⟩ →
        ContainersHold host ⟨heap, (r.map fun _ => array).toOption.getD .null :: s.held⟩ := by
    intro heap r hheap
    cases r with
    | error e => exact hheap.again (isHeld_null _)
    | ok u => exact hheap.again (isHeld_address harray)
  by_cases hroom : a.size < a.capacity
  · rw [if_pos hroom, Option.map_eq_some_iff] at hrun
    obtain ⟨⟨heap', r⟩, happend, heq⟩ := hrun
    cases heq
    exact hreturn r (hs.appendElement hlive ha htag hbuffer hroom hvalue happend)
  · rw [if_neg hroom, Option.bind_eq_some_iff] at hrun
    obtain ⟨⟨heap₁, grown⟩, hgrow, hrun⟩ := hrun
    obtain ⟨hs₁, hgrows, hspec⟩ := hs.growArray hlive ha htag hbuffer hroom hgrow
    cases grown with
    | none =>
      cases hrun
      exact hs₁.again (isHeld_null _)
    | some a' =>
      obtain ⟨ha', hbuffer', hroom'⟩ := hspec a' rfl
      rw [Option.map_eq_some_iff] at hrun
      obtain ⟨⟨heap', r⟩, happend, heq⟩ := hrun
      cases heq
      exact hreturn r (hs₁.appendElement (hgrows.live _ hlive) ha'
        ((hgrows.tag _ hlive).trans htag) hbuffer' hroom' hvalue happend)

/-! ## Runs -/

theorem ContainersHold.makeMap (hs : ContainersHold host s) {result : Variant}
    (hrun : CellHeap.makeMap (runtimeTypes host) s.heap = some (heap, result)) :
    ContainersHold host ⟨heap, result :: s.held⟩ := by
  rw [CellHeap.makeMap, Option.map_eq_some_iff] at hrun
  obtain ⟨⟨heap₁, p⟩, halloc, hrun⟩ := hrun
  have hmade := hs.make (.map ⟨0, 0, 0, 0⟩) halloc (.inl rfl) fun htag hinside =>
    (cellHolds_map (set_same ..)).mpr ⟨htag, hinside, .inl rfl⟩
  dsimp only at hrun
  split at hmade
  · rw [if_pos (by assumption)] at hrun
    cases hrun
    exact hmade
  · rw [if_neg (by assumption)] at hrun
    cases hrun
    exact hmade

theorem ContainersHold.makeArray (hs : ContainersHold host s) {kind : CellHeap.ArrayKind}
    {result : Variant}
    (hrun : CellHeap.makeArray (runtimeTypes host) s.heap kind = some (heap, result)) :
    ContainersHold host ⟨heap, result :: s.held⟩ := by
  rw [CellHeap.makeArray, Option.map_eq_some_iff] at hrun
  obtain ⟨⟨heap₁, p⟩, halloc, hrun⟩ := hrun
  have hmade := hs.make (.array ⟨0, 0, 0, CellHeap.elemSizeFor kind⟩) halloc (.inr rfl)
    fun htag hinside => (cellHolds_array (set_same ..)).mpr
      ⟨kind, htag, hinside, rfl, .inl ⟨rfl, rfl, rfl⟩⟩
  dsimp only at hrun
  split at hmade
  · rw [if_pos (by assumption)] at hrun
    cases hrun
    exact hmade
  · rw [if_neg (by assumption)] at hrun
    cases hrun
    exact hmade

theorem ContainersHold.step {event : ScriptEvent} (hs : ContainersHold host s)
    (hkeeps : StepKeepsTags s event) (hstep : ScriptStep (runtimeTypes host) fpu s event t) :
    ContainersHold host t := by
  cases hstep with
  | got hout => exact hs.got fun hin => absurd hin hout
  | @called call heap result hheld hrun =>
    obtain ⟨hkind, hdata⟩ := hkeeps
    cases call with
    | makeMap => exact hs.makeMap hrun
    | makeArray kind => exact hs.makeArray hrun
    | mapGet map key default =>
      exact hs.mapGet (hheld _ (.head _)) (hheld _ (.tail _ (.head _))) hkind hrun
    | mapSet map key value =>
      exact hs.mapSet (hheld _ (.head _)) (hheld _ (.tail _ (.head _))) hkind hrun
    | mapDel map key => exact hs.mapDel (hheld _ (.head _)) hkind hrun
    | arrayPush array value =>
      obtain ⟨⟨heap', r⟩, hpush, heq⟩ := Option.map_eq_some_iff.mp hrun
      cases heq
      exact hs.arrayPush (hheld _ (.head _)) (hheld _ (.tail _ (.head _))) hkind hpush
    | arrayClear array => exact hs.arrayClear (hheld _ (.head _)) hkind hrun
    | arrayData array => exact hs.arrayData (hheld _ (.head _)) (hdata array rfl) hrun

theorem ContainersHold.run {events : List ScriptEvent} (hs : ContainersHold host s)
    (hrun : TaggedRun (runtimeTypes host) fpu s events t) : ContainersHold host t := by
  induction hrun with
  | nil => exact hs
  | cons hkeeps hstep _ ih => exact ih (hs.step hkeeps hstep)

theorem initial_containersHold {start size : ℕ} (hregion : Reserved start size)
    (hend : start + size ≤ 2 ^ 64) : ContainersHold host (.initial start size) where
  heap := initial_holds hregion _
  bound := hend
  cells := by
    rintro p ⟨block, ⟨i, entry, j, hi, -⟩, -⟩
    simp [ScriptHeap.initial, Collector.initial, ArenaManager.new] at hi
  held := nofun

/-! ## What is marked -/

theorem nonzero_held {held : List Variant} {target : ℕ} (hne : target ≠ 0)
    (htarget : IsHeld held target) : ∃ word, Variant.pointer word ∈ held ∧ word.toNat = target :=
  htarget.resolve_left hne

theorem Inside.mono {size n : ℕ} (hinside : Inside h payload size) (hle : n ≤ size) :
    Inside h payload n := by
  obtain ⟨i, entry, j, hi, hj, hpayload, hfits⟩ := hinside
  exact ⟨i, entry, j, hi, hj, hpayload, by omega⟩

theorem visits_of_delegate {delegate : Cells → ℕ → List ℕ}
    (hdelegate : delegateOf (runtimeTypes host) h payload = some delegate) :
    h.visits (runtimeTypes host) payload = delegate h.contents payload := by
  rw [delegateOf, Option.bind_eq_some_iff] at hdelegate
  obtain ⟨td, htd, hmark⟩ := hdelegate
  rw [Collector.visits, htd]
  simp only [hmark, Option.map_some, Option.getD_some]

theorem ContainersHold.marks_map (hs : ContainersHold host s)
    (hlive : Live s.heap payload) (hm : s.heap.contents payload = .map m) :
    MarksTruly (runtimeTypes host) s payload := by
  obtain ⟨htag, hinside, hbuffers⟩ := (cellHolds_map hm).mp (hs.cells payload hlive)
  have hdelegate : delegateOf (runtimeTypes host) s.heap payload = some markRuntimeMap := by
    change ((runtimeTypes host).findByIndex (tagOf s.heap payload)).bind _ = _
    rw [htag, delegate_map]
  refine ⟨hlive, ?_, ?_, ?_⟩
  · rw [hdelegate, hm]
    exact .map m
  · simp only [ReadsInside, hm]
    refine ⟨hinside, fun hne => ?_⟩
    obtain rfl | ⟨hsize, -, -, hshape, hvaluesInside⟩ := hbuffers
    · exact absurd rfl hne
    · obtain ⟨variants, hvariants, hlength⟩ := shapeOf_values hshape
      exact ⟨Inside.mono hvaluesInside (Nat.mul_le_mul_right 16 hsize), variants, hvariants,
        hlength ▸ hsize⟩
  · intro target htarget
    rw [visits_of_delegate hdelegate, markRuntimeMap, hm] at htarget
    dsimp only at htarget
    split at htarget
    · cases htarget
    obtain ⟨i, hi, htarget⟩ := List.mem_filterMap.mp htarget
    rw [Option.ite_none_left_eq_some, Option.some.injEq] at htarget
    obtain ⟨hne, rfl⟩ := htarget
    obtain rfl | ⟨-, -, hvalues, hshape, -⟩ := hbuffers
    · exact absurd (List.mem_range.mp hi) (Nat.not_lt_zero i)
    · obtain ⟨variants, hvariants, -⟩ := shapeOf_values hshape
      apply nonzero_held hne
      rw [valueAt_values hvariants]
      exact hs.values hvalues hvariants i

theorem ContainersHold.marks_array (hs : ContainersHold host s)
    (hlive : Live s.heap payload) (ha : s.heap.contents payload = .array a) :
    MarksTruly (runtimeTypes host) s payload := by
  obtain ⟨kind, htag, hinside, helem, hbuffer⟩ := (cellHolds_array ha).mp (hs.cells payload hlive)
  have hdelegate : delegateOf (runtimeTypes host) s.heap payload = some (arrayDelegate host.word kind) := by
    change ((runtimeTypes host).findByIndex (tagOf s.heap payload)).bind _ = _
    rw [htag, delegate_array]
  refine ⟨hlive, ?_, ?_, ?_⟩
  · rw [hdelegate, ha]
    cases kind with
    | ptr => exact .pointers _ a helem
    | i32 => exact .scalars a helem
    | f32 => exact .scalars a helem
  · simp only [ReadsInside, ha]
    refine ⟨hinside, fun hne height => ?_⟩
    have hptr : kind = .ptr := by
      by_contra hptr
      have hfour := (elemSizeFor_eq_four kind).mpr hptr
      omega
    obtain ⟨hzero, -⟩ | ⟨hsize, -, hdataInside, hshape⟩ := hbuffer
    · exact absurd hzero hne
    · rw [if_pos hptr] at hshape
      obtain ⟨pointers, hpointers, hlength⟩ := shapeOf_elements hshape
      rw [← helem, height] at hdataInside
      exact ⟨Inside.mono hdataInside (Nat.mul_le_mul_right 8 hsize), pointers, hpointers,
        hlength ▸ hsize⟩
  · intro target htarget
    rw [visits_of_delegate hdelegate] at htarget
    by_cases hptr : kind = .ptr
    · subst hptr
      rw [arrayDelegate, markArrayPtr, ha] at htarget
      dsimp only at htarget
      split at htarget
      · cases htarget
      obtain ⟨i, hi, htarget⟩ := List.mem_filterMap.mp htarget
      rw [Option.ite_none_left_eq_some, Option.some.injEq] at htarget
      obtain ⟨hne, rfl⟩ := htarget
      obtain ⟨-, hzero, -⟩ | ⟨-, hdata, -, hshape⟩ := hbuffer
      · rw [hzero] at hi
        exact absurd (List.mem_range.mp hi) (Nat.not_lt_zero i)
      · rw [if_pos rfl] at hshape
        obtain ⟨pointers, hpointers, -⟩ := shapeOf_elements hshape
        apply nonzero_held hne
        rw [elementAt_elements hpointers]
        exact hs.elements hdata hpointers i
    · have hscalar : arrayDelegate host.word kind = markArrayScalar := by
        cases kind with
        | ptr => exact absurd rfl hptr
        | _ => rfl
      rw [hscalar] at htarget
      cases htarget

theorem ContainersHold.reachable (hs : ContainersHold host s)
    (hreach : Reachable (runtimeTypes host) s.heap (s.held.map Variant.address) payload) :
    MarksTruly (runtimeTypes host) s payload := by
  have hmarks : ∀ {target : ℕ}, IsHeld s.held target → InHeap s.heap target →
      MarksTruly (runtimeTypes host) s target := by
    intro target htarget hin
    obtain ⟨hlive, hmap | harray⟩ := hs.of_isHeld htarget hin
    · obtain ⟨m, hm⟩ := shapeOf_map hmap
      exact hs.marks_map hlive hm
    · obtain ⟨a, ha⟩ := shapeOf_array harray
      exact hs.marks_array hlive ha
  induction hreach with
  | root hroot hin _ =>
    obtain ⟨value, hvalue, rfl⟩ := List.mem_map.mp hroot
    exact hmarks (isHeld_address hvalue) hin
  | step _ hvisits hin _ ih => exact hmarks (.inr (ih.visits _ hvisits)) hin

/-- As long as the functions are called on objects of their kinds, and no buffer is given out,
everything that script code can have marked is marked as what it is. -/
theorem truthful_of_run {start size : ℕ} (hregion : Reserved start size)
    (hend : start + size ≤ 2 ^ 64) {events : List ScriptEvent}
    (hrun : TaggedRun (runtimeTypes host) fpu (.initial start size) events s) :
    Truthful (runtimeTypes host) s :=
  fun _ => ((initial_containersHold hregion hend).run hrun).reachable

/-! ## An array that is pushed into itself -/

/-- A heap with the result of a call. -/
def ScriptHeap.after (s : ScriptHeap) (call : CellHeap.Call) : ScriptHeap :=
  let result := (call.run (runtimeTypes bareHost) bareRuntime.fpu s.heap).getD (s.heap, .null)
  ⟨result.1, result.2 :: s.held⟩

theorem scriptStep_after {call : CellHeap.Call} (harguments : ∀ v ∈ call.arguments, v ∈ s.held)
    (hsome : (call.run (runtimeTypes bareHost) bareRuntime.fpu s.heap).isSome) :
    ScriptStep (runtimeTypes bareHost) bareRuntime.fpu s (.called call) (ScriptHeap.after s call) := by
  obtain ⟨⟨heap, result⟩, hrun⟩ := Option.isSome_iff_exists.mp hsome
  rw [ScriptHeap.after, hrun]
  exact .called harguments hrun

/-- The first object of a heap. -/
def firstObject : Variant := CellHeap.pointerTo 4104

/-- A pointer array. -/
def withArray : ScriptHeap :=
  ScriptHeap.after (.initial 4096 (2 * 1024 * 1024)) (.makeArray .ptr)

/-- It is pushed into itself. -/
def withElement : ScriptHeap := ScriptHeap.after withArray (.arrayPush firstObject firstObject)

/-- Its buffer is given out. -/
def withBuffer : ScriptHeap := ScriptHeap.after withElement (.arrayData firstObject)

set_option maxRecDepth 20000 in
theorem withArray_held : withArray.held = [firstObject] := by with_unfolding_all decide

set_option maxRecDepth 20000 in
theorem withElement_held : withElement.held = [firstObject, firstObject] := by
  with_unfolding_all decide

set_option maxRecDepth 20000 in
theorem withArray_run : ScriptStep (runtimeTypes bareHost) bareRuntime.fpu
    (.initial 4096 (2 * 1024 * 1024))
    (.called (.makeArray .ptr)) withArray :=
  scriptStep_after nofun (by with_unfolding_all decide)

set_option maxRecDepth 20000 in
theorem withElement_run : ScriptStep (runtimeTypes bareHost) bareRuntime.fpu withArray
    (.called (.arrayPush firstObject firstObject)) withElement := by
  refine scriptStep_after ?_ (by with_unfolding_all decide)
  simp [CellHeap.Call.arguments, withArray_held]

set_option maxRecDepth 20000 in
theorem withBuffer_run : ScriptStep (runtimeTypes bareHost) bareRuntime.fpu withElement
    (.called (.arrayData firstObject)) withBuffer := by
  refine scriptStep_after ?_ (by with_unfolding_all decide)
  simp [CellHeap.Call.arguments, withElement_held]

set_option maxRecDepth 20000 in
theorem firstObject_arrayOrNull : ArrayOrNull withArray.heap (fun _ => True) firstObject := by
  refine .inr ⟨⟨by decide, by with_unfolding_all decide⟩, ?_⟩
  obtain ⟨a, ha⟩ := shapeOf_array (c := withArray.heap.contents firstObject.address)
    (by with_unfolding_all decide)
  exact ⟨a, ha, trivial⟩

/-- The array and the pointer in it are marked as what they are. -/
theorem truthful_withElement : Truthful (runtimeTypes bareHost) withElement := by
  have hmake : StepKeepsTags (.initial 4096 (2 * 1024 * 1024)) (.called (.makeArray .ptr)) :=
    ⟨trivial, nofun⟩
  have hpush : StepKeepsTags withArray (.called (.arrayPush firstObject firstObject)) :=
    ⟨firstObject_arrayOrNull, nofun⟩
  have hrun : TaggedRun (runtimeTypes bareHost) bareRuntime.fpu (.initial 4096 (2 * 1024 * 1024))
      [.called (.makeArray .ptr), .called (.arrayPush firstObject firstObject)] withElement :=
    .cons hmake withArray_run (.cons hpush withElement_run .nil)
  exact truthful_of_run ⟨by decide, by decide⟩ (by decide) hrun

set_option maxRecDepth 20000 in
/-- Its buffer is given out, with the tag of an array. -/
theorem not_truthful : ¬ ∀ events s, ScriptRun (runtimeTypes bareHost) bareRuntime.fpu
    (.initial 4096 (2 * 1024 * 1024)) events s → Truthful (runtimeTypes bareHost) s := by
  intro hall
  have htrue := hall _ withBuffer (.cons withArray_run (.cons withElement_run
    (.cons withBuffer_run .nil)))
  have hheld : 1052680 ∈ withBuffer.held.map Variant.address := by with_unfolding_all decide
  have hin : InHeap withBuffer.heap 1052680 := ⟨by decide, by with_unfolding_all decide⟩
  have htag := (htrue 1052680 (.root hheld hin trivial)).tag
  obtain ⟨pointers, hpointers, -⟩ := shapeOf_elements
    (show shapeOf (withBuffer.heap.contents 1052680) = .elements 8 by with_unfolding_all decide)
  rw [hpointers] at htag
  cases htag

end Soot.Analysis
