import Soot.Analysis.HeapRuns
import Soot.Analysis.ModuleRuns

/-!
# Objects fit the types of their names

A registration leaves the types that are registered, so objects of a name have the size of the
first type that was loaded under it, whatever type the name leads to later.
-/

set_option autoImplicit false

namespace Soot.Analysis

open Soot.Program Soot.Model

variable {κ : Type} {clear : κ → ℕ → ℕ → κ}

/-! ## The registry of types -/

theorem indexed_empty : Indexed (.empty : TypeTable κ) := nofun

theorem registerType_types {r : TypeTable κ} (hr : Indexed r) (td : RegisteredType κ) {sid : Word}
    {i : ℕ} (hi : r.bySid sid = some i) :
    (r.registerType td).bySid sid = some i ∧ (r.registerType td).types[i]? = r.types[i]? := by
  obtain ⟨old, hold, -⟩ := hr sid i hi
  have hlt : i < r.types.length := (List.getElem?_eq_some_iff.mp hold).1
  have hne : r.types.isEmpty = false := by
    cases htypes : r.types with
    | nil => simp [htypes] at hlt
    | cons => rfl
  unfold TypeTable.registerType
  cases hname : r.bySid td.name with
  | some k => simp [hne, hi]
  | none =>
    have hsid : sid ≠ td.name := by
      rintro rfl
      rw [hname] at hi
      cases hi
    simp [hne, hi, Function.update_of_ne hsid, List.getElem?_append_left hlt]

theorem registerType_indexed {r : TypeTable κ} (hr : Indexed r) (td : RegisteredType κ) :
    Indexed (r.registerType td) := by
  intro sid i hi
  by_cases hold : ∃ k, r.bySid sid = some k
  · obtain ⟨k, hk⟩ := hold
    obtain ⟨hsame, htypes⟩ := registerType_types hr td hk
    rw [hsame, Option.some.injEq] at hi
    subst hi
    rw [htypes]
    exact hr sid k hk
  · have hnone : r.bySid sid = none := by
      rw [Option.eq_none_iff_forall_not_mem]
      exact fun k hk => hold ⟨k, hk⟩
    unfold TypeTable.registerType at hi ⊢
    cases hname : r.bySid td.name with
    | some k => simp [hname, hnone] at hi
    | none =>
      simp only [hname] at hi ⊢
      by_cases hsid : sid = td.name
      · subst hsid
        rw [Function.update_self, Option.some.injEq] at hi
        subst hi
        exact ⟨td, by simp, rfl⟩
      · rw [Function.update_of_ne hsid, hnone] at hi
        cases hi

theorem find_of_bySid {r : TypeTable κ} (hr : Indexed r) {sid : Word} {i : ℕ}
    (hi : r.bySid sid = some i) : ∃ td, r.find sid = some td ∧ td.name = sid := by
  obtain ⟨td, htd, hname⟩ := hr sid i hi
  exact ⟨td, by simp [TypeTable.find, hi, htd], hname⟩

theorem find_eq_none_iff {r : TypeTable κ} (hr : Indexed r) {sid : Word} :
    r.find sid = none ↔ r.bySid sid = none := by
  constructor
  · intro hfind
    cases hi : r.bySid sid with
    | none => rfl
    | some i =>
      obtain ⟨td, htd, -⟩ := find_of_bySid hr hi
      rw [hfind] at htd
      cases htd
  · intro hi
    simp [TypeTable.find, hi]

theorem find_registerType {r : TypeTable κ} (hr : Indexed r) (td : RegisteredType κ) {sid : Word}
    {old : RegisteredType κ} (h : r.find sid = some old) :
    (r.registerType td).find sid = some old := by
  obtain ⟨i, hi, htype⟩ := Option.bind_eq_some_iff.mp h
  obtain ⟨hsame, htypes⟩ := registerType_types hr td hi
  simpa [TypeTable.find, hsame, htypes] using htype

theorem find_registerType_self {r : TypeTable κ} (hr : Indexed r) (td : RegisteredType κ)
    (h : r.find td.name = none) : (r.registerType td).find td.name = some td := by
  rw [find_eq_none_iff hr] at h
  simp [TypeTable.registerType, TypeTable.find, h]

theorem registerPlain_indexed {r : TypeTable κ} (hr : Indexed r) (name : Word) (size align : ℕ) :
    Indexed (r.registerPlain name size align) := by
  unfold TypeTable.registerPlain
  split
  · exact hr
  · exact registerType_indexed hr _

theorem registerBuiltinGcTypes_indexed {r : TypeTable κ} (hr : Indexed r) :
    Indexed r.registerBuiltinGcTypes := by
  unfold TypeTable.registerBuiltinGcTypes
  exact registerPlain_indexed (registerPlain_indexed (registerPlain_indexed
    (registerPlain_indexed hr _ _ _) _ _ _) _ _ _) _ _ _

theorem registerSsTypeInGc_indexed {r : TypeTable κ} (hr : Indexed r) (st : SsTypeRecord) :
    Indexed (r.registerSsTypeInGc st) := registerPlain_indexed hr _ _ _

/-- A type is registered under its name unless the name is taken. -/
theorem size_registerSsTypeInGc {r : TypeTable κ} (hr : Indexed r) (st : SsTypeRecord)
    (sid : Word) : ((r.registerSsTypeInGc st).find sid).map (·.size) =
      ((r.find sid).map (·.size)).or (if st.name = sid then some st.size else none) := by
  unfold TypeTable.registerSsTypeInGc TypeTable.registerPlain
  cases hfind : r.find st.name with
  | some td =>
    by_cases hname : st.name = sid
    · simp [← hname, hfind]
    · simp [hname]
  | none =>
    by_cases hname : st.name = sid
    · subst hname
      rw [find_registerType_self hr _ hfind]
      simp [hfind]
    · rw [find_eq_none_iff hr] at hfind
      cases hsid : r.find sid with
      | some td => simp [find_registerType hr _ hsid]
      | none =>
        rw [find_eq_none_iff hr] at hsid
        simp [TypeTable.find, TypeTable.registerType, hfind, hsid, hname,
          Function.update_of_ne (Ne.symm hname)]

theorem size_registerRecords (records : List SsTypeRecord) {r : TypeTable κ} (hr : Indexed r) :
    Indexed (records.foldl TypeTable.registerSsTypeInGc r) ∧
      ∀ sid, ((records.foldl TypeTable.registerSsTypeInGc r).find sid).map (·.size) =
        ((r.find sid).map (·.size)).or ((records.find? (·.name = sid)).map (·.size)) := by
  induction records generalizing r with
  | nil => exact ⟨hr, fun sid => by simp⟩
  | cons first records ih =>
    obtain ⟨hindexed, hsize⟩ := ih (registerSsTypeInGc_indexed hr first)
    refine ⟨hindexed, fun sid => ?_⟩
    rw [List.foldl_cons, hsize sid, size_registerSsTypeInGc hr, Option.or_assoc]
    by_cases hname : first.name = sid <;> simp [hname]

/-! ## The block of an object -/

section Blocks

variable {s s' : ArenaManager} {m : HeapWords} {i : ℕ} {block : ℕ}

theorem HeapHolds.allocateFrom_block (h : HeapHolds s m)
    (halloc : s.allocateFrom m i = some (block, s')) :
    ∃ (entry entry' : ℕ × Arena) (j : ℕ), s.arenas[i]? = some entry ∧
      s'.arenas[i]? = some entry' ∧ entry'.1 = entry.1 ∧
      entry'.2.blockSize = classSize entry.1 ∧ entry'.2.isAllocated j = true ∧
      block = entry'.2.block j := by
  rw [ArenaManager.allocateFrom, Option.bind_eq_some_iff] at halloc
  obtain ⟨entry, hi, halloc⟩ := halloc
  rw [Option.map_eq_some_iff] at halloc
  obtain ⟨⟨_, a⟩, harena, heq⟩ := halloc
  rw [Prod.mk.injEq] at heq
  obtain ⟨rfl, rfl⟩ := heq
  have hat := h.arenas i entry hi
  obtain ⟨_, _, bumped, free, hholds⟩ := hat
  have hat := h.arenas i entry hi
  obtain ⟨hcap, j, rfl, hj, hfree, hset, hwrite⟩ :=
    hholds.allocate (ArenaAt.size_pos hat) (ArenaAt.capacity_lt hat) harena
  obtain ⟨_, _, hnew⟩ := hwrite ⟨0, false, false, 0, 0⟩ rfl (by decide)
  refine ⟨entry, (entry.1, a), j, hi, ?_, rfl, hnew.blockSize, ?_, (hnew.block_eq j).symm⟩
  · rw [getElem?_setArena, hi, Option.map_some, if_pos rfl]
  · rw [hset j, if_pos rfl]

theorem HeapHolds.allocate_block (h : HeapHolds s m) {size : ℕ}
    (halloc : s.allocate m size = (s', some block)) :
    ∃ (index i : ℕ) (entry : ℕ × Arena) (j : ℕ), sizeClassFor size = some index ∧
      s'.arenas[i]? = some entry ∧ entry.2.blockSize = classSize index ∧
      entry.2.isAllocated j = true ∧ block = entry.2.block j := by
  rw [ArenaManager.allocate] at halloc
  cases hclass : sizeClassFor size with
  | none => simp [hclass] at halloc
  | some index =>
    have hlt := sizeClassFor_lt hclass
    simp only [hclass] at halloc
    cases hlast : (s.lastOfClass index).bind (s.allocateFrom m) with
    | some taken =>
      obtain ⟨b, taken⟩ := taken
      simp only [hlast, Prod.mk.injEq, Option.some.injEq] at halloc
      obtain ⟨rfl, rfl⟩ := halloc
      rw [Option.bind_eq_some_iff] at hlast
      obtain ⟨i, hi, hfrom⟩ := hlast
      obtain ⟨entry, entry', j, hold, hnew, -, hsize, hj, hblock⟩ :=
        HeapHolds.allocateFrom_block h hfrom
      have hentry : entry.1 = index := by
        have hmatch := List.find?_some hi
        simpa [hold] using hmatch
      exact ⟨index, i, entry', j, rfl, hnew, by rw [hsize, hentry], hj, hblock⟩
    | none =>
      simp only [hlast] at halloc
      cases hgrow : s.growClass index with
      | none => simp [hgrow] at halloc
      | some grown =>
        simp only [hgrow] at halloc
        obtain ⟨hholds, hstart, hend, hlive, a, harenas, hnone⟩ := HeapHolds.growClass h hlt hgrow
        have hlength : grown.arenas.length - 1 = s.arenas.length := by rw [harenas]; simp
        have hlast : grown.arenas[s.arenas.length]? = some (index, a) := by rw [harenas]; simp
        rw [hlength] at halloc
        cases hfrom : grown.allocateFrom m s.arenas.length with
        | none => simp [hfrom] at halloc
        | some taken =>
          obtain ⟨b, taken⟩ := taken
          simp only [hfrom, Prod.mk.injEq, Option.some.injEq] at halloc
          obtain ⟨rfl, rfl⟩ := halloc
          obtain ⟨entry, entry', j, hold, hnew, -, hsize, hj, hblock⟩ :=
            HeapHolds.allocateFrom_block hholds hfrom
          rw [hlast, Option.some.injEq] at hold
          subst hold
          exact ⟨index, _, entry', j, rfl, hnew, hsize, hj, hblock⟩

end Blocks

theorem CollectorHolds.alloc_block {types : TypeRegistry κ} {s s' : Collector κ}
    (h : CollectorHolds s) {sid size payload : ℕ} (hsize : size ≠ 0)
    (halloc : s.alloc types sid size = some (s', payload)) (hpayload : payload ≠ 0) :
    ∃ (index i : ℕ) (entry : ℕ × Arena) (j : ℕ),
      sizeClassFor (Collector.alignedTotal size) = some index ∧
      s'.arenas.arenas[i]? = some entry ∧ entry.2.blockSize = classSize index ∧
      entry.2.isAllocated j = true ∧ payload = Collector.payloadOf (entry.2.block j) ∧
      entry.2.block j % 16 = 0 := by
  have hobject : Collector.objectSize types sid size = size := by
    simp [Collector.objectSize, hsize]
  rw [Collector.alloc] at halloc
  simp only [hobject, if_neg hsize] at halloc
  split at halloc
  · cases halloc
  cases hresult : s.arenas.allocate s.words (Collector.alignedTotal size) with
  | mk arenas result =>
    cases result with
    | none =>
      simp only [hresult, Option.some.injEq, Prod.mk.injEq] at halloc
      exact absurd halloc.2.symm hpayload
    | some block =>
      have hout := HeapHolds.allocate h.heap hresult
      obtain ⟨index, i, entry, j, hclass, hi, hblockSize, hj, rfl⟩ :=
        HeapHolds.allocate_block h.heap hresult
      simp only [hresult, Option.some.injEq, Prod.mk.injEq] at halloc
      obtain ⟨rfl, rfl⟩ := halloc
      exact ⟨index, i, entry, j, hclass, hi, hblockSize, hj, rfl, hout.aligned⟩

/-! ## Changes of the modules -/

theorem size_change {k : TypedHeap κ} (hindexed : Indexed k.types) (event : ModuleEvent) :
    Indexed (k.change event).types ∧ ∀ sid, ((k.change event).types.find sid).map (·.size) =
      ((k.types.find sid).map (·.size)).or
        (((typesLoaded k event).find? (·.name = sid)).map (·.size)) := by
  cases event with
  | loaded path name file =>
    unfold TypedHeap.change typesLoaded
    by_cases hpath : (k.carbon.byPath path).isSome
    · simp only [if_pos hpath]
      exact ⟨hindexed, fun sid => by simp⟩
    · simp only [if_neg hpath]
      exact size_registerRecords _ hindexed
  | loadedBinary name file => exact size_registerRecords _ hindexed
  | unloaded name => exact ⟨hindexed, fun sid => by simp [TypedHeap.change, typesLoaded]⟩
  | ranTopLevel path => exact ⟨hindexed, fun sid => by simp [TypedHeap.change, typesLoaded]⟩

theorem change_heap (k : TypedHeap κ) (event : ModuleEvent) : (k.change event).heap = k.heap := by
  unfold TypedHeap.change
  split
  · split <;> rfl
  all_goals rfl

theorem change_carbon {k t : TypedHeap κ} (h : k.carbon = t.carbon) (event : ModuleEvent) :
    (k.change event).carbon = (t.change event).carbon := by
  cases event with
  | loaded path name file =>
    by_cases hpath : (t.carbon.byPath path).isSome <;> simp [TypedHeap.change, h, hpath]
  | _ => simp [TypedHeap.change, h]

/-- What a run declares depends on the modules only. -/
theorem typesDeclared_congr (events : List (TypedEvent κ)) {k t : TypedHeap κ}
    (h : k.carbon = t.carbon) : typesDeclared k events = typesDeclared t events := by
  induction events generalizing k t with
  | nil => rfl
  | cons event events ih =>
    cases event with
    | changed event =>
      have hloaded : typesLoaded k event = typesLoaded t event := by
        cases event <;> simp [typesLoaded, h]
      rw [typesDeclared, typesDeclared, hloaded, ih (change_carbon h event)]
    | allocated argv => exact ih h
    | collected request => exact ih h

/-! ## Runs -/

theorem allocateImpl_cases {k t : TypedHeap κ} {argv : List Variant} {payload : ℕ}
    (h : k.allocateImpl clear argv = some (t, payload)) :
    (t = k ∧ payload = 0) ∨
    ∃ kind sid rest td heap, argv = kind :: .int sid :: rest ∧ k.types.find sid = some td ∧
      td.size ≠ 0 ∧
      k.heap.alloc (k.types.registry clear) sid.toNat td.size = some (heap, payload) ∧
      t = { k with heap } := by
  unfold TypedHeap.allocateImpl at h
  split at h
  · rename_i kind sid rest
    cases hfind : k.types.find sid with
    | none =>
      simp only [hfind, Option.some.injEq, Prod.mk.injEq] at h
      exact .inl ⟨h.1.symm, h.2.symm⟩
    | some td =>
      simp only [hfind] at h
      by_cases hsize : td.size = 0
      · simp only [hsize, if_true, Option.some.injEq, Prod.mk.injEq] at h
        exact .inl ⟨h.1.symm, h.2.symm⟩
      · rw [if_neg hsize, Option.map_eq_some_iff] at h
        obtain ⟨⟨heap, p⟩, halloc, heq⟩ := h
        simp only [Prod.mk.injEq] at heq
        obtain ⟨rfl, rfl⟩ := heq
        exact .inr ⟨kind, sid, rest, td, heap, rfl, hfind, hsize, halloc, rfl⟩
  · cases h
  · simp only [Option.some.injEq, Prod.mk.injEq] at h
    exact .inl ⟨h.1.symm, h.2.symm⟩

theorem firstSize_heap (k : TypedHeap κ) (heap : Collector κ) (events : List (TypedEvent κ))
    (sid : Word) : firstSize { k with heap } events sid = firstSize k events sid := by
  have hsame : typesDeclared { k with heap } events = typesDeclared k events :=
    typesDeclared_congr events rfl
  rw [firstSize, firstSize, hsame]

/-- A step registers what it declares, and only for names that have no size yet. -/
theorem size_step {k t : TypedHeap κ} {event : TypedEvent κ} (hindexed : Indexed k.types)
    (hheap : CollectorHolds k.heap) (hallowed : StepAllowed clear k event)
    (hstep : TypedStep clear k event t) : Indexed t.types ∧ CollectorHolds t.heap ∧
      ∀ (rest : List (TypedEvent κ)) (sid : Word), firstSize t rest sid =
        firstSize k (event :: rest) sid := by
  cases hstep with
  | @changed change =>
    obtain ⟨hnext, hsize⟩ := size_change hindexed change
    refine ⟨hnext, (change_heap k change).symm ▸ hheap, fun rest sid => ?_⟩
    rw [firstSize, firstSize, hsize sid, typesDeclared, List.find?_append, Option.map_or,
      Option.or_assoc]
  | allocated halloc =>
    rcases allocateImpl_cases halloc with ⟨rfl, -⟩ | ⟨_, sid, _, td, heap, -, -, -, hnew, rfl⟩
    · exact ⟨hindexed, hheap, fun _ _ => rfl⟩
    · have hpermitted : Permitted (k.types.registry clear) k.heap (.alloc sid.toNat td.size) :=
        trivial
      exact ⟨hindexed, HeapStep.holds hheap hpermitted (.alloc hnew), firstSize_heap k heap⟩
  | @collected request heap hnew =>
    exact ⟨hindexed, HeapStep.holds hheap hallowed hnew, firstSize_heap k heap⟩

theorem typesHold_run {k t : TypedHeap κ} {events : List (TypedEvent κ)}
    (hindexed : Indexed k.types) (hheap : CollectorHolds k.heap)
    (hrun : TypedRun clear k events t) : TypesHold k events t := by
  induction hrun with
  | nil => exact ⟨hindexed, hheap, fun sid => by simp [firstSize, typesDeclared]⟩
  | cons hallowed hstep _ ih =>
    obtain ⟨hnext, hnextHeap, hsize⟩ := size_step hindexed hheap hallowed hstep
    have h := ih hnext hnextHeap
    exact ⟨h.indexed, h.heap, fun sid => (h.first sid).trans (hsize _ sid)⟩

/-- After any run, an object that is allocated by a name fits the type that the name leads to just
when one of the size that was registered first under the name has room for it: the registry keeps
the first type of a name for ever. The object is eight bytes past a multiple of sixteen, whatever
its type says, so that it is aligned for no type with a greater alignment than eight.
SRCLINE: Carbon.cpp:559-612, 807-863, TypeRegistry.cpp:26-44, NativeAllocators.cpp:46-71 -/
theorem allocate_fits {k t u : TypedHeap κ} {events : List (TypedEvent κ)} (hstart : Started k)
    (hrun : TypedRun clear k events t) {kind : Variant} {sid : Word} {rest : List Variant}
    {payload : ℕ}
    (halloc : t.allocateImpl clear (kind :: .int sid :: rest) = some (u, payload))
    (hpayload : payload ≠ 0) : ∀ st, CurrentType t sid st →
      (FitsBlock u.heap.arenas payload st ↔
        ∃ size, firstSize k events sid = some size ∧ Room size st.size) ∧
      ∀ n, st.align = 2 ^ n → (st.align ∣ payload ↔ n ≤ 3) := by
  intro st _
  obtain ⟨hindexed, start, size, contents, hreserved, hheap⟩ := hstart
  have h := typesHold_run hindexed (hheap ▸ initial_holds hreserved contents) hrun
  rcases allocateImpl_cases halloc with ⟨-, hzero⟩ | ⟨_, _, _, td, heap, hargs, htd, hsize, hnew, rfl⟩
  · exact absurd hzero hpayload
  obtain ⟨-, rfl, -⟩ : kind = _ ∧ sid = _ ∧ rest = _ := by simpa using hargs
  have hfirst : firstSize k events sid = some td.size := by
    rw [← h.first sid, htd]
    rfl
  obtain ⟨index, i, entry, j, hclass, hi, hblockSize, hj, hblock, haligned⟩ :=
    CollectorHolds.alloc_block h.heap hsize hnew hpayload
  have hpermitted : Permitted (t.types.registry clear) t.heap (.alloc sid.toNat td.size) := trivial
  have hholds : CollectorHolds heap := HeapStep.holds h.heap hpermitted (.alloc hnew)
  refine ⟨⟨?_, ?_⟩, ?_⟩
  · rintro ⟨i', entry', j', hi', hj', hblock', hfits⟩
    have hsame : entry.2.block j = entry'.2.block j' := by
      simp only [Collector.payloadOf] at hblock hblock'
      omega
    obtain ⟨rfl, rfl⟩ := HeapHolds.place_unique hholds.heap hi hi'
      (ArenaAt.lt_capacity (hholds.heap.arenas i entry hi) hj)
      (ArenaAt.lt_capacity (hholds.heap.arenas i' entry' hi') hj') hsame
    rw [hi, Option.some.injEq] at hi'
    subst hi'
    refine ⟨td.size, hfirst, fun index' hclass' => ?_⟩
    obtain rfl : index = index' := by simpa [hclass] using hclass'
    have hend := hfits 0 st.size (by omega)
    rw [hblock, hblockSize] at hend
    simp only [Collector.payloadOf] at hend
    omega
  · rintro ⟨size, hsome, hroom⟩
    obtain rfl : td.size = size := by simpa [hfirst] using hsome
    have hfits := hroom index hclass
    refine ⟨i, entry, j, hi, hj, hblock, fun offset width hle => ?_⟩
    rw [hblock, hblockSize]
    simp only [Collector.payloadOf] at *
    omega
  · intro n hn
    have hodd : payload % 16 = 8 := by
      rw [hblock]
      simp only [Collector.payloadOf, Collector.headerSize]
      omega
    rw [hn]
    constructor
    · intro hdvd
      by_contra hlt
      have hsixteen : 16 ∣ payload :=
        Nat.dvd_trans (Nat.pow_dvd_pow 2 (show 4 ≤ n by omega)) hdvd
      omega
    · intro hle
      exact Nat.dvd_trans (Nat.pow_dvd_pow 2 hle) (show 8 ∣ payload by omega)

/-! ## A reload -/

/-- A file that declares one type, of a size. -/
def typeImage (size : ℕ) : FileImage where
  allocation := smallAllocation
  path := "main.bin"
  entries := some [⟨1, stringId "ss-type", 0x1028⟩]
  requires := []
  topLevel := none
  ssTypes := fun ptr => if ptr = 0x1028 then some ⟨1, size, 16⟩ else none

/-- A host whose file declares the type with one size the first time and with another after. -/
def reloadHost (first second : ℕ) : Host where
  initialized := true
  stem := id
  canonical := id
  fileExists := fun _ => true
  parentPath := id
  join := (· ++ ·)
  projectPath := ""
  fromPath := fun c _ => some (typeImage (if c.inserted = 0 then first else second))
  execute := fun _ _ => ([], true)

/-- The changes when the file is loaded and then loaded again. -/
def reloadEvents (first second : ℕ) : List ModuleEvent :=
  [.loaded "main.bin" "main.bin" (typeImage first), .unloaded "main.bin",
    .loaded "main.bin" "main.bin" (typeImage second)]

/-- Nothing loaded, the built-in types and a heap of one megabyte. -/
def emptyHeap : TypedHeap Unit :=
  ⟨.initial, TypeTable.registerBuiltinGcTypes .empty, .initial 4096 (1024 * 1024) ()⟩

/-- Nothing is done to the bytes of an object. -/
def keepBytes : Unit → ℕ → ℕ → Unit := fun contents _ _ => contents

/-- The changes of a reload, from nothing loaded. -/
def reloadedHeap (first second : ℕ) : TypedHeap Unit :=
  (reloadEvents first second).foldl TypedHeap.change emptyHeap

theorem emptyHeap_started : Started emptyHeap :=
  ⟨registerBuiltinGcTypes_indexed indexed_empty, 4096, 1024 * 1024, (),
    ⟨by decide, by decide⟩, rfl⟩

theorem reload_hook (first : ℕ) :
    (ModuleEvent.apply .initial (.loaded "main.bin" "main.bin"
      (typeImage first))).globals (stringId ("main.bin" ++ "::on_unload")) = none := by
  have hexported : exportedEntry [⟨1, stringId "ss-type", 0x1028⟩]
      (stringId ("main.bin" ++ "::on_unload")) = none := by with_unfolding_all decide
  show registerFileSymbols _ _ [⟨1, stringId "ss-type", 0x1028⟩] _ _ = none
  rw [registerFileSymbols_apply, hexported]
  rfl

theorem reload_events (first second : ℕ) :
    runCalls (reloadHost first second) 0 .initial
      [.loadModule "main.bin", .reloadModule "main.bin"] = some (reloadEvents first second) := by
  have hload : loadModule (reloadHost first second) .initial "main.bin" =
      (.succeeded, [.loaded "main.bin" "main.bin" (typeImage first)]) := rfl
  have hunload : unloadModule (reloadHost first second)
      (ModuleEvent.apply .initial (.loaded "main.bin" "main.bin" (typeImage first)))
      "main.bin" = [.unloaded "main.bin"] := by
    unfold unloadModule
    rw [reload_hook]
    rfl
  have hagain : loadModule (reloadHost first second)
      (ModuleEvent.apply (ModuleEvent.apply .initial
        (.loaded "main.bin" "main.bin" (typeImage first))) (.unloaded "main.bin")) "main.bin" =
      (.succeeded, [.loaded "main.bin" "main.bin" (typeImage second)]) := rfl
  have hname : ((((ModuleEvent.apply .initial (.loaded "main.bin" "main.bin"
      (typeImage first))).byPath "main.bin").bind
        (ModuleEvent.apply .initial (.loaded "main.bin" "main.bin" (typeImage first))).byName).map
          ModuleEntry.logicalName).getD ((reloadHost first second).stem "main.bin") =
      "main.bin" := rfl
  simp only [runCalls, callEvents, hload, runEvents, List.foldl_cons, List.foldl_nil, reloadModule,
    hname, hunload, hagain]
  rfl

theorem reloadedHeap_current {first second : ℕ}
    (hglobals : (reloadedHeap first second).carbon.globals 1 =
      some ⟨0x1028, stringId "ss-type", stringId "main.bin", 1⟩) :
    CurrentType (reloadedHeap first second) 1 ⟨1, second, 16⟩ :=
  ⟨_, "main.bin", ⟨"main.bin", "main.bin", typeImage second, 1⟩, hglobals, rfl, rfl, rfl, rfl⟩

theorem reloadedHeap_run (first second : ℕ) :
    TypedRun keepBytes emptyHeap ((reloadEvents first second).map TypedEvent.changed)
      (reloadedHeap first second) :=
  .cons trivial .changed (.cons trivial .changed (.cons trivial .changed .nil))

/-- INTERNAL: the file is loaded again with a type for which objects of 4000 bytes have room. -/
theorem allocate_fits_reloaded :
    ∃ u payload, (reloadedHeap 4000 4080).allocateImpl keepBytes [.int 0, .int 1] =
        some (u, payload) ∧ FitsBlock u.heap.arenas payload ⟨1, 4080, 16⟩ ∧ ¬ 16 ∣ payload := by
  have hsome : ((reloadedHeap 4000 4080).allocateImpl keepBytes [.int 0, .int 1]).map Prod.snd =
      some 4104 := by with_unfolding_all decide
  obtain ⟨⟨u, payload⟩, halloc, hpayload⟩ := Option.map_eq_some_iff.mp hsome
  obtain rfl : payload = 4104 := hpayload
  obtain ⟨hfits, haligned⟩ := allocate_fits emptyHeap_started (reloadedHeap_run 4000 4080) halloc
    (by decide) _ (reloadedHeap_current (by with_unfolding_all decide))
  refine ⟨u, _, halloc, hfits.mpr ⟨4000, by with_unfolding_all decide, fun index hindex => ?_⟩,
    fun hdvd => absurd ((haligned 4 rfl).mp hdvd) (by decide)⟩
  obtain rfl : 8 = index := by simpa using (show sizeClassFor _ = some 8 by decide).symm.trans hindex
  decide

/-- INTERNAL: the file is loaded again with a type of 4096 bytes, and the object that is allocated
by its name ends in the block after its own. -/
theorem not_allocate_fits :
    ¬ ∀ events, runCalls (reloadHost 4000 4096) 0 .initial
        [.loadModule "main.bin", .reloadModule "main.bin"] = some events →
      ∀ u payload st, (events.foldl TypedHeap.change emptyHeap).allocateImpl keepBytes
        [.int 0, .int 1] = some (u, payload) → payload ≠ 0 →
        CurrentType (events.foldl TypedHeap.change emptyHeap) 1 st →
          FitsBlock u.heap.arenas payload st := by
  intro hall
  have hsome : ((reloadedHeap 4000 4096).allocateImpl keepBytes [.int 0, .int 1]).map
      (fun r => (r.2, r.1.heap.arenas.arenas.map fun entry => entry.2.blockSize)) =
      some (4104, [4096]) := by with_unfolding_all decide
  obtain ⟨⟨u, payload⟩, halloc, heq⟩ := Option.map_eq_some_iff.mp hsome
  simp only [Prod.mk.injEq] at heq
  obtain ⟨rfl, hblocks⟩ := heq
  obtain ⟨i, entry, j, hi, -, hblock, hfits⟩ := hall _ (reload_events 4000 4096) u 4104 _ halloc
    (by decide) (reloadedHeap_current (by with_unfolding_all decide))
  have hsize : entry.2.blockSize = 4096 := by
    have hmem := List.mem_map_of_mem (f := fun entry : ℕ × Arena => entry.2.blockSize)
      (List.mem_of_getElem? hi)
    simpa [hblocks] using hmem
  have hend := hfits 0 4096 (by decide)
  simp only [Collector.payloadOf, Collector.headerSize] at hblock
  omega

end Soot.Analysis
