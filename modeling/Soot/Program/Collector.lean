import Soot.Program.Arena

/-!
# The garbage collector

Allocation with a header, release, and the passes that mark from roots and sweep in steps. The
contents of the objects and the registered types are parameters: a type's mark delegate visits
pointers it reads from an object. A collector keeps the list of the objects whose destroy
delegate ran, which nothing reads.
-/

set_option autoImplicit false

namespace Soot.Program

/-- SRCLINE: TypeRegistry.hpp:73-90 -/
structure TypeDescriptor (κ : Type) where
  size : ℕ
  /-- the pointers the delegate hands to the visitor, when there is one -/
  mark : Option (κ → ℕ → List ℕ)
  hasDestroy : Bool

/-- The registered types, and how the bytes of a new object are cleared. -/
structure TypeRegistry (κ : Type) where
  findIndex : ℕ → ℕ
  findByIndex : ℕ → Option (TypeDescriptor κ)
  clear : κ → ℕ → ℕ → κ

/-- SRCLINE: GC.cpp:13-26 -/
structure Collector (κ : Type) where
  arenas : ArenaManager
  words : HeapWords
  contents : κ
  currentPass : ℕ
  sweepArena : ℕ
  sweepBlock : ℕ
  /-- the objects that were destroyed, last first -/
  destroyed : List ℕ

namespace Collector

variable {κ : Type} (types : TypeRegistry κ)

/-- `initialize`, with the region that was reserved. -/
def initial (start size : ℕ) (contents : κ) : Collector κ :=
  ⟨.new start size, fun _ => .link 0, contents, 0, 0, 0, []⟩

/-- `sizeof(GCHeader)`. -/
def headerSize : ℕ := 8

def headerOf (payload : ℕ) : ℕ := payload - headerSize

def payloadOf (block : ℕ) : ℕ := block + headerSize

def alignedTotal (size : ℕ) : ℕ := (headerSize + size + 15) / 16 * 16

def objectSize (sid size : ℕ) : ℕ :=
  if size = 0 then
    ((types.findByIndex (types.findIndex sid)).map TypeDescriptor.size).getD 0
  else size

/-- `alloc`: the address of the object, zero when there is none. There is no result when the
size wraps around: what is cleared then lies outside the block.
SRCLINE: GC.cpp:74-119 -/
def alloc (s : Collector κ) (sid size : ℕ) : Option (Collector κ × ℕ) :=
  let typeIndex := types.findIndex sid
  let size := objectSize types sid size
  if size = 0 then some (s, 0)
  else if 2 ^ 64 ≤ headerSize + size + 15 then none
  else
    match s.arenas.allocate s.words (alignedTotal size) with
    | (arenas, none) => some ({ s with arenas }, 0)
    | (arenas, some block) =>
      let header : GCHeader :=
        { typeIndex
          marked := false
          dead := false
          passCycle := s.currentPass % 16
          sizeClass := (sizeClassFor (alignedTotal size)).getD 63 }
      some ({ s with
          arenas
          words := s.words.write block (.header header)
          contents := types.clear s.contents (payloadOf block) size },
        payloadOf block)

/-- `release`. SRCLINE: GC.cpp:121-133 -/
def release (s : Collector κ) (payload : ℕ) : Collector κ :=
  if payload = 0 ∨ ¬ s.arenas.owns payload then s
  else
    let header := (s.words (headerOf payload)).asHeader
    if header.dead then s
    else
      let words := s.words.write (headerOf payload) (.header { header with dead := true })
      let freed := s.arenas.deallocate words (headerOf payload)
      { s with arenas := freed.1, words := freed.2 }

/-- `gc_next_cycle`. SRCLINE: GCHeader.hpp:66-70 -/
def nextCycle (current : ℕ) : ℕ :=
  let c := (current + 1) % 16
  if c = 0 then 1 else c

/-- `start_pass`. SRCLINE: GC.cpp:144-153 -/
def startPass (s : Collector κ) : Collector κ :=
  { s with currentPass := nextCycle s.currentPass, sweepArena := 0, sweepBlock := 0 }

def visits (s : Collector κ) (payload : ℕ) : List ℕ :=
  match types.findByIndex (s.words (headerOf payload)).asHeader.typeIndex with
  | none => []
  | some td => (td.mark.map fun mark => mark s.contents payload).getD []

def skips (s : Collector κ) (payload : ℕ) : Bool :=
  payload == 0 || !s.arenas.owns payload ||
    (s.words (headerOf payload)).asHeader.dead ||
    (s.words (headerOf payload)).asHeader.passCycle == s.currentPass

def setMarked (s : Collector κ) (payload : ℕ) : Collector κ :=
  let header := (s.words (headerOf payload)).asHeader
  { s with
    words := s.words.write (headerOf payload)
      (.header { header with passCycle := s.currentPass % 16, marked := true }) }

/-- `mark_object`, nested to a depth: nothing when it nests deeper.
SRCLINE: GC.cpp:157-171 -/
def markObject : ℕ → Collector κ → ℕ → Option (Collector κ)
  | 0, _, _ => none
  | depth + 1, s, payload =>
    if s.skips payload then some s
    else
      let s := s.setMarked payload
      (s.visits types payload).foldlM (fun s p => markObject depth s p) s

/-- The places of the blocks: the number of the arena and of the block in it, in the order of a
sweep. -/
def allPlaces (s : ArenaManager) : List (ℕ × ℕ) :=
  (List.range s.arenas.length).flatMap fun i =>
    (List.range ((s.arenas[i]?.map fun entry => entry.2.capacity).getD 0)).map fun j => (i, j)

def places (s : Collector κ) : List (ℕ × ℕ) :=
  (allPlaces s.arenas).filter fun place =>
    s.sweepArena < place.1 || (s.sweepArena == place.1 && s.sweepBlock ≤ place.2)

/-- A sweep looks at an allocated block. SRCLINE: GC.cpp:198-212 -/
def sweepAt (s : Collector κ) (block : ℕ) : Collector κ :=
  let header := (s.words block).asHeader
  if header.dead then s
  else if header.passCycle = s.currentPass then
    { s with words := s.words.write block (.header { header with marked := false }) }
  else
    let freed := s.arenas.deallocate s.words block
    let destroys := ((types.findByIndex header.typeIndex).map TypeDescriptor.hasDestroy).getD false
    { s with
      arenas := freed.1
      words := freed.2
      destroyed := if destroys then payloadOf block :: s.destroyed else s.destroyed }

/-- The loops of `sweep_pass`, over the places that are left. -/
def sweepFrom : List (ℕ × ℕ) → ℕ → Collector κ → Collector κ × Bool
  | [], _, s => ({ s with sweepArena := s.arenas.arenas.length, sweepBlock := 0 }, true)
  | (i, j) :: rest, budget, s =>
    match s.arenas.arenas[i]? with
    | none => sweepFrom rest budget s
    | some entry =>
      if entry.2.isAllocated j then
        let s := sweepAt types s (entry.2.block j)
        if budget ≤ 1 then ({ s with sweepArena := i, sweepBlock := j + 1 }, false)
        else sweepFrom rest (budget - 1) s
      else sweepFrom rest budget s

/-- `sweep_pass`: whether the sweep is done. SRCLINE: GC.cpp:177-222 -/
def sweepPass (s : Collector κ) (budget : Int) : Collector κ × Bool :=
  if budget ≤ 0 then (s, false) else sweepFrom types s.places budget.toNat s

def finishPass (s : Collector κ) : Collector κ := { s with sweepArena := 0, sweepBlock := 0 }

end Collector

end Soot.Program
