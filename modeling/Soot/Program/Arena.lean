import Mathlib.Algebra.Group.Int.Defs
import Mathlib.Algebra.GroupWithZero.Nat
import Mathlib.Tactic.Common

/-!
# Arenas

The heap's region is cut into arenas of blocks of one size. A block that is given back is
threaded on the free list of its arena through its own first word, where the header of its
object was; so a word of the heap is a header or a link, and each can be read as the other. An
address is a natural number and zero is the null pointer.
-/

set_option autoImplicit false

namespace Soot.Program

/-! ## The first word of a block -/

/-- SRCLINE: GCHeader.hpp:9-39 -/
structure GCHeader where
  typeIndex : ℕ
  marked : Bool
  dead : Bool
  passCycle : ℕ
  sizeClass : ℕ
  deriving DecidableEq

inductive HeapWord where
  | header (h : GCHeader)
  | link (next : ℕ)
  deriving DecidableEq

namespace HeapWord

def asHeader : HeapWord → GCHeader
  | header h => h
  | link next =>
    { typeIndex := next % 2 ^ 32
      marked := next.testBit 32
      dead := next.testBit 33
      passCycle := next / 2 ^ 34 % 16
      sizeClass := next / 2 ^ 38 % 64 }

/-- The word read as a link; the reserved bits of a header are zero. -/
def asLink : HeapWord → ℕ
  | header h =>
    h.typeIndex % 2 ^ 32 + h.marked.toNat * 2 ^ 32 + h.dead.toNat * 2 ^ 33 +
      h.passCycle % 16 * 2 ^ 34 + h.sizeClass % 64 * 2 ^ 38
  | link next => next

end HeapWord

abbrev HeapWords := ℕ → HeapWord

def HeapWords.write (m : HeapWords) (address : ℕ) (word : HeapWord) : HeapWords :=
  fun a => if a = address then word else m a

/-! ## One arena -/

/-- SRCLINE: Arena.hpp:50-66 -/
structure Arena where
  dataBegin : ℕ
  dataEnd : ℕ
  bump : ℕ
  freeHead : ℕ
  blockSize : ℕ
  capacity : ℕ
  used : ℕ
  freeCount : ℕ
  bitmap : List Bool
  deriving DecidableEq

namespace Arena

/-- The constructor, for an alignment that is a power of two. SRCLINE: Arena.cpp:8-33 -/
def new (start stop blockSize align : ℕ) : Arena :=
  let p := (start + align - 1) / align * align
  let stop := stop / align * align
  if stop ≤ p then ⟨p, p, p, 0, blockSize, 0, 0, 0, []⟩
  else
    let capacity := (stop - p) / blockSize
    ⟨p, p + capacity * blockSize, p, 0, blockSize, capacity, 0, 0,
      List.replicate capacity false⟩

def owns (a : Arena) (address : ℕ) : Bool := a.dataBegin ≤ address && address < a.dataEnd

def isAllocated (a : Arena) (index : ℕ) : Bool := a.bitmap.getD index false

def indexOf (a : Arena) (address : ℕ) : ℕ := (address - a.dataBegin) / a.blockSize

def block (a : Arena) (index : ℕ) : ℕ := a.dataBegin + index * a.blockSize

def setAllocated (a : Arena) (index : ℕ) (value : Bool) : Arena :=
  { a with bitmap := a.bitmap.set index value }

/-- `allocate`: the free list first, then blocks that were never used.
SRCLINE: Arena.cpp:43-68 -/
def allocate (a : Arena) (m : HeapWords) : Option (ℕ × Arena) :=
  if a.freeHead ≠ 0 then
    some (a.freeHead,
      { a with
        freeHead := (m a.freeHead).asLink
        freeCount := (a.freeCount + (2 ^ 64 - 1)) % 2 ^ 64
        used := (a.used + 1) % 2 ^ 64 }.setAllocated (a.indexOf a.freeHead) true)
  else if a.bump + a.blockSize ≤ a.dataEnd then
    some (a.bump,
      { a with
        bump := a.bump + a.blockSize
        used := (a.used + 1) % 2 ^ 64 }.setAllocated (a.indexOf a.bump) true)
  else none

/-- `deallocate`: the block is put at the head of the free list.
SRCLINE: Arena.cpp:70-80 -/
def deallocate (a : Arena) (m : HeapWords) (block : ℕ) : Arena × HeapWords :=
  if a.owns block then
    ({ a with
        freeHead := block
        freeCount := (a.freeCount + 1) % 2 ^ 64
        used := (a.used + (2 ^ 64 - 1)) % 2 ^ 64 }.setAllocated (a.indexOf block) false,
      m.write block (.link a.freeHead))
  else (a, m)

end Arena

/-! ## All arenas -/

/-- SRCLINE: ArenaManager.hpp:22-24 -/
def sizeClasses : List ℕ := [16, 32, 64, 128, 256, 512, 1024, 2048, 4096]

def sizeClassFor (size : ℕ) : Option ℕ := sizeClasses.findIdx? (size ≤ ·)

/-- `m_all_arenas`, each arena with its class: the arenas of a class are those with its number,
in the same order. SRCLINE: ArenaManager.hpp:109-125 -/
structure ArenaManager where
  regionStart : ℕ
  regionEnd : ℕ
  bump : ℕ
  arenas : List (ℕ × Arena)
  deriving DecidableEq

namespace ArenaManager

/-- `m_arena_size`. -/
def arenaSize : ℕ := 1024 * 1024

def new (start size : ℕ) : ArenaManager := ⟨start, start + size, start, []⟩

def owns (s : ArenaManager) (address : ℕ) : Bool :=
  s.regionStart ≤ address && address < s.regionEnd

/-- The position of `m_arenas[index].back()`. -/
def lastOfClass (s : ArenaManager) (index : ℕ) : Option ℕ :=
  (List.range s.arenas.length).reverse.find? fun i =>
    (s.arenas[i]?).any fun entry => entry.1 == index

def setArena (s : ArenaManager) (i : ℕ) (a : Arena) : ArenaManager :=
  { s with arenas := s.arenas.modify i fun entry => (entry.1, a) }

/-- `grow_class`. SRCLINE: ArenaManager.cpp:108-143 -/
def growClass (s : ArenaManager) (index : ℕ) : Option ArenaManager :=
  let blockSize := sizeClasses.getD index 0
  let size := if arenaSize / 8 < blockSize then blockSize * 64 else arenaSize
  if s.regionEnd - s.bump < size then none
  else
    let arena := Arena.new s.bump (s.bump + size) blockSize (if blockSize < 16 then 16 else blockSize)
    some { s with bump := s.bump + size, arenas := s.arenas ++ [(index, arena)] }

def allocateFrom (s : ArenaManager) (m : HeapWords) (i : ℕ) : Option (ℕ × ArenaManager) :=
  (s.arenas[i]?).bind fun entry =>
    (entry.2.allocate m).map fun result => (result.1, s.setArena i result.2)

/-- `allocate`: the last arena of the class, and then a new one.
SRCLINE: ArenaManager.cpp:144-166 -/
def allocate (s : ArenaManager) (m : HeapWords) (size : ℕ) : ArenaManager × Option ℕ :=
  match sizeClassFor size with
  | none => (s, none)
  | some index =>
    match (s.lastOfClass index).bind (s.allocateFrom m) with
    | some (block, s) => (s, some block)
    | none =>
      match s.growClass index with
      | none => (s, none)
      | some s =>
        match s.allocateFrom m (s.arenas.length - 1) with
        | some (block, s) => (s, some block)
        | none => (s, none)

def findArena (s : ArenaManager) (address : ℕ) : Option ℕ :=
  s.arenas.findIdx? fun entry => entry.2.owns address

/-- `deallocate`. SRCLINE: ArenaManager.cpp:168-176 -/
def deallocate (s : ArenaManager) (m : HeapWords) (address : ℕ) : ArenaManager × HeapWords :=
  match s.findArena address with
  | none => (s, m)
  | some i =>
    match s.arenas[i]? with
    | none => (s, m)
    | some entry =>
      let (a, m) := entry.2.deallocate m address
      (s.setArena i a, m)

end ArenaManager

end Soot.Program
