import Soot.Program.Script.Archive

/-!
# What the archive of a memory buffer should give back

A buffer goes to an archive and back if, wherever there is room, it is written, and reading from the
same position gives the same buffer and stops where the writing stopped. `Storable` is the condition
under which it does.
-/

set_option autoImplicit false

namespace Soot.Model.Script

open Soot.Computation Soot.Program.Script

structure Small (b : MemoryBuffer) : Prop where
  data : b.data.length < 2 ^ 31
  symbols : b.symbols.length < 2 ^ 31
  symbolNames : ∀ name ∈ b.symbols, name.length < 2 ^ 31
  relocs : b.relocs.length < 2 ^ 31
  targetNames : ∀ r ∈ b.relocs, r.targetName.length < 2 ^ 31
  labels : b.labels.labels.length < 2 ^ 31
  labelNames : ∀ l ∈ b.labels.labels, l.name.length < 2 ^ 31

/-- The buffer is written wherever there is enough room, and read back from there. -/
def ComesBack (config : TypeConfig) (b : MemoryBuffer) : Prop :=
  ∃ room, ∀ memory position, position + room ≤ memory.length →
    ∃ written, writeBuffer config b ⟨memory, position⟩ = .ok ((), written) ∧
      readBuffer config ⟨written.memory, position⟩ = .ok (b, written)

/-- The offset of a relocation is a number of 32 bits with a sign, above the least one. -/
def ShortOffset (offset : BitVec 64) : Prop :=
  offset.toNat < 2 ^ 31 ∨ 2 ^ 64 - 2 ^ 31 < offset.toNat

/-- Every relocation has a short offset, and every label one of 32 bits and neither a segment nor
an info. -/
structure Storable (b : MemoryBuffer) : Prop where
  relocs : ∀ r ∈ b.relocs, ShortOffset r.offset
  offsets : ∀ l ∈ b.labels.labels, l.offset.toNat < 2 ^ 32
  objects : ∀ l ∈ b.labels.labels, l.segment = .emptyList ∧ l.info = .emptyList

/-- An index is read back from what is written for it, whatever bytes follow, and neither what is
written for it nor for another one begins with the other. -/
structure IndexCoded (value : BitVec 32) : Prop where
  transfers : Archived.Transfers (putIndex value) getIndex value
  prefixFree : ∀ other, other ≠ value → ∀ bytes bytes', Archived.Writes (putIndex value) bytes →
    Archived.Writes (putIndex other) bytes' → ¬ bytes <+: bytes' ∧ ¬ bytes' <+: bytes

end Soot.Model.Script
