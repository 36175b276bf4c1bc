import Soot.Program.SidBase

/-!
# What a table of string ids promises

A reader of a file that stays inside the buffer it has read, and a table that a file brings back:
each of its ids with its name, and no other id.
-/

set_option autoImplicit false

namespace Soot.Model

open Soot.Computation Soot.Program
open Script (ofLittleEndian)

/-! ## Files -/

def namedEntries (bytes : Text) : Word := BitVec.ofNat 64 (ofLittleEndian (bytes.take 8))

def namedOffset (bytes : Text) (idx : ℕ) : ℕ :=
  ofLittleEndian ((bytes.drop (16 + 16 * idx)).take 8)

def Refused (bytes : Text) : Prop :=
  bytes.length < 8 ∨ namedEntries bytes = 0 ∨
    bytes.length < (8 + namedEntries bytes * 16).toNat

/-- All the entries that a file names are in it, and a string begins and ends in it where each of
them says. -/
def LaidOutInside (bytes : Text) : Prop :=
  8 + 16 * (namedEntries bytes).toNat ≤ bytes.length ∧
    ∀ idx < (namedEntries bytes).toNat, 0 ∈ bytes.drop (namedOffset bytes idx)

/-- Every entry, the search for every id and the strings that are loaded are read inside the
buffer, and these reads come to an end. -/
structure ReadsInBytes (base : SidBase) : Prop where
  entries : ∀ idx < base.numEntries.toNat,
    ∃ entry : SidBaseEntry, entryHash base.sidBytes idx = .ok entry.hash ∧
      entryOffset base.sidBytes idx = .ok entry.offset
  search : ∀ hash, ∃ found, base.search hash = .ok found
  strings : ∃ table, SidTable.loadEntries base = .ok table

def StaysInFile (path bytes : Text) : Prop :=
  (∃ message, SidBase.fromBinary path (.content bytes) = .ok (.error message)) ∨
    ∃ base, SidBase.fromBinary path (.content bytes) = .ok (.ok base) ∧ ReadsInBytes base

/-! ## Tables -/

def fileSize (table : SidTable) : ℕ :=
  8 + 16 * table.length + (table.map fun e => e.2.length + 1).sum

/-- A table in memory: each id has one name, and its file fits into an address space. -/
structure IsTable (table : SidTable) : Prop where
  once : (table.map Prod.fst).Nodup
  fits : fileSize table < 2 ^ 64

def SameTable (a b : SidTable) : Prop := ∀ id, a.lookup id = b.lookup id

/-- The binary file of a table is read, and the search in it answers as the table does. -/
def Searchable (path : Text) (table : SidTable) : Prop :=
  ∃ base, SidBase.fromBinary path (.content table.saveDconstructSidbase) = .ok (.ok base) ∧
    ∀ id, base.searchString id = .ok (table.lookup id)

/-- The binary file of a table brings it back, whatever the table was before. -/
def RestoredFromBinary (path : Text) (table : SidTable) : Prop :=
  ∀ prior, ∃ loaded restored,
    SidTable.loadDconstructSidbase path (.content table.saveDconstructSidbase) prior =
      .ok (loaded, restored) ∧ SameTable restored table

/-- The text file of a table brings it back, whatever the table was before. -/
def RestoredFromText (table : SidTable) : Prop :=
  ∀ prior, SameTable (SidTable.loadTable (.content table.saveTable) prior).2 table

/-- A name that a line of the text file can hold: not empty, on one line, with no blank at its
ends. -/
structure FitsOnLine (name : Text) : Prop where
  nonempty : name ≠ []
  oneLine : byte '\n' ∉ name
  trimmed : SidTable.trim name = name

end Soot.Model
