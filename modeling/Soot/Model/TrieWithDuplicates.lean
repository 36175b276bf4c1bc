import Mathlib.Data.List.Count
import Soot.Program.TrieWithDuplicates

/-!
# What a trie holds

The elements under their keys, in the order of the calls.
-/

set_option autoImplicit false

namespace Soot.Model

open Soot.Computation Soot.Program

variable {T : Type*}

@[ext]
structure TrieEntry (T : Type*) where
  key : Text
  element : TrieElement T
  deriving DecidableEq

def recordTrieCall (entries : List (TrieEntry T)) : TrieCall T → List (TrieEntry T)
  | .insert key element => entries ++ [⟨key, element⟩]
  | .remove key address =>
    entries.eraseP fun entry => entry.key == key && entry.element.address == address

def entriesAfter (calls : List (TrieCall T)) : List (TrieEntry T) :=
  calls.foldl recordTrieCall []

def elementsUnder (entries : List (TrieEntry T)) (key : Text) : List (TrieElement T) :=
  (entries.filter (·.key == key)).map (·.element)

def countWithPrefix (entries : List (TrieEntry T)) (start : Text) : ℕ :=
  entries.countP fun entry => start.isPrefixOf entry.key

/-- The elements whose keys start with a prefix, in the order of the bytes of the keys, and in the
order in which they came where the keys are equal. -/
structure InKeyOrder (entries : List (TrieEntry T)) (start : Text)
    (found : List (TrieEntry T)) : Prop where
  sorted : found.Pairwise fun first second => first.key ≤ second.key
  under : ∀ key, elementsUnder found key =
    if start <+: key then elementsUnder entries key else []

/-- The answers of a trie are those for the entries: all, those under a key, those with a prefix,
and the first of these where a limit is given. -/
structure ServesEntries (root : TrieNode T) (entries : List (TrieEntry T)) (key start : Text)
    (maxCount : ℤ) : Prop where
  size : root.size = entries.length
  elements : ∃ found, InKeyOrder entries [] found ∧ root.getAllElements = found.map (·.element)
  exact : root.retrieveWithExact key = elementsUnder entries key
  unlimited : ∃ found, InKeyOrder entries start found ∧
    root.retrieveWithPrefix (-1) start = found.map (·.element)
  limited : 0 ≤ maxCount → ∃ found, InKeyOrder entries start found ∧
    root.retrieveWithPrefix maxCount start = (found.take maxCount.toNat).map (·.element)

end Soot.Model
