import Soot.Computation.Pooling
import Soot.Program.DataSegment

/-!
# What a string pool keeps

A run of the pool adds strings one after the other. It keeps them if the offset of a string is the
same from its first addition on, two additions return the same offset exactly when they add the
same string, what is read at an offset is the string, and the bytes of two strings do not meet.
-/

set_option autoImplicit false

namespace Soot.Model

open Soot.Computation Soot.Program.DataSegment

def poolOf (strings : List Text) : StringPool :=
  strings.foldl (fun p s => (p.lookupOrAdd s).2) .empty

/-- The offset that is returned when a string is added after others. -/
def offsetAfter (before : List Text) (s : Text) : UInt32 := ((poolOf before).lookupOrAdd s).1

structure PoolKept (strings : List Text) : Prop where
  stable : ∀ before s middle after, strings = before ++ s :: middle ++ after →
    offsetAfter (before ++ s :: middle) s = offsetAfter before s ∧
      (poolOf (before ++ s :: middle)).getOffset s = .ok (offsetAfter before s)
  distinct : ∀ before s after before' s' after', strings = before ++ s :: after →
    strings = before' ++ s' :: after' →
    (offsetAfter before s = offsetAfter before' s' ↔ s = s')
  reads : ∀ before s middle after, strings = before ++ s :: middle ++ after →
    cString ((poolOf (before ++ s :: middle)).getAt (offsetAfter before s)) = s
  separated : ∀ before s after before' s' after', strings = before ++ s :: after →
    strings = before' ++ s' :: after' → s ≠ s' →
    (offsetAfter before s).toNat + s.length < (offsetAfter before' s').toNat ∨
      (offsetAfter before' s').toNat + s'.length < (offsetAfter before s).toNat

/-- The bytes of a string in the pool, with the zero byte after it. -/
def storedSize (s : Text) : ℕ := s.length + 1

/-- No string has a zero byte, and no string is new when the pool has 4 GiB already. -/
structure PoolFits (strings : List Text) : Prop where
  noZero : ∀ s ∈ strings, 0 ∉ s
  addressable : ∀ before s after, strings = before ++ s :: after → s ∉ before →
    endOf storedSize before.eraseDups < 2 ^ 32

end Soot.Model
