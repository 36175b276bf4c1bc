import Mathlib.Data.List.FinRange
import Soot.Computation.Texts

/-!
# A trie that holds duplicates

The nodes own their children and their elements. An element is named by its address, which is what
the trie returns and what `remove` looks for.
-/

set_option autoImplicit false

namespace Soot.Program

open Soot.Computation

/-- A `std::unique_ptr<T>`: an address and the value there. -/
structure TrieElement (T : Type*) where
  address : ℕ
  value : T
  deriving DecidableEq

/-- A `std::unique_ptr<TrieNode>`. SRCLINE: TrieWithDuplicates.hpp:13-16 -/
inductive TrieNode (T : Type*) where
  | null
  | node (elements : List (TrieElement T)) (children : UInt8 → TrieNode T)

/-- The indices of `children`, in order. SRCLINE: TrieWithDuplicates.hpp:14 -/
def childIndices : List UInt8 := (List.finRange 256).map UInt8.ofFin

/-- The `int` that a number of elements is cast or added to. -/
def intCount (n : ℤ) : ℤ := n.bmod (2 ^ 32)

namespace TrieNode

variable {T : Type*}

/-- `std::make_unique<TrieNode>()`. -/
def new : TrieNode T := node [] fun _ => null

/-- `if (!child) { child = std::make_unique<TrieNode>(); }`.
SRCLINE: TrieWithDuplicates.hpp:28-30 -/
def made : TrieNode T → TrieNode T
  | null => new
  | node elements children => node elements children

/-- `insert`, below a node that is there. SRCLINE: TrieWithDuplicates.hpp:23-35 -/
def insert (element : TrieElement T) : TrieNode T → Text → TrieNode T
  | null, _ => null
  | node elements children, [] => node (elements ++ [element]) children
  | node elements children, character :: key =>
    node elements (Function.update children character
      ((children character).made.insert element key))

/-- The walk of `retrieve_with_exact` and of `remove`; null is where the tree ends.
SRCLINE: TrieWithDuplicates.hpp:58-65 -/
def walk : TrieNode T → Text → TrieNode T
  | t, [] => t
  | null, _ => null
  | node _ children, character :: key => (children character).walk key

/-- `retrieve_with_exact`. SRCLINE: TrieWithDuplicates.hpp:55-70 -/
def retrieveWithExact (root : TrieNode T) (key : Text) : List (TrieElement T) :=
  match root.walk key with
  | null => []
  | node elements _ => elements

/-- `remove`, below a node that is there: the trie, and whether an element was removed.
SRCLINE: TrieWithDuplicates.hpp:72-94 -/
def remove (address : ℕ) : TrieNode T → Text → TrieNode T × Bool
  | null, _ => (null, false)
  | node elements children, [] =>
    (node (elements.eraseP (·.address == address)) children,
      elements.any (·.address == address))
  | node elements children, character :: key =>
    let child := (children character).remove address key
    (node elements (Function.update children character child.1), child.2)

/-- `get_all_elements_helper`. SRCLINE: TrieWithDuplicates.hpp:103-107, 136-145 -/
def getAllElements : TrieNode T → List (TrieElement T)
  | null => []
  | node elements children =>
    elements ++ childIndices.flatMap fun index => (children index).getAllElements

/-- `count_elements`. SRCLINE: TrieWithDuplicates.hpp:127-134 -/
def countElements : TrieNode T → ℤ → ℤ
  | null, count => count
  | node elements children, count =>
    childIndices.foldl (fun count index => (children index).countElements count)
      (intCount (count + elements.length))

/-- `size`. SRCLINE: TrieWithDuplicates.hpp:97-101 -/
def size (root : TrieNode T) : ℤ := root.countElements 0

/-- The test that stands at three places. SRCLINE: TrieWithDuplicates.hpp:41, 112, 118 -/
def isFull (maxCount : ℤ) (results : List (TrieElement T)) : Bool :=
  0 ≤ maxCount && maxCount < intCount results.length

/-- The first loop of `retrieve_elements`: the results, and whether it has returned.
SRCLINE: TrieWithDuplicates.hpp:111-116 -/
def pushElements (maxCount : ℤ) :
    List (TrieElement T) → List (TrieElement T) → List (TrieElement T) × Bool
  | [], results => (results, false)
  | element :: elements, results =>
    if isFull maxCount results then (results, true)
    else pushElements maxCount elements (results ++ [element])

/-- The second loop of `retrieve_elements`, with what it does at a child.
SRCLINE: TrieWithDuplicates.hpp:117-124 -/
def visitChildren (maxCount : ℤ)
    (visit : UInt8 → List (TrieElement T) → List (TrieElement T)) :
    List UInt8 → List (TrieElement T) → List (TrieElement T)
  | [], results => results
  | index :: indices, results =>
    if isFull maxCount results then results
    else visitChildren maxCount visit indices (visit index results)

/-- `retrieve_elements`. SRCLINE: TrieWithDuplicates.hpp:110-125 -/
def retrieveElements (maxCount : ℤ) :
    TrieNode T → List (TrieElement T) → List (TrieElement T)
  | null, results => results
  | node elements children, results =>
    match pushElements maxCount elements results with
    | (results, true) => results
    | (results, false) =>
      visitChildren maxCount (fun index => (children index).retrieveElements maxCount)
        childIndices results

/-- `retrieve_with_prefix`. Nothing is in the results while it walks.
SRCLINE: TrieWithDuplicates.hpp:37-53 -/
def retrieveWithPrefix (maxCount : ℤ) : TrieNode T → Text → List (TrieElement T)
  | t, [] => t.retrieveElements maxCount []
  | null, _ => []
  | node _ children, character :: rest =>
    if isFull (T := T) maxCount [] then [] else (children character).retrieveWithPrefix maxCount rest

end TrieNode

/-- The calls that change a trie. The element of `insert` is at an address that the allocator
gives. SRCLINE: TrieWithDuplicates.hpp:23, 72 -/
inductive TrieCall (T : Type*) where
  | insert (key : Text) (element : TrieElement T)
  | remove (key : Text) (address : ℕ)

/-- A `TrieWithDuplicates` after a call. SRCLINE: TrieWithDuplicates.hpp:23-35, 72-94 -/
def TrieCall.step {T : Type*} (root : TrieNode T) : TrieCall T → TrieNode T
  | insert key element => root.insert element key
  | remove key address => (root.remove address key).1

/-- A `TrieWithDuplicates` after some calls. SRCLINE: TrieWithDuplicates.hpp:18-21 -/
def trieAfter {T : Type*} (calls : List (TrieCall T)) : TrieNode T :=
  calls.foldl TrieCall.step TrieNode.new

end Soot.Program
