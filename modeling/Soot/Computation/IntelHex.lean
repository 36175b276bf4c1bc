import Soot.Computation.Texts

/-!
# The Intel HEX format

The records of a text, and the bytes that a list of records puts at addresses. A record of type 0
carries data, one of type 1 ends the file, those of the types 2 and 4 set the upper part of the
addresses that follow. A 16-bit address that is counted up past its last value goes on above it
or starts again at zero, as the reader of the format has it.
-/

set_option autoImplicit false

namespace Soot.Computation

structure HexRecord where
  address : ℕ
  type : UInt8
  data : List UInt8

namespace HexRecord

def ofHexDigit (b : UInt8) : Option ℕ :=
  if isDigit b then some (b.toNat - 48)
  else if byte 'A' ≤ b ∧ b ≤ byte 'F' then some (b.toNat - 55)
  else if byte 'a' ≤ b ∧ b ≤ byte 'f' then some (b.toNat - 87)
  else none

def readByte : Text → Option (UInt8 × Text)
  | a :: b :: rest => do
    let high ← ofHexDigit a
    let low ← ofHexDigit b
    return (UInt8.ofNat (16 * high + low), rest)
  | _ => none

def readBytes : ℕ → Text → Option (List UInt8 × Text)
  | 0, s => some ([], s)
  | n + 1, s => do
    let (b, s) ← readByte s
    let (l, s) ← readBytes n s
    return (b :: l, s)

/-- A record on a line of its own. Its bytes, with the checksum, come to zero. -/
def read (s : Text) : Option (HexRecord × Text) := do
  guard (s.head? = some (byte ':'))
  let (length, s) ← readByte s.tail
  let (high, s) ← readByte s
  let (low, s) ← readByte s
  let (type, s) ← readByte s
  let (data, s) ← readBytes length.toNat s
  let (check, s) ← readByte s
  guard (([length, high, low, type] ++ data).foldl (· + ·) 0 + check = 0)
  guard (s.head? = some (byte '\n'))
  return (⟨256 * high.toNat + low.toNat, type, data⟩, s.tail)

def readAll : ℕ → Text → Option (List HexRecord)
  | _, [] => some []
  | 0, _ => none
  | n + 1, s => do
    let (r, s) ← read s
    return r :: (← readAll n s)

def decode (s : Text) : Option (List HexRecord) := readAll s.length s

def segment (data : List UInt8) : ℕ := data.foldl (fun n b => 256 * n + b.toNat) 0

def placed (wraps : Bool) : ℕ → List HexRecord → List (UInt8 × ℕ)
  | _, [] => []
  | base, r :: rs =>
    if r.type = 0 then
      (r.data.zipIdx r.address).map (fun p => (p.1, base + if wraps then p.2 % 65536 else p.2)) ++
        placed wraps base rs
    else if r.type = 2 then placed wraps (16 * segment r.data) rs
    else if r.type = 4 then placed wraps (65536 * segment r.data) rs
    else placed wraps base rs

/-! ## Texts that spell records -/

theorem readBytes_append {l : List UInt8} {spelling : UInt8 → Text}
    (h : ∀ b rest, readByte (spelling b ++ rest) = some (b, rest)) (rest : Text) :
    readBytes l.length (l.flatMap spelling ++ rest) = some (l, rest) := by
  induction l with
  | nil => rfl
  | cons b l ih =>
    rw [List.flatMap_cons, List.append_assoc, List.length_cons, readBytes, h]
    simp [ih]

def Spells (s : Text) (rs : List HexRecord) : Prop :=
  ∀ n rest more, (∀ m, n ≤ m → readAll m rest = some more) →
    ∀ m, s.length + n ≤ m → readAll m (s ++ rest) = some (rs ++ more)

theorem spells_nil : Spells [] [] := fun n rest more h m hm => h m (by simpa using hm)

theorem Spells.append {s t : Text} {rs qs : List HexRecord} (hs : Spells s rs)
    (ht : Spells t qs) : Spells (s ++ t) (rs ++ qs) := by
  intro n rest more h m hm
  rw [List.append_assoc, List.append_assoc]
  apply hs (t.length + n) (t ++ rest) (qs ++ more) (ht n rest more h) m
  rw [List.length_append] at hm
  omega

theorem spells_record {s : Text} {r : HexRecord}
    (h : ∀ rest, read (s ++ rest) = some (r, rest)) : Spells s [r] := by
  intro n rest more hmore m hm
  have hread := h rest
  cases s with
  | nil => cases (h []).symm.trans (show read ([] ++ []) = none from rfl)
  | cons c s =>
    obtain ⟨m, rfl⟩ : ∃ k, m = k + 1 := ⟨m - 1, by simp at hm; omega⟩
    rw [List.cons_append] at hread ⊢
    simp [readAll, hread, hmore m (by simp at hm; omega)]

theorem Spells.decode_eq {s : Text} {rs : List HexRecord} (h : Spells s rs) :
    decode s = some rs := by
  have hall := h 0 [] [] (fun m _ => by cases m <;> rfl) s.length (Nat.le_refl _)
  rwa [List.append_nil, List.append_nil] at hall

/-! ## The bytes of data records -/

theorem placed_append_of_data {wraps : Bool} {rs : List HexRecord} (h : ∀ r ∈ rs, r.type = 0)
    (base : ℕ) (qs : List HexRecord) :
    placed wraps base (rs ++ qs) = placed wraps base rs ++ placed wraps base qs := by
  induction rs with
  | nil => rfl
  | cons r rs ih =>
    simp only [List.cons_append, placed, if_pos (h r List.mem_cons_self),
      ih fun r hr => h r (List.mem_cons_of_mem _ hr), List.append_assoc]

theorem row_iff (wraps : Bool) {l : List UInt8} (hl : l ≠ []) (m : ℕ) :
    (l.zipIdx (m % 65536)).map (fun p => (p.1, 0 + if wraps then p.2 % 65536 else p.2)) =
        l.zipIdx m ↔
      m + (if wraps then l.length - 1 else 0) < 65536 := by
  have hpos := List.length_pos_iff.mpr hl
  constructor
  · intro h
    have hat : ∀ j, j < l.length →
        (if wraps then (m % 65536 + j) % 65536 else m % 65536 + j) = m + j := by
      intro j hj
      have hsome := congrArg (fun p => p[j]?.map Prod.snd) h
      simpa [List.getElem?_zipIdx, List.getElem?_eq_getElem hj] using hsome
    have hlast := hat (l.length - 1) (by omega)
    have hfirst := hat 0 hpos
    cases wraps <;> simp at hlast hfirst ⊢ <;> omega
  · intro h
    have hm : m < 65536 := Nat.lt_of_le_of_lt (Nat.le_add_right _ _) h
    rw [Nat.mod_eq_of_lt hm]
    refine List.ext_getElem? fun j => ?_
    rw [List.getElem?_map, List.getElem?_zipIdx]
    cases hj : l[j]? with
    | none => rfl
    | some b =>
      have hlt := (List.getElem?_eq_some_iff.mp hj).1
      cases wraps
      · simp
      · simp only [Option.map_some, if_true, Nat.zero_add] at h ⊢
        rw [Nat.mod_eq_of_lt (by omega)]

end HexRecord

end Soot.Computation
