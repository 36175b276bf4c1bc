import Soot.Computation.Wrapping
import Soot.Model.Script.Evaluation
import Soot.Analysis.Script.Checks

/-!
# When the integer primitives are arithmetical

Every primitive answers, but for a division by zero or of the least integer by -1, and for an
arithmetic shift by 64 or more: `/` has no guard, `mod` has one for zero only, and `ash` takes such
an amount for one to the right. What they return is reduced to a word as the result over the
integers is, except that `rshift` by 64 or more is always zero.
-/

set_option autoImplicit false

namespace Soot.Analysis.Script

open Soot.Computation Soot.Program.Script Soot.Model.Script
open Soot.Program (I64)

variable {F : FloatArithmetic} {P : Printing} {form : Object}

/-! ## Answers -/

theorem Answered.ok {α : Type} (a : α) : Answered (.ok a : Except Failure α) := .inl ⟨a, rfl⟩

theorem Answered.evalError {α : Type} (obj : Object) (message : Text) :
    Answered (.error (evalError obj message) : Except Failure α) := .inr ⟨_, rfl⟩

theorem Answered.bind {α β : Type} {x : Except Failure α} {f : α → Except Failure β}
    (h : Answered x) (hf : ∀ a, Answered (f a)) : Answered (x >>= f) := by
  obtain ⟨a, rfl⟩ | ⟨e, rfl⟩ := h
  · exact hf a
  · exact .inr ⟨e, rfl⟩

theorem numberToInteger_answered (obj : Object) : Answered (numberToInteger F obj) := by
  cases obj <;> first | exact Answered.ok _ | exact Answered.evalError _ _

theorem numberToFloat_answered (obj : Object) : Answered (numberToFloat F obj) := by
  cases obj <;> first | exact Answered.ok _ | exact Answered.evalError _ _

section Templates

variable {T : Type} {N : Numeric T}

theorem mapM_cons_ok {arg : Object} {args : List Object} {l : List T}
    (h : (arg :: args).mapM N.number = .ok l) :
    ∃ t rest, l = t :: rest ∧ N.number arg = .ok t ∧ args.mapM N.number = .ok rest := by
  rw [List.mapM_cons] at h
  cases hnumber : N.number arg with
  | error e => simp [hnumber, bind, Except.bind] at h
  | ok t =>
    cases hrest : args.mapM N.number with
    | error e => simp [hnumber, hrest, bind, Except.bind] at h
    | ok rest =>
      simp only [hnumber, hrest, bind, Except.bind, pure, Except.pure, Except.ok.injEq] at h
      exact ⟨t, rest, h.symm, rfl, rfl⟩

theorem combine_answered (h : ∀ obj, Answered (N.number obj)) (op : T → T → T) (start : T)
    (args : List Object) : Answered (combine N op start args) := by
  induction args generalizing start with
  | nil => exact Answered.ok start
  | cons arg args ih =>
    rw [combine, List.foldlM_cons]
    apply Answered.bind (Answered.bind (h arg) fun _ => Answered.ok _)
    exact fun _ => ih _

theorem combine_eq (op : T → T → T) (start : T) {args : List Object} {l : List T}
    (h : args.mapM N.number = .ok l) : combine N op start args = .ok (l.foldl op start) := by
  induction args generalizing start l with
  | nil =>
    cases h
    rfl
  | cons arg args ih =>
    obtain ⟨t, rest, rfl, hnumber, hrest⟩ := mapM_cons_ok h
    rw [combine, List.foldlM_cons, hnumber]
    exact ih _ hrest

end Templates

theorem byFirst_answered {name : Text} {args : List Object}
    {ofIntegers ofFloats : Except Failure Object} (hint : ∀ a l, args = .int a :: l →
      Answered ofIntegers) (hfloat : Answered ofFloats) :
    Answered (byFirst form name args ofIntegers ofFloats) := by
  unfold byFirst
  split
  · exact hint _ _ rfl
  · exact hfloat
  · exact Answered.evalError _ _

theorem float_ne_int (x : Except Failure (BitVec 64)) (n : I64) :
    (do return Object.float (← x)) ≠ (.ok (.int n) : Except Failure Object) := by
  cases x <;> simp [bind, Except.bind, pure, Except.pure]

theorem ok_of_bind_int {x : Except Failure I64} {n : I64}
    (h : (do return Object.int (← x)) = (.ok (.int n) : Except Failure Object)) : x = .ok n := by
  cases x with
  | error e => simp [bind, Except.bind] at h
  | ok i => simpa [bind, Except.bind, pure, Except.pure] using h

theorem byFirst_int {name : Text} {args : List Object} {ofIntegers ofFloats : Except Failure Object}
    {n : I64} (hfloats : ofFloats ≠ .ok (.int n))
    (h : byFirst form name args ofIntegers ofFloats = .ok (.int n)) : ofIntegers = .ok (.int n) := by
  unfold byFirst at h
  split at h
  · exact h
  · exact absurd h hfloats
  · cases h

theorem mapM_pair {a b : Object} {l : List I64} (h : [a, b].mapM (numberToInteger F) = .ok l) :
    ∃ i j, l = [i, j] ∧ numberToInteger F a = .ok i ∧ numberToInteger F b = .ok j := by
  obtain ⟨i, rest, rfl, hi, hrest⟩ := mapM_cons_ok (N := integers F) h
  obtain ⟨j, rest, rfl, hj, hnil⟩ := mapM_cons_ok (N := integers F) hrest
  cases hnil
  exact ⟨i, j, rfl, hi, hj⟩

/-! ## Sums, products and differences -/

variable {args : Arguments} {n : I64} {l : List I64} {m : ℤ}

theorem sum_ofInt (l : List I64) :
    BitVec.ofInt 64 (l.map BitVec.toInt).sum = l.foldl (· + ·) 0 := by
  rw [List.sum_eq_foldl]
  exact ofInt_foldl (fun a b => BitVec.ofInt_add a b) l 0

theorem prod_ofInt (l : List I64) :
    BitVec.ofInt 64 (l.map BitVec.toInt).prod = l.foldl (· * ·) 1 := by
  rw [List.prod_eq_foldl]
  exact ofInt_foldl (fun a b => BitVec.ofInt_mul a b) l 1

section Folds

variable {name : Text} {op : I64 → I64 → I64} {start : I64}

/-- `eval_plus` and `eval_times`: a fold, whose start is the answer to no arguments. -/
theorem fold_answered (opFloat : BitVec 64 → BitVec 64 → BitVec 64) (startFloat : BitVec 64) :
    Answered (if args.named ≠ [] ∨ args.unnamed.isEmpty then .ok (.int start)
      else byFirst form name args.unnamed
        (do return .int (← combine (integers F) op start args.unnamed))
        (do return .float (← combine (floats F) opFloat startFloat args.unnamed))) := by
  split
  · exact Answered.ok _
  · apply byFirst_answered
    · intro _ _ _
      exact Answered.bind (combine_answered numberToInteger_answered _ _ _) fun _ => Answered.ok _
    · exact Answered.bind (combine_answered numberToFloat_answered _ _ _) fun _ => Answered.ok _

theorem fold_value {opFloat : BitVec 64 → BitVec 64 → BitVec 64} {startFloat : BitVec 64}
    (hrun : (if args.named ≠ [] ∨ args.unnamed.isEmpty then .ok (.int start)
      else byFirst form name args.unnamed
        (do return .int (← combine (integers F) op start args.unnamed))
        (do return .float (← combine (floats F) opFloat startFloat args.unnamed))) =
          (.ok (.int n) : Except Failure Object))
    (hnamed : args.named = []) (hl : args.unnamed.mapM (numberToInteger F) = .ok l) :
    n = l.foldl op start := by
  split at hrun
  · next hempty =>
    have hnil : args.unnamed = [] := by simpa [hnamed] using hempty
    rw [hnil] at hl
    cases hrun
    cases hl
    rfl
  · have hfold := ok_of_bind_int (byFirst_int (float_ne_int _ _) hrun)
    rw [combine_eq (N := integers F) _ _ hl] at hfold
    exact (Except.ok.inj hfold).symm

end Folds

theorem evalPlus_answered : Answered (evalPlus F form args) := fold_answered _ _

theorem evalPlus_value (hrun : evalPlus F form args = .ok (.int n)) (hnamed : args.named = [])
    (hl : args.unnamed.mapM (numberToInteger F) = .ok l) :
    n = BitVec.ofInt 64 (l.map BitVec.toInt).sum := by
  rw [sum_ofInt]
  exact fold_value hrun hnamed hl

theorem evalTimes_answered : Answered (evalTimes F form args) := fold_answered _ _

theorem evalTimes_value (hrun : evalTimes F form args = .ok (.int n)) (hnamed : args.named = [])
    (hl : args.unnamed.mapM (numberToInteger F) = .ok l) :
    n = BitVec.ofInt 64 (l.map BitVec.toInt).prod := by
  rw [prod_ofInt]
  exact fold_value hrun hnamed hl

theorem difference_ofInt (a : ℤ) (l : List I64) :
    BitVec.ofInt 64 (a - (l.map BitVec.toInt).sum) = l.foldl (· - ·) (BitVec.ofInt 64 a) := by
  induction l generalizing a with
  | nil => simp
  | cons b l ih =>
    have hsub := ih (a - b.toInt)
    rw [ofInt_sub a, BitVec.ofInt_toInt] at hsub
    rw [List.map_cons, List.sum_cons, List.foldl_cons, ← hsub, sub_sub]

theorem numMinus_cons {T : Type} (N : Numeric T) (a b : Object) (more : List Object) :
    numMinus N (a :: b :: more) =
      (do return N.make (← combine N N.sub (← N.number a) (b :: more))) := rfl

theorem numMinus_ne_int (args : List Object) (n : I64) :
    numMinus (floats F) args ≠ .ok (.int n) := by
  match args with
  | [] => exact nofun
  | [arg] =>
    cases h : numberToFloat F arg <;>
      simp [numMinus, floats, h, bind, Except.bind, pure, Except.pure]
  | arg :: b :: more =>
    cases h : numberToFloat F arg with
    | error e => simp [numMinus, floats, h, bind, Except.bind]
    | ok t =>
      rw [numMinus_cons, show (floats F).number arg = .ok t from h]
      exact float_ne_int _ n

theorem numMinus_answered {T : Type} {N : Numeric T} (h : ∀ obj, Answered (N.number obj))
    {args : List Object} (hne : args ≠ []) : Answered (numMinus N args) := by
  match args, hne with
  | [arg], _ => exact Answered.bind (h arg) fun _ => Answered.ok _
  | arg :: _ :: _, _ =>
    apply Answered.bind (h arg)
    exact fun t => Answered.bind (combine_answered h _ t _) fun _ => Answered.ok _

theorem evalMinus_answered : Answered (evalMinus F form args) := by
  unfold evalMinus
  split
  · exact Answered.ok _
  · next hempty =>
    have hne : args.unnamed ≠ [] := by
      rintro hnil
      simp [hnil] at hempty
    apply byFirst_answered
    · exact fun _ _ _ => numMinus_answered numberToInteger_answered hne
    · exact numMinus_answered numberToFloat_answered hne

theorem evalMinus_value (hrun : evalMinus F form args = .ok (.int n)) (hnamed : args.named = [])
    (hl : args.unnamed.mapM (numberToInteger F) = .ok l)
    (hm : NumberPrimitive.minus.mathematical (l.map BitVec.toInt) = some m) :
    n = BitVec.ofInt 64 m := by
  unfold evalMinus at hrun
  split at hrun
  · next hempty =>
    have hnil : args.unnamed = [] := by simpa [hnamed] using hempty
    rw [hnil] at hl
    cases hrun
    cases hl
    cases hm
    rfl
  · match hargs : args.unnamed, hl, hrun with
    | [], _, hrun => cases hrun
    | [a], hl, hrun =>
      obtain ⟨i, rest, rfl, hi, hnil⟩ := mapM_cons_ok (N := integers F) hl
      cases hnil
      cases hm
      have hneg := byFirst_int (numMinus_ne_int _ _) hrun
      simp only [numMinus, hi, bind, Except.bind, pure, Except.pure, Except.ok.injEq] at hneg
      rw [BitVec.ofInt_neg, BitVec.ofInt_toInt]
      exact (Object.int.inj hneg).symm
    | a :: b :: more, hl, hrun =>
      obtain ⟨i, rest, rfl, hi, hrest⟩ := mapM_cons_ok (N := integers F) hl
      have hsub := byFirst_int (numMinus_ne_int _ _) hrun
      rw [numMinus_cons, hi] at hsub
      have hcombine := ok_of_bind_int hsub
      rw [combine_eq (N := integers F) _ _ hrest] at hcombine
      obtain ⟨j, rest, rfl, -, -⟩ := mapM_cons_ok (N := integers F) hrest
      cases hm
      rw [difference_ofInt, BitVec.ofInt_toInt]
      exact (Except.ok.inj hcombine).symm

/-! ## Checked operands -/

theorem checked_answered {allowed : List Allowed} {k : Except Failure Object}
    (h : args.named = [] → Allowable args.unnamed allowed → Answered k) :
    Answered (do varargCheck P form args allowed; k) := by
  by_cases hpass : args.named = [] ∧ Allowable args.unnamed allowed
  · rw [varargCheck_ok hpass.1 hpass.2]
    exact h hpass.1 hpass.2
  · obtain ⟨e, he⟩ := varargCheck_error P form hpass
    rw [he]
    exact .inr ⟨e, rfl⟩

theorem checked_value {allowed : List Allowed} {k : Except Failure Object} {v : Object}
    (h : (do varargCheck P form args allowed; k) = .ok v) :
    args.named = [] ∧ Allowable args.unnamed allowed ∧ k = .ok v := by
  by_cases hpass : args.named = [] ∧ Allowable args.unnamed allowed
  · rw [varargCheck_ok hpass.1 hpass.2] at h
    exact ⟨hpass.1, hpass.2, h⟩
  · obtain ⟨e, he⟩ := varargCheck_error P form hpass
    rw [he] at h
    cases h

theorem allowable_pair {l : List Object} {s t : Allowed} (h : Allowable l [s, t]) :
    ∃ a b, l = [a, b] ∧ (s = [] ∨ a.typeName ∈ s) ∧ (t = [] ∨ b.typeName ∈ t) := by
  cases h with
  | cons ha h =>
    cases h with
    | cons hb h =>
      cases h
      exact ⟨_, _, rfl, ha, hb⟩

theorem int_of_typeName {obj : Object} (h : [text "int"] = [] ∨ obj.typeName ∈ [text "int"]) :
    ∃ i, obj = .int i := by
  have htype : obj.typeName = text "int" := by simpa using h
  cases obj with
  | int i => exact ⟨i, rfl⟩
  | heapObject type ref =>
    cases type <;>
    · simp only [Object.typeName] at htype
      exfalso
      revert htype
      with_unfolding_all decide
  | _ =>
    simp only [Object.typeName] at htype
    exfalso
    revert htype
    with_unfolding_all decide

theorem allowable_ints {l : List Object} (h : Allowable l [[text "int"], [text "int"]]) :
    ∃ i j, l = [.int i, .int j] := by
  obtain ⟨a, b, rfl, ha, hb⟩ := allowable_pair h
  obtain ⟨i, rfl⟩ := int_of_typeName ha
  obtain ⟨j, rfl⟩ := int_of_typeName hb
  exact ⟨i, j, rfl⟩

theorem checked_answered_iff {allowed : List Allowed} {k : Except Failure Object} {Q : Prop}
    (hpass : args.named = [] → Allowable args.unnamed allowed → (Answered k ↔ Q))
    (hfail : ¬Allowable args.unnamed allowed → Q) :
    Answered (do varargCheck P form args allowed; k) ↔ (args.named = [] → Q) := by
  by_cases hnamed : args.named = []
  · by_cases hallowed : Allowable args.unnamed allowed
    · rw [varargCheck_ok hnamed hallowed]
      simp only [hnamed, forall_const]
      exact hpass hnamed hallowed
    · simp only [hnamed, hfail hallowed, forall_const, iff_true]
      exact checked_answered fun _ h => absurd h hallowed
  · simp only [hnamed, false_imp_iff, iff_true]
    exact checked_answered fun h _ => absurd h hnamed

/-! ## Quotients and remainders -/

theorem not_answered_undefined {α : Type} :
    ¬Answered (.error .undefinedBehaviour : Except Failure α) := by
  rintro (⟨_, h⟩ | ⟨_, h⟩) <;> cases h

theorem quotient_answered_iff (a b : I64) :
    Answered (quotient a b) ↔ b ≠ 0 ∧ ¬(a = intMin ∧ b = -1) := by
  unfold quotient
  split
  · next hbad =>
    simp only [not_answered_undefined, false_iff]
    tauto
  · next hgood =>
    simp only [Answered.ok, true_iff]
    tauto

theorem remainder_answered_iff (a b : I64) :
    Answered (remainder a b) ↔ b ≠ 0 ∧ ¬(a = intMin ∧ b = -1) := by
  unfold remainder
  split
  · next hbad =>
    simp only [not_answered_undefined, false_iff]
    tauto
  · next hgood =>
    simp only [Answered.ok, true_iff]
    tauto

theorem bind_answered_iff {α β : Type} {x : Except Failure α} (f : α → β) :
    Answered (do return f (← x)) ↔ Answered x := by
  cases x with
  | ok a => exact iff_of_true (Answered.ok _) (Answered.ok _)
  | error e => simp [Answered, bind, Except.bind]

theorem numDivide_answered_iff (i : I64) (b : Object) :
    Answered (numDivide (integers F) [.int i, b]) ↔
      NumberPrimitive.divide.Allows F [.int i, b] := by
  simp only [NumberPrimitive.Allows]
  cases hb : numberToInteger F b with
  | ok j =>
    have hdivide : numDivide (integers F) [.int i, b] = (do return .int (← quotient i j)) := by
      simp only [numDivide, integers, hb]
      rfl
    rw [hdivide, bind_answered_iff, quotient_answered_iff]
    simp
  | error e =>
    have hanswered := numberToInteger_answered (F := F) b
    have hdivide : numDivide (integers F) [.int i, b] = .error e := by
      simp only [numDivide, integers, hb]
      rfl
    rw [hb] at hanswered
    rw [hdivide]
    simpa [Answered] using hanswered

theorem evalDivide_answered_iff :
    Answered (evalDivide F P form args) ↔
      (args.named = [] → NumberPrimitive.divide.Allows F args.unnamed) := by
  apply checked_answered_iff
  · intro _ hallowed
    obtain ⟨a, b, hargs, -⟩ := allowable_pair hallowed
    rw [hargs]
    cases a with
    | int i => exact numDivide_answered_iff i b
    | float x =>
      apply iff_of_true _ trivial
      apply Answered.bind (numberToFloat_answered _)
      exact fun _ => Answered.ok _
    | _ => exact iff_of_true (Answered.evalError _ _) trivial
  · intro hfail
    unfold NumberPrimitive.Allows
    split <;> first | trivial | skip
    next _ _ _ _ _ hargs =>
      rw [hargs] at hfail
      exact absurd (.cons (.inl rfl) (.cons (.inl rfl) .nil)) hfail

theorem numDivide_ne_int (a b : Object) (n : I64) :
    numDivide (floats F) [a, b] ≠ .ok (.int n) := by
  cases ha : numberToFloat F a <;> cases hb : numberToFloat F b <;>
    simp [numDivide, floats, ha, hb, bind, Except.bind, pure, Except.pure]

theorem quotient_eq {i j : I64} (h : quotient i j = .ok n) :
    n = BitVec.ofInt 64 (i.toInt.tdiv j.toInt) := by
  unfold quotient at h
  split at h
  · cases h
  · cases h
    exact sdiv_eq_ofInt i j

theorem remainder_eq {i j : I64} (h : remainder i j = .ok n) :
    n = BitVec.ofInt 64 (i.toInt.tmod j.toInt) := by
  unfold remainder at h
  split at h
  · cases h
  · cases h
    rw [← BitVec.toInt_srem, BitVec.ofInt_toInt]

theorem evalDivide_value (hrun : evalDivide F P form args = .ok (.int n))
    (hl : args.unnamed.mapM (numberToInteger F) = .ok l)
    (hm : NumberPrimitive.divide.mathematical (l.map BitVec.toInt) = some m) :
    n = BitVec.ofInt 64 m := by
  obtain ⟨-, hallowed, hdivide⟩ := checked_value hrun
  obtain ⟨a, b, hargs, -⟩ := allowable_pair hallowed
  rw [hargs] at hl hdivide
  obtain ⟨i, j, rfl, hi, hj⟩ := mapM_pair hl
  have hint := byFirst_int (numDivide_ne_int a b n) hdivide
  simp only [numDivide, integers, hi, hj] at hint
  rw [quotient_eq (ok_of_bind_int hint)]
  simp only [List.map_cons, List.map_nil, NumberPrimitive.mathematical_divide] at hm
  split at hm
  · cases hm
  · exact congrArg _ (Option.some.inj hm)

theorem evalMod_answered_iff :
    Answered (evalMod P form args) ↔
      (args.named = [] → NumberPrimitive.mod.Allows F args.unnamed) := by
  apply checked_answered_iff
  · intro _ hallowed
    obtain ⟨a, b, hargs⟩ := allowable_ints hallowed
    rw [hargs]
    simp only [NumberPrimitive.Allows]
    by_cases hzero : b = 0
    · simp only [hzero, if_true]
      exact iff_of_true (Answered.evalError _ _) (by rintro ⟨-, h⟩; cases h)
    · simp only [hzero, if_false]
      rw [bind_answered_iff, remainder_answered_iff]
      exact and_iff_right hzero
  · intro hfail
    unfold NumberPrimitive.Allows
    split <;> first | trivial | skip
    next _ _ _ _ _ hargs =>
      rw [hargs] at hfail
      apply absurd _ hfail
      exact .cons (.inr (List.mem_singleton_self _)) (.cons (.inr (List.mem_singleton_self _)) .nil)

theorem evalMod_value (hrun : evalMod P form args = .ok (.int n))
    (hl : args.unnamed.mapM (numberToInteger F) = .ok l)
    (hm : NumberPrimitive.mod.mathematical (l.map BitVec.toInt) = some m) :
    n = BitVec.ofInt 64 m := by
  obtain ⟨-, hallowed, hmod⟩ := checked_value hrun
  obtain ⟨i, j, hargs⟩ := allowable_ints hallowed
  rw [hargs] at hl hmod
  obtain ⟨_, _, rfl, ⟨⟩, ⟨⟩⟩ := mapM_pair hl
  simp only at hmod
  split at hmod
  · cases hmod
  · rw [remainder_eq (ok_of_bind_int hmod)]
    simp only [List.map_cons, List.map_nil, NumberPrimitive.mathematical_mod] at hm
    split at hm
    · cases hm
    · exact congrArg _ (Option.some.inj hm)

/-! ## Shifts -/

theorem toNat_of_nonneg {s : I64} (h : 0 ≤ s.toInt) : s.toNat = s.toInt.toNat := by
  rw [BitVec.toInt_eq_toNat_cond] at h ⊢
  split at h <;> omega

theorem toInt_neg_amount {s : I64} (h : -64 < s.toInt) : (-s).toInt = -s.toInt := by
  apply BitVec.toInt_neg_of_ne_intMin
  rintro rfl
  exact absurd h (by decide)

theorem shiftLeft_eq {a s : I64} (hlow : 0 ≤ s.toInt) (hhigh : s.toInt < 64) :
    shiftLeft a s = .ok (BitVec.ofInt 64 (a.toInt * 2 ^ s.toInt.toNat)) := by
  rw [shiftLeft, if_pos ⟨hlow, hhigh⟩, shiftLeft_eq_ofInt, toNat_of_nonneg hlow]

theorem shiftRight_eq {a s : I64} (hlow : 0 ≤ s.toInt) (hhigh : s.toInt < 64) :
    shiftRight a s = .ok (BitVec.ofInt 64 (a.toInt / 2 ^ s.toInt.toNat)) := by
  rw [shiftRight, if_pos ⟨hlow, hhigh⟩, sshiftRight_eq_ofInt, toNat_of_nonneg hlow]

/-- `ash` on numbers. -/
def ashOf (form : Object) (val sa : I64) : Except Failure Object := do
  if sa.toInt ≥ 0 ∧ sa.toInt < 64 then return .int (← shiftLeft val sa)
  else if sa.toInt > -64 then return .int (← shiftRight val (-sa))
  else throw (evalError form (text "Shift amount " ++ intDigits sa.toInt ++
      text " is out of range"))

theorem ashOf_answered_iff (a s : I64) : Answered (ashOf form a s) ↔ s.toInt < 64 := by
  unfold ashOf
  split
  · next h =>
    rw [shiftLeft_eq h.1 h.2]
    exact iff_of_true (Answered.ok _) h.2
  · next h =>
    split
    · next hlow =>
      rw [bind_answered_iff]
      by_cases hhigh : s.toInt < 64
      · have hneg := toInt_neg_amount hlow
        rw [shiftRight_eq (by omega) (by omega)]
        exact iff_of_true (Answered.ok _) hhigh
      · have hneg := toInt_neg_amount hlow
        rw [shiftRight, if_neg (by omega)]
        exact iff_of_false not_answered_undefined hhigh
    · exact iff_of_true (Answered.evalError _ _) (by omega)

theorem ashOf_value {a s : I64} (h : ashOf form a s = .ok (.int n)) :
    n = BitVec.ofInt 64
      (if 0 ≤ s.toInt then a.toInt * 2 ^ s.toInt.toNat else a.toInt / 2 ^ (-s.toInt).toNat) := by
  unfold ashOf at h
  split at h
  · next hrange =>
    rw [shiftLeft_eq hrange.1 hrange.2] at h
    rw [if_pos hrange.1]
    exact (Object.int.inj (Except.ok.inj h)).symm
  · next hrange =>
    split at h
    · next hlow =>
      have hneg := toInt_neg_amount hlow
      have hshift := ok_of_bind_int h
      by_cases hhigh : s.toInt < 64
      · rw [shiftRight_eq (by omega) (by omega), hneg] at hshift
        rw [if_neg (by omega)]
        exact (Except.ok.inj hshift).symm
      · rw [shiftRight, if_neg (by omega)] at hshift
        cases hshift
    · cases h

theorem evalAsh_answered_iff :
    Answered (evalAsh F P form args) ↔
      (args.named = [] → NumberPrimitive.ash.Allows F args.unnamed) := by
  apply checked_answered_iff
  · intro _ hallowed
    obtain ⟨a, b, hargs, -⟩ := allowable_pair hallowed
    rw [hargs]
    simp only [NumberPrimitive.Allows]
    have hval := numberToInteger_answered (F := F) a
    have hamount := numberToInteger_answered (F := F) b
    obtain ⟨i, hi⟩ | ⟨e, he⟩ := hval
    · obtain ⟨j, hj⟩ | ⟨e, he⟩ := hamount
      · simp only [hi, hj]
        refine (ashOf_answered_iff i j).trans ?_
        simp
      · simp only [hi, he]
        exact iff_of_true (.inr ⟨e, rfl⟩) (by rintro _ _ _ ⟨⟩)
    · simp only [he]
      exact iff_of_true (.inr ⟨e, rfl⟩) (by rintro _ _ ⟨⟩)
  · intro hfail
    unfold NumberPrimitive.Allows
    split <;> first | trivial | skip
    next _ _ _ _ _ hargs =>
      rw [hargs] at hfail
      exact absurd (.cons (.inl rfl) (.cons (.inl rfl) .nil)) hfail

theorem evalAsh_value (hrun : evalAsh F P form args = .ok (.int n))
    (hl : args.unnamed.mapM (numberToInteger F) = .ok l)
    (hm : NumberPrimitive.ash.mathematical (l.map BitVec.toInt) = some m) :
    n = BitVec.ofInt 64 m := by
  obtain ⟨-, hallowed, hash⟩ := checked_value hrun
  obtain ⟨a, b, hargs, -⟩ := allowable_pair hallowed
  rw [hargs] at hl hash
  obtain ⟨i, j, rfl, hi, hj⟩ := mapM_pair hl
  simp only [hi, hj] at hash
  cases hm
  exact ashOf_value hash

theorem evalShift_answered {shift : I64 → I64 → Except Failure I64}
    (h : ∀ a s : I64, 0 ≤ s.toInt → s.toInt < 64 → Answered (shift a s)) :
    Answered (evalShift P form shift args) := by
  apply checked_answered
  intro _ hallowed
  obtain ⟨a, s, hargs⟩ := allowable_ints hallowed
  rw [hargs]
  simp only
  split
  · exact Answered.ok _
  · split
    · exact Answered.ok _
    · exact Answered.bind (h a s (by omega) (by omega)) fun _ => Answered.ok _

theorem evalShift_value {shift : I64 → I64 → Except Failure I64}
    (hrun : evalShift P form shift args = .ok (.int n)) :
    ∃ a s, args.unnamed = [.int a, .int s] ∧
      (s.toInt < 0 ∨ 64 ≤ s.toInt ∧ n = 0 ∨ 0 ≤ s.toInt ∧ s.toInt < 64 ∧ shift a s = .ok n) := by
  obtain ⟨-, hallowed, hshift⟩ := checked_value hrun
  obtain ⟨a, s, hargs⟩ := allowable_ints hallowed
  refine ⟨a, s, hargs, ?_⟩
  rw [hargs] at hshift
  simp only at hshift
  split at hshift
  · next hneg => exact .inl hneg
  · next hneg =>
    split at hshift
    · next hlarge =>
      cases hshift
      exact .inr (.inl ⟨hlarge, rfl⟩)
    · exact .inr (.inr ⟨by omega, by omega, ok_of_bind_int hshift⟩)

theorem evalLshift_value (hrun : evalLshift P form args = .ok (.int n))
    (hl : args.unnamed.mapM (numberToInteger F) = .ok l)
    (hm : NumberPrimitive.lshift.mathematical (l.map BitVec.toInt) = some m) :
    n = BitVec.ofInt 64 m := by
  obtain ⟨a, s, hargs, hcases⟩ := evalShift_value hrun
  rw [hargs] at hl
  obtain ⟨_, _, rfl, ⟨⟩, ⟨⟩⟩ := mapM_pair hl
  simp only [List.map_cons, List.map_nil, NumberPrimitive.mathematical_lshift] at hm
  split at hm
  · cases hm
  · next hneg =>
    cases hm
    obtain hneg' | ⟨hlarge, rfl⟩ | ⟨hlow, hhigh, hshift⟩ := hcases
    · exact absurd hneg' hneg
    · rw [← shiftLeft_eq_ofInt, BitVec.shiftLeft_eq_zero (by omega)]
      rfl
    · rw [shiftLeft_eq hlow hhigh] at hshift
      exact (Except.ok.inj hshift).symm

theorem two_pow_le {k : ℕ} (h : 64 ≤ k) : (2 : ℤ) ^ 63 ≤ 2 ^ k := by
  exact_mod_cast Nat.pow_le_pow_right Nat.zero_lt_two (by omega : 63 ≤ k)

theorem ediv_eq_zero {a : I64} {k : ℕ} (ha : 0 ≤ a.toInt) (hk : 64 ≤ k) : a.toInt / 2 ^ k = 0 := by
  have hlt : a.toInt < 2 ^ 63 := BitVec.toInt_lt
  apply Int.ediv_eq_zero_of_lt ha
  calc a.toInt < 2 ^ 63 := hlt
    _ ≤ 2 ^ k := two_pow_le hk

theorem evalRshift_value (hallows : NumberPrimitive.rshift.Allows F args.unnamed)
    (hrun : evalRshift P form args = .ok (.int n))
    (hl : args.unnamed.mapM (numberToInteger F) = .ok l)
    (hm : NumberPrimitive.rshift.mathematical (l.map BitVec.toInt) = some m) :
    n = BitVec.ofInt 64 m := by
  obtain ⟨a, s, hargs, hcases⟩ := evalShift_value hrun
  rw [hargs] at hl hallows
  obtain ⟨_, _, rfl, ⟨⟩, ⟨⟩⟩ := mapM_pair hl
  simp only [List.map_cons, List.map_nil, NumberPrimitive.mathematical_rshift] at hm
  split at hm
  · cases hm
  · next hneg =>
    cases hm
    obtain hneg' | ⟨hlarge, rfl⟩ | ⟨hlow, hhigh, hshift⟩ := hcases
    · exact absurd hneg' hneg
    · have ha : 0 ≤ a.toInt := by
        by_contra hlt
        have := hallows (by omega)
        omega
      rw [ediv_eq_zero ha (by omega)]
      rfl
    · rw [shiftRight_eq hlow hhigh] at hshift
      exact (Except.ok.inj hshift).symm

theorem evalRshift_wrong (P : Printing) (form : Object) {a s : I64} (hnamed : args.named = [])
    (hargs : args.unnamed = [.int a, .int s]) (ha : a.toInt < 0) (hs : 64 ≤ s.toInt) :
    evalRshift P form args = .ok (.int 0) ∧
      NumberPrimitive.rshift.mathematical [a.toInt, s.toInt] = some (-1) := by
  constructor
  · have hallowed : Allowable args.unnamed [[text "int"], [text "int"]] := by
      rw [hargs]
      exact .cons (.inr (List.mem_singleton_self _)) (.cons (.inr (List.mem_singleton_self _)) .nil)
    rw [evalRshift, evalShift, varargCheck_ok hnamed hallowed, hargs]
    simp only
    rw [if_neg (by omega), if_pos (by omega)]
    rfl
  · have hlow : -2 ^ 63 ≤ a.toInt := BitVec.le_toInt a
    have hpow : (2 : ℤ) ^ 63 ≤ 2 ^ s.toInt.toNat := two_pow_le (by omega)
    have hdiv : a.toInt / 2 ^ s.toInt.toNat = -1 := by
      apply Int.ediv_eq_neg_one_of_neg_of_le <;> omega
    rw [NumberPrimitive.mathematical_rshift, if_neg (by omega), hdiv]

/-! ## Absolute values, the best of numbers, and powers -/

theorem evalAbs_answered : Answered (evalAbs F form args) := by
  unfold evalAbs
  split
  · exact Answered.evalError _ _
  · split
    · exact Answered.evalError _ _
    · exact Answered.ok _
    · exact Answered.ok _
    · exact Answered.evalError _ _

theorem evalAbs_value (hrun : evalAbs F form args = .ok (.int n))
    (hl : args.unnamed.mapM (numberToInteger F) = .ok l)
    (hm : NumberPrimitive.abs.mathematical (l.map BitVec.toInt) = some m) :
    n = BitVec.ofInt 64 m := by
  unfold evalAbs at hrun
  split at hrun
  · cases hrun
  · split at hrun
    · cases hrun
    · next val rest hargs =>
      rw [hargs] at hl
      obtain ⟨i, more, rfl, ⟨⟩, hmore⟩ := mapM_cons_ok (N := integers F) hl
      cases more with
      | nil =>
        cases hm
        have hn := Object.int.inj (Except.ok.inj hrun)
        rw [← hn]
        split
        · next hneg =>
          rw [Int.ofNat_natAbs_of_nonpos (by omega), BitVec.ofInt_neg, BitVec.ofInt_toInt]
        · next hneg =>
          rw [Int.natAbs_of_nonneg (by omega), BitVec.ofInt_toInt]
      | cons j more => cases hm
    · cases hrun
    · cases hrun

section Best

variable {name : Text} {better : I64 → I64 → Bool} {betterFloat : BitVec 64 → BitVec 64 → Bool}

theorem evalBest_answered : Answered (evalBest F form name better betterFloat args) := by
  unfold evalBest
  split
  · exact Answered.evalError _ _
  · next hempty =>
    split
    · exact Answered.evalError _ _
    · next hnumbers =>
      split
      · exact Answered.bind (combine_answered numberToInteger_answered _ _ _) fun _ => Answered.ok _
      · exact Answered.bind (combine_answered numberToFloat_answered _ _ _) fun _ => Answered.ok _
      · next hint hfloat =>
        -- The first argument is there, and is a number.
        cases hargs : args.unnamed with
        | nil => simp [hargs] at hempty
        | cons obj rest =>
          simp only [hargs, List.any_cons, Bool.or_eq_true, not_or] at hnumbers
          cases obj with
          | int i => exact absurd hargs (hint i rest)
          | float x => exact absurd hargs (hfloat x rest)
          | _ => exact absurd rfl hnumbers.1

theorem evalBest_value {f : ℤ → ℤ → ℤ}
    (h : ∀ best val : I64, (if better val best then val else best).toInt = f best.toInt val.toInt)
    (hrun : evalBest F form name better betterFloat args = .ok (.int n))
    (hl : args.unnamed.mapM (numberToInteger F) = .ok l) :
    ∃ a rest, l = a :: rest ∧ n.toInt = (rest.map BitVec.toInt).foldl f a.toInt := by
  unfold evalBest at hrun
  split at hrun
  · cases hrun
  · split at hrun
    · cases hrun
    · split at hrun
      · next first rest hargs =>
        rw [hargs] at hl
        obtain ⟨_, more, rfl, ⟨⟩, hmore⟩ := mapM_cons_ok (N := integers F) hl
        have hbest := ok_of_bind_int hrun
        rw [combine_eq (N := integers F) _ _ hmore] at hbest
        cases hbest
        exact ⟨_, _, rfl, toInt_foldl h more first⟩
      · exact absurd hrun (float_ne_int _ n)
      · cases hrun

end Best

theorem evalMax_value (hrun : evalMax F form args = .ok (.int n))
    (hl : args.unnamed.mapM (numberToInteger F) = .ok l)
    (hm : NumberPrimitive.max.mathematical (l.map BitVec.toInt) = some m) : n.toInt = m := by
  obtain ⟨a, rest, rfl, hn⟩ := evalBest_value (f := Max.max) (by
    intro best val
    simp only [BitVec.slt, decide_eq_true_eq]
    split <;> omega) hrun hl
  cases hm
  exact hn

theorem evalMin_value (hrun : evalMin F form args = .ok (.int n))
    (hl : args.unnamed.mapM (numberToInteger F) = .ok l)
    (hm : NumberPrimitive.min.mathematical (l.map BitVec.toInt) = some m) : n.toInt = m := by
  obtain ⟨a, rest, rfl, hn⟩ := evalBest_value (f := Min.min) (by
    intro best val
    simp only [BitVec.slt, decide_eq_true_eq]
    split <;> omega) hrun hl
  cases hm
  exact hn

theorem evalExpt_answered : Answered (evalExpt F P form args) := by
  apply checked_answered
  intro _ hallowed
  obtain ⟨a, b, hargs, -⟩ := allowable_pair hallowed
  rw [hargs]
  simp only
  split
  · exact Answered.evalError _ _
  · split
    · split
      · exact Answered.ok _
      · exact Answered.ok _
    · apply Answered.bind (numberToFloat_answered a)
      intro x
      exact Answered.bind (numberToFloat_answered b) fun y => Answered.ok _

theorem evalExpt_value (hrun : evalExpt F P form args = .ok (.int n))
    (hl : args.unnamed.mapM (numberToInteger F) = .ok l)
    (hm : NumberPrimitive.expt.mathematical (l.map BitVec.toInt) = some m) :
    n = BitVec.ofInt 64 m := by
  obtain ⟨-, hallowed, hexpt⟩ := checked_value hrun
  obtain ⟨a, b, hargs, -⟩ := allowable_pair hallowed
  rw [hargs] at hl hexpt
  obtain ⟨i, j, rfl, hi, hj⟩ := mapM_pair hl
  simp only at hexpt
  split at hexpt
  · cases hexpt
  · split at hexpt
    · cases hi
      cases hj
      simp only [List.map_cons, List.map_nil, NumberPrimitive.mathematical_expt] at hm
      split at hexpt
      · cases hexpt
      · next hneg =>
        rw [if_neg hneg] at hm
        cases hm
        cases hexpt
        exact iterate_mul _ _
    · cases hx : numberToFloat F a <;> cases hy : numberToFloat F b <;>
        simp [hx, hy, bind, Except.bind, pure, Except.pure] at hexpt

/-! ## Bits -/

section Bitwise

variable {op : I64 → I64 → I64} {start : I64}

/-- `eval_logand` and `eval_logxor`: a fold from the first argument. -/
theorem foldFirst_answered : Answered (match args.unnamed with
    | [] => .ok (.int start)
    | first :: rest => do
      return .int (← combine (integers F) op (← numberToInteger F first) rest) :
    Except Failure Object) := by
  split
  · exact Answered.ok _
  · apply Answered.bind (numberToInteger_answered _)
    intro i
    exact Answered.bind (combine_answered numberToInteger_answered _ _ _) fun _ => Answered.ok _

theorem foldFirst_value (hstart : ∀ i, op start i = i)
    (hrun : (match args.unnamed with
      | [] => .ok (.int start)
      | first :: rest => do
        return .int (← combine (integers F) op (← numberToInteger F first) rest)) =
          (.ok (.int n) : Except Failure Object))
    (hl : args.unnamed.mapM (numberToInteger F) = .ok l) : n = l.foldl op start := by
  split at hrun
  · next hargs =>
    rw [hargs] at hl
    cases hl
    cases hrun
    rfl
  · next first rest hargs =>
    rw [hargs] at hl
    obtain ⟨i, more, rfl, hi, hmore⟩ := mapM_cons_ok (N := integers F) hl
    rw [show numberToInteger F first = .ok i from hi] at hrun
    have hfold := ok_of_bind_int hrun
    rw [combine_eq (N := integers F) _ _ hmore] at hfold
    cases hfold
    rw [List.foldl_cons, hstart]

end Bitwise

theorem evalLogand_answered : Answered (evalLogand F args) := foldFirst_answered

theorem evalLogand_value (hrun : evalLogand F args = .ok (.int n))
    (hl : args.unnamed.mapM (numberToInteger F) = .ok l) :
    n = BitVec.ofInt 64 ((l.map BitVec.toInt).foldl Int.land (-1)) := by
  rw [ofInt_foldl ofInt_land]
  exact foldFirst_value (fun _ => BitVec.allOnes_and) hrun hl

theorem evalLogior_answered : Answered (evalLogior F args) :=
  Answered.bind (combine_answered numberToInteger_answered _ _ _) fun _ => Answered.ok _

theorem evalLogior_value (hrun : evalLogior F args = .ok (.int n))
    (hl : args.unnamed.mapM (numberToInteger F) = .ok l) :
    n = BitVec.ofInt 64 ((l.map BitVec.toInt).foldl Int.lor 0) := by
  have hfold := ok_of_bind_int hrun
  rw [combine_eq (N := integers F) _ _ hl] at hfold
  cases hfold
  exact (ofInt_foldl ofInt_lor l 0).symm

theorem evalLogxor_answered : Answered (evalLogxor F args) := foldFirst_answered

theorem evalLogxor_value (hrun : evalLogxor F args = .ok (.int n))
    (hl : args.unnamed.mapM (numberToInteger F) = .ok l) :
    n = BitVec.ofInt 64 ((l.map BitVec.toInt).foldl Int.xor 0) := by
  rw [ofInt_foldl ofInt_xor]
  exact foldFirst_value (fun _ => BitVec.zero_xor) hrun hl

theorem allowable_one {l : List Object} (h : Allowable l [[]]) : ∃ a, l = [a] := by
  cases h with
  | cons ha h =>
    cases h
    exact ⟨_, rfl⟩

theorem evalLognot_answered : Answered (evalLognot F P form args) := by
  apply checked_answered
  intro _ hallowed
  obtain ⟨a, hargs⟩ := allowable_one hallowed
  rw [hargs]
  exact Answered.bind (numberToInteger_answered a) fun _ => Answered.ok _

theorem evalLognot_value (hrun : evalLognot F P form args = .ok (.int n))
    (hl : args.unnamed.mapM (numberToInteger F) = .ok l)
    (hm : NumberPrimitive.lognot.mathematical (l.map BitVec.toInt) = some m) :
    n = BitVec.ofInt 64 m := by
  obtain ⟨-, hallowed, hnot⟩ := checked_value hrun
  obtain ⟨a, hargs⟩ := allowable_one hallowed
  rw [hargs] at hl hnot
  obtain ⟨i, more, rfl, hi, hnil⟩ := mapM_cons_ok (N := integers F) hl
  cases hnil
  cases hm
  simp only [show numberToInteger F a = .ok i from hi] at hnot
  cases hnot
  rw [ofInt_lnot, BitVec.ofInt_toInt]

/-! ## Every primitive -/

theorem answered_of_allows {op : NumberPrimitive}
    (h : args.named = [] → op.Allows F args.unnamed) : Answered (op.run F P form args) := by
  cases op with
  | plus => exact evalPlus_answered
  | times => exact evalTimes_answered
  | minus => exact evalMinus_answered
  | divide => exact evalDivide_answered_iff.mpr h
  | mod => exact evalMod_answered_iff.mpr h
  | ash => exact evalAsh_answered_iff.mpr h
  | lshift =>
    apply evalShift_answered
    intro a s hlow hhigh
    rw [shiftLeft_eq hlow hhigh]
    exact Answered.ok _
  | rshift =>
    apply evalShift_answered
    intro a s hlow hhigh
    rw [shiftRight_eq hlow hhigh]
    exact Answered.ok _
  | abs => exact evalAbs_answered
  | max => exact evalBest_answered
  | min => exact evalBest_answered
  | expt => exact evalExpt_answered
  | logand => exact evalLogand_answered
  | logior => exact evalLogior_answered
  | logxor => exact evalLogxor_answered
  | lognot => exact evalLognot_answered

theorem value_of_allows {op : NumberPrimitive} (hallows : op.Allows F args.unnamed)
    (hrun : op.run F P form args = .ok (.int n)) (hnamed : args.named = [])
    (hl : args.unnamed.mapM (numberToInteger F) = .ok l)
    (hm : op.mathematical (l.map BitVec.toInt) = some m) (hlow : -2 ^ 63 ≤ m)
    (hhigh : m < 2 ^ 63) : n.toInt = m := by
  have hofInt : n = BitVec.ofInt 64 m → n.toInt = m := fun h => toInt_of_eq_ofInt h hlow hhigh
  cases op with
  | plus =>
    cases hm
    exact hofInt (evalPlus_value hrun hnamed hl)
  | times =>
    cases hm
    exact hofInt (evalTimes_value hrun hnamed hl)
  | minus => exact hofInt (evalMinus_value hrun hnamed hl hm)
  | divide => exact hofInt (evalDivide_value hrun hl hm)
  | mod => exact hofInt (evalMod_value hrun hl hm)
  | ash => exact hofInt (evalAsh_value hrun hl hm)
  | lshift => exact hofInt (evalLshift_value hrun hl hm)
  | rshift => exact hofInt (evalRshift_value hallows hrun hl hm)
  | abs => exact hofInt (evalAbs_value hrun hl hm)
  | max => exact evalMax_value hrun hl hm
  | min => exact evalMin_value hrun hl hm
  | expt => exact hofInt (evalExpt_value hrun hl hm)
  | logand =>
    cases hm
    exact hofInt (evalLogand_value hrun hl)
  | logior =>
    cases hm
    exact hofInt (evalLogior_value hrun hl)
  | logxor =>
    cases hm
    exact hofInt (evalLogxor_value hrun hl)
  | lognot => exact hofInt (evalLognot_value hrun hl hm)

theorem rshift_allows_of_arithmetical (h : Arithmetical F P form .rshift args)
    (hnamed : args.named = []) : NumberPrimitive.rshift.Allows F args.unnamed := by
  unfold NumberPrimitive.Allows
  split <;> first | trivial | skip
  next _ _ a s _ hargs =>
    intro ha
    by_contra hs
    obtain ⟨hrun, hm⟩ := evalRshift_wrong P form hnamed hargs ha (by omega)
    have hl : args.unnamed.mapM (numberToInteger F) = .ok [a, s] := by
      rw [hargs]
      rfl
    have hwrong := h.2 0 [a, s] (-1) hrun hnamed hl hm (by omega) (by omega)
    exact absurd hwrong (by decide)

/-- A call of a primitive is arithmetical exactly if its operands are unnamed ones that the
primitive allows, or there are named ones. -/
theorem arithmetical_iff (F : FloatArithmetic) (P : Printing) (form : Object)
    (op : NumberPrimitive) (args : Arguments) :
    Arithmetical F P form op args ↔ (args.named = [] → op.Allows F args.unnamed) := by
  constructor
  · intro h hnamed
    cases op with
    | divide => exact evalDivide_answered_iff.mp h.1 hnamed
    | mod => exact evalMod_answered_iff.mp h.1 hnamed
    | ash => exact evalAsh_answered_iff.mp h.1 hnamed
    | rshift => exact rshift_allows_of_arithmetical h hnamed
    | _ => trivial
  · intro h
    exact ⟨answered_of_allows h, fun n l m hrun hnamed hl hm hlow hhigh =>
      value_of_allows (h hnamed) hrun hnamed hl hm hlow hhigh⟩

/-- `(/ 1 0)` is not answered. -/
theorem not_arithmetical : ¬∀ (F : FloatArithmetic) (P : Printing) (form : Object),
    Arithmetical F P form .divide { unnamed := [.int 1, .int 0] } := by
  intro h
  have hdivide := h ⟨id, id, fun x _ => x, fun x _ => x, fun x _ => x, fun x _ => x, fun x _ => x,
    id, fun _ _ => false⟩ ⟨fun _ => [], fun _ => []⟩ .none
  have hallows := evalDivide_answered_iff.mp hdivide.1 rfl
  exact (hallows 0 rfl).1 rfl

end Soot.Analysis.Script
