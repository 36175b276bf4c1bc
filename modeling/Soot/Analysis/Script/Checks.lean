import Soot.Program.Script.Interpreter
import Mathlib.Data.List.Forall2

/-!
# What the check of arguments lets through

Arguments pass the check exactly if none is named and their types are allowed one by one; else the
answer is an evaluation error.
-/

set_option autoImplicit false

namespace Soot.Analysis.Script

open Soot.Computation Soot.Program.Script

variable {P : Printing} {form : Object}

/-- The types of arguments are allowed. -/
def Allowable (l : List Object) (allowed : List Allowed) : Prop :=
  List.Forall₂ (fun (arg : Object) s => s = [] ∨ arg.typeName ∈ s) l allowed

section Loop

variable {α : Type} {test : α → Prop} [DecidablePred test] (error : α → EvalException)

theorem forIn_ok {l : List α} (h : ∀ x ∈ l, ¬test x) :
    ForIn.forIn (m := Except Failure) l PUnit.unit (fun x (_ : PUnit) =>
      if test x then throw (.eval (error x)) else pure (.yield PUnit.unit)) =
      .ok PUnit.unit := by
  induction l with
  | nil => rfl
  | cons x l ih =>
    rw [List.forIn_cons, if_neg (h x List.mem_cons_self)]
    exact ih fun y hy => h y (List.mem_cons_of_mem _ hy)

theorem forIn_error {l : List α} (h : ∃ x ∈ l, test x) :
    ∃ e, ForIn.forIn (m := Except Failure) l PUnit.unit (fun x (_ : PUnit) =>
      if test x then throw (.eval (error x)) else pure (.yield PUnit.unit)) =
      .error (.eval e) := by
  induction l with
  | nil => exact absurd h (by simp)
  | cons x l ih =>
    rw [List.forIn_cons]
    by_cases hx : test x
    · rw [if_pos hx]
      exact ⟨_, rfl⟩
    · rw [if_neg hx]
      apply ih
      obtain ⟨y, hy, htest⟩ := h
      rcases List.mem_cons.mp hy with rfl | hy
      · exact absurd htest hx
      · exact ⟨y, hy, htest⟩

end Loop

/-- An argument, with the types allowed for it and its position, that is not allowed. -/
def Mismatch (x : (Object × Allowed) × ℕ) : Prop := x.1.2 ≠ [] ∧ x.1.1.typeName ∉ x.1.2

instance : DecidablePred Mismatch := fun x =>
  inferInstanceAs (Decidable (x.1.2 ≠ [] ∧ x.1.1.typeName ∉ x.1.2))

theorem forall_not_mismatch_iff {l : List Object} {allowed : List Allowed}
    (hlength : l.length = allowed.length) :
    (∀ x ∈ (l.zip allowed).zipIdx, ¬Mismatch x) ↔ Allowable l allowed := by
  rw [Allowable, List.forall₂_iff_zip]
  simp only [hlength, true_and]
  constructor
  · intro h arg s hmem
    obtain ⟨k, hk⟩ := List.mem_iff_getElem?.mp hmem
    have hnot := h ((arg, s), k) (List.mem_zipIdx_iff_getElem?.mpr hk)
    simp only [Mismatch] at hnot
    tauto
  · intro h x hx
    have hmem := h (List.fst_mem_of_mem_zipIdx hx)
    simp only [Mismatch]
    tauto

/-- What is thrown at it. -/
def typeError (form : Object) (args : Arguments) (x : (Object × Allowed) × ℕ) : EvalException :=
  ⟨form, text "type error at argument [" ++ digits x.2 ++ text "]: expected one of [" ++
    List.intercalate (text ", ") x.1.2 ++ text "], but got [" ++ x.1.1.typeName ++ text "] in: " ++
    args.printFull P, 0, []⟩

theorem varargCheck_ok {args : Arguments} {allowed : List Allowed} (hnamed : args.named = [])
    (h : Allowable args.unnamed allowed) : varargCheck P form args allowed = .ok () := by
  have hlength : args.unnamed.length = allowed.length := List.Forall₂.length_eq h
  have hloop := forIn_ok (typeError (P := P) form args)
    ((forall_not_mismatch_iff hlength).mpr h)
  simp only [varargCheck, hlength, hnamed, ne_eq, not_true_eq_false, if_false]
  exact congrArg (· >>= fun _ => pure ()) hloop

theorem varargCheck_error (P : Printing) (form : Object) {args : Arguments} {allowed : List Allowed}
    (h : ¬(args.named = [] ∧ Allowable args.unnamed allowed)) :
    ∃ e, varargCheck P form args allowed = .error (.eval e) := by
  by_cases hlength : args.unnamed.length = allowed.length
  · simp only [varargCheck, hlength, ne_eq, not_true_eq_false, if_false]
    by_cases hall : Allowable args.unnamed allowed
    · have hloop := forIn_ok (typeError (P := P) form args)
        ((forall_not_mismatch_iff hlength).mpr hall)
      cases hnamed : args.named with
      | nil => exact absurd ⟨hnamed, hall⟩ h
      | cons entry named => exact ⟨_, congrArg (· >>= fun _ => throw _) hloop⟩
    · have hsome : ∃ x ∈ (args.unnamed.zip allowed).zipIdx, Mismatch x := by
        by_contra hnone
        push Not at hnone
        exact hall ((forall_not_mismatch_iff hlength).mp hnone)
      obtain ⟨e, hloop⟩ := forIn_error (typeError (P := P) form args) hsome
      exact ⟨e, congrArg (· >>= fun _ => _) hloop⟩
  · exact ⟨_, by rw [varargCheck, if_pos hlength]; rfl⟩

end Soot.Analysis.Script
