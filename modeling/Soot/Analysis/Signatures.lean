import Soot.Model.TypeQueries

/-!
# Signatures of overriding methods

The two walks over signatures agree on base types: what a substitution makes is compatible, and
where a signature is compatible the substitution makes the same base types of both. They leave the
tags and the presence of argument vectors to the caller.
-/

set_option autoImplicit false

namespace Soot.Analysis

open Soot.Program Soot.Program.Signature Soot.Model

variable {child : String}

theorem baseTypeOk_substituteType (type : String) :
    baseTypeOk child type (substituteType child type) = true := by
  by_cases h : type = "_type_"
  · simp [baseTypeOk, substituteType, h]
  · simp [baseTypeOk, substituteType, h]

theorem substituteType_of_baseTypeOk {type implementation : String}
    (h : baseTypeOk child type implementation = true) :
    substituteType child type = substituteType child implementation := by
  simp only [baseTypeOk, Bool.or_eq_true, Bool.and_eq_true, beq_iff_eq] at h
  rcases h with rfl | ⟨rfl, rfl⟩
  · rfl
  · by_cases hchild : implementation = "_type_"
    · rw [hchild]
    · simp [substituteType, hchild]

@[simp] theorem type_substituteForMethodCall (s : Signature) :
    (s.substituteForMethodCall child).type = substituteType child s.type := by
  cases s with
  | simple type tags => rfl
  | compound type arguments tags => rfl

theorem length_substituteAll (ss : List Signature) :
    (substituteAll child ss).length = ss.length := by
  induction ss with
  | nil => rfl
  | cons s ss ih => simp [substituteAll, ih]

/-! ## What the substitution makes is compatible -/

mutual

theorem compatible_substitute : ∀ s : Signature,
    isCompatibleChildMethod child s (s.substituteForMethodCall child) = .ok ()
  | .simple type tags => by
    simp [isCompatibleChildMethod, substituteForMethodCall, Signature.type, getArgsCount,
      Signature.arguments, baseTypeOk_substituteType]
  | .compound type arguments tags => by
    simp only [isCompatibleChildMethod, substituteForMethodCall, Signature.type, getArgsCount,
      Signature.arguments, baseTypeOk_substituteType, length_substituteAll, Bool.not_true,
      Bool.false_eq_true, ne_eq, not_true_eq_false, if_false]
    exact compatible_substituteAll 0 arguments

theorem compatible_substituteAll : ∀ (i : ℕ) (ss : List Signature),
    areCompatible child i ss (substituteAll child ss) = .ok ()
  | _, [] => rfl
  | i, s :: ss => by
    rw [substituteAll, areCompatible, compatible_substitute s]
    exact compatible_substituteAll (i + 1) ss

end

/-! ## What compatible signatures have in common -/

theorem compatible_compound {type : String} {arguments : List Signature}
    {tags : List (String × String)} {t : Signature}
    (h : isCompatibleChildMethod child (.compound type arguments tags) t = .ok ()) :
    baseTypeOk child type t.type = true ∧ t.arguments.length = arguments.length ∧
      areCompatible child 0 arguments t.arguments = .ok () := by
  rw [isCompatibleChildMethod] at h
  split at h
  · cases h
  · next hbase =>
    split at h
    · cases h
    · next hcount => exact ⟨by simpa using hbase, not_not.mp hcount, h⟩

theorem compatible_simple {type : String} {tags : List (String × String)} {t : Signature}
    (h : isCompatibleChildMethod child (.simple type tags) t = .ok ()) :
    baseTypeOk child type t.type = true ∧ t.arguments = [] := by
  rw [isCompatibleChildMethod] at h
  split at h
  · cases h
  · next hbase =>
    split at h
    · cases h
    · next hcount => exact ⟨by simpa using hbase, by simpa [getArgsCount] using hcount⟩

theorem areCompatible_cons {i : ℕ} {s t : Signature} {ss ts : List Signature}
    (h : areCompatible child i (s :: ss) (t :: ts) = .ok ()) :
    isCompatibleChildMethod child s t = .ok () ∧ areCompatible child (i + 1) ss ts = .ok () := by
  rw [areCompatible] at h
  split at h
  · cases h
  · next hhead => exact ⟨hhead, h⟩

mutual

theorem substitute_eq_iff : ∀ (s t : Signature), isCompatibleChildMethod child s t = .ok () →
    (s.substituteForMethodCall child = t.substituteForMethodCall child ↔ SameTags s t)
  | .simple type tags, .simple type' tags', h => by
    have hbase := substituteType_of_baseTypeOk (compatible_simple h).1
    simp only [Signature.type] at hbase
    simp [substituteForMethodCall, hbase, SameTags]
  | .simple type tags, .compound type' arguments' tags', h => by
    simp [substituteForMethodCall, SameTags]
  | .compound type arguments tags, .simple type' tags', h => by
    simp [substituteForMethodCall, SameTags]
  | .compound type arguments tags, .compound type' arguments' tags', h => by
    obtain ⟨hok, hlength, hargs⟩ := compatible_compound h
    have hbase := substituteType_of_baseTypeOk hok
    have hall := substituteAll_eq_iff 0 arguments arguments' hlength hargs
    simp only [Signature.type] at hbase
    simp only [substituteForMethodCall, hbase, SameTags, Signature.compound.injEq, true_and, hall]
    exact and_comm

theorem substituteAll_eq_iff : ∀ (i : ℕ) (ss ts : List Signature), ts.length = ss.length →
    areCompatible child i ss ts = .ok () →
    (substituteAll child ss = substituteAll child ts ↔ SameTagsAll ss ts)
  | _, [], [], _, _ => by simp [substituteAll, SameTagsAll]
  | _, [], _ :: _, hlength, _ => by simp at hlength
  | _, _ :: _, [], hlength, _ => by simp at hlength
  | i, s :: ss, t :: ts, hlength, h => by
    obtain ⟨hhead, htail⟩ := areCompatible_cons h
    have hrest := substituteAll_eq_iff (i + 1) ss ts (by simpa using hlength) htail
    simp only [substituteAll, SameTagsAll, List.cons.injEq, substitute_eq_iff s t hhead, hrest]

end

/-- INTERNAL: What the substitution makes of a signature is accepted in its place; an accepted
signature becomes equal to the one it overrides exactly if it has the same tags and argument
vectors in the same places. SRCLINE: TypeSpec.cpp:218-260 -/
theorem overrides_substituted (parent implementation : Signature) (child : String) :
    isCompatibleChildMethod child parent (parent.substituteForMethodCall child) = .ok () ∧
    (isCompatibleChildMethod child parent implementation = .ok () →
      (parent.substituteForMethodCall child = implementation.substituteForMethodCall child ↔
        SameTags parent implementation)) :=
  ⟨compatible_substitute parent, substitute_eq_iff parent implementation⟩

theorem overrides_substituted_self :
    isCompatibleChildMethod "door" (.compound "function" [.simple "_type_" []] [])
      (.compound "function" [.simple "door" []] []) = .ok () ∧
    ((Signature.compound "function" [.simple "_type_" []] []).substituteForMethodCall "door" =
      (Signature.compound "function" [.simple "door" []] []).substituteForMethodCall "door" ↔
      SameTags (.compound "function" [.simple "_type_" []] [])
        (.compound "function" [.simple "door" []] [])) :=
  ⟨rfl, (overrides_substituted _ _ "door").2 rfl⟩

/-- A tag of the overriding signature is not looked at. -/
theorem not_overrides_substituted :
    ¬ ∀ (parent implementation : Signature) (child : String),
      isCompatibleChildMethod child parent implementation = .ok () →
      parent.substituteForMethodCall child = implementation.substituteForMethodCall child := by
  intro h
  have hsame := h (.simple "function" []) (.simple "function" [("behavior", "door")]) "door" rfl
  simp [substituteForMethodCall] at hsame

/-! ## The specifications of the type system -/

theorem toTypeSpecs_length (ss : List Signature) : (toTypeSpecs ss).length = ss.length := by
  induction ss with
  | nil => rfl
  | cons s ss ih => simp [toTypeSpecs, ih]

theorem baseType_toTypeSpec (s : Signature) : s.toTypeSpec.baseType = s.type := by
  cases s with
  | simple type tags => rfl
  | compound type arguments tags => rfl

theorem arguments_toTypeSpec (s : Signature) :
    s.toTypeSpec.arguments = toTypeSpecs s.arguments := by
  cases s with
  | simple type tags => rfl
  | compound type arguments tags => rfl

mutual

theorem toTypeSpec_substitute : ∀ s : Signature,
    (s.substituteForMethodCall child).toTypeSpec = s.toTypeSpec.substituteForMethodCall child
  | .simple type tags => rfl
  | .compound type arguments tags => by
    rw [substituteForMethodCall, toTypeSpec, toTypeSpecs_substituteAll arguments]
    rfl

theorem toTypeSpecs_substituteAll : ∀ ss : List Signature,
    toTypeSpecs (substituteAll child ss) = TypeSpec.substituteAll child (toTypeSpecs ss)
  | [] => rfl
  | s :: ss => by
    rw [substituteAll, toTypeSpecs, toTypeSpec_substitute s, toTypeSpecs_substituteAll ss]
    rfl

end

mutual

theorem isCompatible_toTypeSpec : ∀ s t : Signature,
    s.toTypeSpec.isCompatibleChildMethod child t.toTypeSpec =
      (isCompatibleChildMethod child s t).toBool
  | .simple type tags, t => by
    rw [toTypeSpec, TypeSpec.isCompatibleChildMethod, baseType_toTypeSpec, arguments_toTypeSpec,
      toTypeSpecs_length, isCompatibleChildMethod, getArgsCount, ← baseTypeOk]
    cases baseTypeOk child type t.type with
    | false => rfl
    | true =>
      by_cases hcount : t.arguments.length = 0
      · simp [hcount, TypeSpec.areCompatible, Except.toBool]
      · simp [hcount, Except.toBool]
  | .compound type arguments tags, t => by
    have hargs := areCompatible_toTypeSpecs 0 arguments t.arguments
    rw [toTypeSpec, TypeSpec.isCompatibleChildMethod, baseType_toTypeSpec, arguments_toTypeSpec,
      toTypeSpecs_length, toTypeSpecs_length, hargs, isCompatibleChildMethod, getArgsCount,
      ← baseTypeOk]
    cases baseTypeOk child type t.type with
    | false => rfl
    | true =>
      by_cases hcount : t.arguments.length = arguments.length
      · simp [hcount]
      · simp [hcount, Except.toBool]

theorem areCompatible_toTypeSpecs : ∀ (i : ℕ) (ss ts : List Signature),
    TypeSpec.areCompatible child (toTypeSpecs ss) (toTypeSpecs ts) =
      (areCompatible child i ss ts).toBool
  | _, [], _ => rfl
  | _, _ :: _, [] => rfl
  | i, s :: ss, t :: ts => by
    rw [toTypeSpecs, toTypeSpecs, TypeSpec.areCompatible, isCompatible_toTypeSpec s t,
      areCompatible_toTypeSpecs (i + 1) ss ts, areCompatible]
    cases isCompatibleChildMethod child s t with
    | error e => rfl
    | ok _ => rfl

end

end Soot.Analysis
