import Soot.Analysis.TypeChanges
import Soot.Model.Deftype

/-!
# Where a definition that throws leaves something behind

A new type is in the map of types before it is compared with what it was forward declared as,
and the name of a form is forward declared before the rest of the form is read.
-/

set_option autoImplicit false

namespace Soot.Analysis

open Soot.Computation Soot.Program Soot.Model StatefulExcept

variable {same : SootType → SootType → Bool} {r r' : TypeMaps} {name : String} {t : SootType}

theorem sameMaps_refl (r : TypeMaps) : SameMaps r r := fun _ => ⟨rfl, rfl, rfl⟩

theorem atomic_ofExcept_bind {α : Type} {x : Except TypeFault α} {f : α → TypeMapsM Unit} :
    Atomic (ofExcept x >>= f) r ↔ ∀ a, x = .ok a → Atomic (f a) r := by
  cases x with
  | error e =>
    refine iff_of_true ?_ (fun a ha => by cases ha)
    intro e' r' hrun
    rw [runFrom_bind, runFrom_ofExcept] at hrun
    obtain ⟨-, rfl⟩ := Prod.mk.inj hrun
    exact sameMaps_refl r
  | ok a =>
    simp only [Atomic, runFrom_bind, runFrom_ofExcept, Except.ok.injEq, forall_eq']

theorem atomic_get_bind {f : TypeMaps → TypeMapsM Unit} :
    Atomic (get >>= f) r ↔ Atomic (f r) r := by
  simp only [Atomic, runFrom_bind, runFrom_get]

theorem atomic_pure : Atomic (pure ()) r := fun e r' hrun => by cases hrun

theorem atomic_throw (e : TypeFault) : Atomic (throw e) r := by
  intro e' r' hrun
  obtain ⟨-, rfl⟩ := Prod.mk.inj hrun
  exact sameMaps_refl r

theorem atomic_set (r' : TypeMaps) : Atomic (set r') r := fun e r' hrun => by cases hrun

/-! ## Adding a type -/

theorem atomic_enter (hnew : r.types.lookup name = none) :
    Atomic (do
      set (r.withType name t)
      ofExcept (requireThat (r.meetsForward name t))
      set { r.withType name t with toTypeSystem := (r.withType name t).eraseForward name }) r ↔
      r.meetsForward name t = true := by
  cases hmeets : r.meetsForward name t with
  | true =>
    refine iff_of_true (fun e r' hrun => ?_) rfl
    cases hrun
  | false =>
    refine iff_of_false (fun h => ?_) Bool.false_ne_true
    have hsame := (h .thrown (r.withType name t) rfl name).1
    rw [hnew, TypeMaps.withType, lookup_cons_eq, if_pos rfl] at hsame
    cases hsame

theorem atomic_addType (same : SootType → SootType → Bool) (r : TypeMaps) (name : String)
    (t : SootType) : Atomic (TypeMaps.addType same name t) r ↔ ForwardKept r name t := by
  rw [TypeMaps.addType, atomic_get_bind, atomic_ofExcept_bind, ForwardKept]
  cases hlookup : r.types.lookup name with
  | some old =>
    refine iff_of_true (fun _ _ => ?_) (fun h => by cases h)
    dsimp only
    split_ifs
    · exact atomic_pure
    · exact atomic_pure
    · exact atomic_set _
    · exact atomic_throw _
  | none =>
    simp only [forall_const, atomic_ofExcept_bind, atomic_enter hlookup, PassesChecks, and_imp]
    exact ⟨fun h hcount hparent => h () hcount () hparent, fun h _ hcount _ hparent =>
      h hcount hparent⟩

theorem runFrom_addType_new (same : SootType → SootType → Bool)
    (hnew : r.types.lookup name = none) :
    (PassesChecks r name t ∧ r.meetsForward name t = true ∧
        ∃ r', runFrom (TypeMaps.addType same name t) r = (.ok (), r')) ∨
      ¬ (PassesChecks r name t ∧ r.meetsForward name t = true) ∧
        ∃ e r', runFrom (TypeMaps.addType same name t) r = (.error e, r') ∧
          r'.forwardDeclaredTypes = r.forwardDeclaredTypes := by
  simp only [TypeMaps.addType, PassesChecks, runFrom_bind, runFrom_get, runFrom_ofExcept]
  cases hcount : r.checkMethodCount name t with
  | error e => exact .inr ⟨fun ⟨⟨h, _⟩, _⟩ => (by cases h), e, r, rfl, rfl⟩
  | ok u =>
    simp only [hnew, runFrom_bind, runFrom_ofExcept]
    cases hparent : r.checkNewParent name t with
    | error e => exact .inr ⟨fun ⟨⟨_, h⟩, _⟩ => (by cases h), e, r, rfl, rfl⟩
    | ok u' =>
      cases hmeets : r.meetsForward name t with
      | true => exact .inl ⟨by simp, rfl, _, rfl⟩
      | false => exact .inr ⟨fun h => Bool.false_ne_true h.2, .thrown, r.withType name t, rfl, rfl⟩

/-! ## Reading a form -/

variable {form : DeftypeForm} {empty : SootType}

theorem atomic_define (same : SootType → SootType → Bool) (r : TypeMaps) (form : DeftypeForm)
    (empty : SootType) : Atomic (TypeMaps.define same form empty) r ↔
      ∀ t, form.body r.toTypeSystem empty = some t → ForwardKept r form.name t := by
  rw [TypeMaps.define, atomic_get_bind, atomic_ofExcept_bind]
  cases form.body r.toTypeSystem empty with
  | none => simp [orThrow]
  | some t => simp [orThrow, atomic_addType]

theorem atomic_forwarded (same : SootType → SootType → Bool) {declared : String}
    (hnew : r.types.lookup form.name = none)
    (hforward : r.forwardDeclaredTypes.lookup form.name = none) :
    Atomic (set (withForward r form.name declared) >>= fun _ =>
        TypeMaps.define same form empty) r ↔
      ∃ t, form.body (withForward r form.name declared).toTypeSystem empty = some t ∧
        PassesChecks (withForward r form.name declared) form.name t ∧
        (withForward r form.name declared).meetsForward form.name t = true := by
  have hdeclared : (withForward r form.name declared).forwardDeclaredTypes.lookup form.name =
      some declared := by
    rw [withForward, lookup_cons_eq, if_pos rfl]
  have hchanged : ∀ r', r'.forwardDeclaredTypes =
      (withForward r form.name declared).forwardDeclaredTypes → ¬ SameMaps r r' := by
    intro r' heq hsame
    have hlookup := (hsame form.name).2.1
    rw [heq, hdeclared, hforward] at hlookup
    cases hlookup
  simp only [Atomic, runFrom_bind, runFrom_set, TypeMaps.define, runFrom_get,
    runFrom_ofExcept]
  cases form.body (withForward r form.name declared).toTypeSystem empty with
  | none =>
    refine iff_of_false (fun h => ?_) (fun ⟨t, ht, _⟩ => by cases ht)
    exact hchanged _ rfl (h .thrown _ rfl)
  | some t =>
    simp only [orThrow, Option.some.injEq, exists_eq_left']
    have hnew' : (withForward r form.name declared).types.lookup form.name = none := hnew
    rcases runFrom_addType_new same hnew' with ⟨henter, hmeets, r', hrun⟩ | ⟨hnot, e, r', hrun, heq⟩
    · refine iff_of_true (fun e r'' hrun' => ?_) ⟨henter, hmeets⟩
      rw [hrun] at hrun'
      cases hrun'
    · exact iff_of_false (fun h => hchanged r' heq (h e r' hrun)) hnot

theorem atomic_parseDeftype (same : SootType → SootType → Bool) (r : TypeMaps)
    (form : DeftypeForm) : Atomic (TypeMaps.parseDeftype same form) r ↔
      ∀ read, r.emptyType form = .ok read → FormKept r form read := by
  rw [TypeMaps.parseDeftype, atomic_get_bind, atomic_ofExcept_bind]
  refine forall₂_congr fun read _ => ?_
  obtain ⟨declared, empty⟩ := read
  cases declared with
  | none => exact atomic_define same r form empty
  | some declared =>
    dsimp only [FormKept]
    rw [TypeMaps.forwardDeclareTypeAs, bind_assoc, atomic_get_bind]
    cases hlookup : r.types.lookup form.name with
    | some old =>
      refine iff_of_true ?_ (fun h => by cases h)
      rw [Option.isSome_some, if_pos rfl, atomic_ofExcept_bind]
      intro _ _
      rw [atomic_define]
      intro t _ hnone
      rw [hlookup] at hnone
      cases hnone
    | none =>
      rw [Option.isSome_none, if_neg Bool.false_ne_true]
      simp only [forall_const]
      cases hforward : r.forwardDeclaredTypes.lookup form.name with
      | some before =>
        dsimp only
        rw [atomic_ofExcept_bind]
        simp only [atomic_define]
        exact ⟨fun h heq => h () (requireThat_eq_ok.mpr (beq_iff_eq.mpr heq)),
          fun h _ hok => h (beq_iff_eq.mp (requireThat_eq_ok.mp hok))⟩
      | none => exact atomic_forwarded same hlookup hforward

/-- A call that throws leaves the maps of types, of forward declarations and of method counts as
they were exactly if it throws before it has changed one.
SRCLINE: TypeSystem.cpp:88-171, Deftype.cpp:1092-1217 -/
theorem atomic_iff (same : SootType → SootType → Bool) (r : TypeMaps) (call : TypeCall) :
    Atomic (call.run same) r ↔ CallKept r call := by
  cases call with
  | addType name t => exact atomic_addType same r name t
  | parseDeftype form => exact atomic_parseDeftype same r form

/-- A structure with one field, of a type that nothing declares. -/
def pointForm : DeftypeForm where
  name := "point"
  parent := "structure"
  body ts empty := (ts.addFieldToType empty ⟨"x", .ofName "length", false, false, -1, -1⟩).toOption.map
    Prod.fst

theorem pointForm_body {ts : TypeSystem} (h : ts.lookupTypeAllowPartialDef "length" = none)
    (empty : SootType) : pointForm.body ts empty = none := by
  have hfield : ∀ f : Field, f.type = .ofName "length" → ts.fieldType f = .error .thrown := by
    intro f hf
    rw [TypeSystem.fieldType, hf, show (TypeSpec.ofName "length").baseType = "length" from rfl, h]
  simp only [pointForm, TypeSystem.addFieldToType, TypeSystem.getAlignmentInType]
  rw [hfield _ rfl]
  cases orThrow empty.fields with
  | error e => rfl
  | ok fields =>
    cases requireThat (empty.lookupField "x").isNone with
    | error e => rfl
    | ok u => rfl

/-- Among the built-in types a form whose body cannot be read leaves its name forward declared. -/
theorem not_atomic_body :
    ¬ ∀ (same : SootType → SootType → Bool) (r : TypeMaps) (call : TypeCall),
      Atomic (call.run same) r := by
  intro h
  let r : TypeMaps := ⟨builtinTypes, [], false, []⟩
  have hparent : (r.emptyType pointForm).toOption.map Prod.fst = some (some "structure") := by
    decide
  have hnew : r.types.lookup "point" = none := by decide
  cases hread : r.emptyType pointForm with
  | error e =>
    rw [hread] at hparent
    cases hparent
  | ok read =>
    obtain ⟨declared, empty⟩ := read
    rw [hread] at hparent
    cases hparent
    have hkept := (atomic_parseDeftype (fun _ _ => true) r pointForm).mp (h _ r (.parseDeftype _))
      _ hread hnew
    obtain ⟨t, ht, -⟩ := hkept
    rw [pointForm_body (by decide)] at ht
    cases ht

end Soot.Analysis
