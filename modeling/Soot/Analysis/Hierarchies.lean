import Soot.Analysis.TypeChanges

/-!
# Every table is a hierarchy

The built-in types form a hierarchy, every operation on the table keeps it one, and so does
every run of operations.
-/

set_option autoImplicit false

namespace Soot.Analysis

open Soot.Computation Soot.Program Soot.Model StatefulExcept

variable {ts us : TypeSystem} {t t' : SootType}

/-! ## The built-in types -/

/-- The types above a type, searched for a number of steps. -/
def ancestors (ts : TypeSystem) : ℕ → SootType → Option (List SootType)
  | 0, _ => none
  | n + 1, t =>
    if t.hasParent then
      (ts.types.lookup t.parent).bind fun p => (ancestors ts n p).map (p :: ·)
    else some []

theorem ancestry_of_ancestors {n : ℕ} {above : List SootType}
    (h : ancestors ts n t = some above) : Ancestry (parentType ts) t above := by
  induction n generalizing t above with
  | zero => simp [ancestors] at h
  | succ n ih =>
    unfold ancestors at h
    by_cases hp : t.hasParent = true
    · rw [if_pos hp] at h
      obtain ⟨p, hlookup, h⟩ := Option.bind_eq_some_iff.mp h
      obtain ⟨rest, hrest, rfl⟩ := Option.map_eq_some_iff.mp h
      exact .child (by rw [parentType, if_pos hp, hlookup]) (ih hrest)
    · rw [if_neg hp] at h
      cases h
      exact .root (by rw [parentType, if_neg hp])

theorem mem_of_lookup {α : Type} {n : String} {a : α} {entries : List (String × α)}
    (h : entries.lookup n = some a) : (n, a) ∈ entries := by
  induction entries with
  | nil => simp at h
  | cons e rest ih =>
    obtain ⟨key, b⟩ := e
    rw [lookup_cons_eq] at h
    split at h
    · cases h
      rename_i heq
      exact List.mem_cons.mpr (Or.inl (by rw [heq]))
    · exact List.mem_cons_of_mem _ (ih h)

theorem followForward_registered {k : ℕ} {n : String} (h : ts.followForward k n = some t) :
    ∃ m, ts.types.lookup m = some t := by
  induction k generalizing n with
  | zero => simp [TypeSystem.followForward] at h
  | succ k ih =>
    unfold TypeSystem.followForward at h
    split at h
    · cases h
    · split at h
      · cases h
        exact ⟨_, ‹_›⟩
      · exact ih h

theorem registered_of_lookupAllow {n : String} (h : ts.lookupTypeAllowPartialDef n = some t) :
    ∃ m, ts.types.lookup m = some t := by
  unfold TypeSystem.lookupTypeAllowPartialDef at h
  split at h
  · cases h
    exact ⟨_, ‹_›⟩
  · exact followForward_registered h

theorem hierarchy_builtinTypes : Hierarchy builtinTypes := by
  have hall : (builtinTypes.types.all fun e =>
      e.2.name == e.1 && (ancestors builtinTypes 8 e.2).isSome &&
        (e.2.hasParent || e.1 == "object") &&
        (!e.2.hasParent || (builtinTypes.types.lookup e.2.parent).isSome)) = true := by
    with_unfolding_all decide
  have hentry : ∀ {n t}, builtinTypes.types.lookup n = some t →
      t.name = n ∧ (∃ above, Ancestry (parentType builtinTypes) t above) ∧
        (t.hasParent = true ∨ n = "object") ∧
        (t.hasParent = true → (builtinTypes.types.lookup t.parent).isSome) := by
    intro n t h
    have hmem := List.all_eq_true.mp hall _ (mem_of_lookup h)
    simp only [Bool.and_eq_true, Bool.or_eq_true, beq_iff_eq, Bool.not_eq_true',
      Option.isSome_iff_exists] at hmem
    obtain ⟨⟨⟨hname, above, habove⟩, hroot⟩, hparent⟩ := hmem
    refine ⟨hname, ⟨above, ancestry_of_ancestors habove⟩, hroot, ?_⟩
    intro hp
    rcases hparent with hno | hsome
    · simp [hp] at hno
    · exact Option.isSome_iff_exists.mpr hsome
  refine ⟨fun h => (hentry h).1, fun h => (hentry h).2.2.2, fun h => (hentry h).2.1, ?_, ?_, ?_,
    fun _ h => h⟩
  · intro n t h hp
    rcases (hentry h).2.2.1 with h' | h'
    · simp [hp] at h'
    · exact h'
  · with_unfolding_all decide
  · intro n hn
    apply Option.map_eq_some_iff.mp
    rcases hn with rfl | rfl
    · with_unfolding_all decide
    · with_unfolding_all decide

/-- The type an update puts in the place of another. -/
def updated (t' u : SootType) : SootType := if u.name = t'.name then t' else u

theorem parentType_congr (h : us.types = ts.types) : parentType us = parentType ts := by
  funext t
  simp only [parentType, h]

/-- The parent of a type is registered, where it has one. -/
def ParentKnown (ts : TypeSystem) (t : SootType) : Prop :=
  t.hasParent = true → (ts.types.lookup t.parent).isSome

theorem Registrable.parent (H : Hierarchy ts) (h : Registrable ts t) :
    ParentKnown ts t ∧ t.hasParent = true := by
  obtain ⟨hnew, hparent⟩ := h
  have hbuiltin : ∀ n, (builtinTypes.types.lookup n).isSome = true → n ≠ t.name := by
    rintro n hn rfl
    have := H.builtin _ hn
    simp [hnew] at this
  have hknown : (ts.types.lookup t.parent).isSome = true := by
    rcases hparent with h | h | h
    · exfalso
      simp only [isRootName, Bool.or_eq_true, decide_eq_true_eq] at h
      refine hbuiltin t.name ?_ rfl
      rcases h with ((h | h) | h) | h
      all_goals
        rw [h]
        with_unfolding_all decide
    · exact h
    · rw [h]
      exact H.builtin _ (by with_unfolding_all decide)
  refine ⟨fun _ => hknown, ?_⟩
  have hne : t.parent ≠ "" := by
    intro h
    rw [h, H.noEmptyName] at hknown
    cases hknown
  have hobject : t.name ≠ "object" :=
    fun h => hbuiltin "object" (by with_unfolding_all decide) h.symm
  simp [SootType.hasParent, hne, hobject]

end Soot.Analysis

/-! ## What keeps a hierarchy -/

namespace Soot.Model.Hierarchy

open Soot.Analysis Soot.Computation Soot.Program StatefulExcept

variable {ts us : TypeSystem} {t t' : SootType}

theorem of_types_eq (H : Hierarchy ts) (h : us.types = ts.types) : Hierarchy us := by
  constructor
  · rw [h]
    exact H.named
  · rw [h]
    exact H.parents
  · rw [h, parentType_congr h]
    exact H.lines
  · rw [h]
    exact H.root
  · rw [h]
    exact H.noEmptyName
  · rw [h]
    exact H.underObject
  · rw [h]
    exact H.builtin

theorem line_registered (H : Hierarchy ts) {above : List SootType}
    (h : Ancestry (parentType ts) t above) :
    ∀ u ∈ above, ts.types.lookup u.name = some u := by
  refine h.forall_mem fun a b hab => ?_
  unfold parentType at hab
  split at hab
  · rwa [H.named hab]
  · cases hab

theorem line_length (H : Hierarchy ts) {above : List SootType}
    (habove : Ancestry (parentType ts) t above) : above.length < ts.types.length + 1 := by
  have hle : above.length ≤ (ts.types.map Prod.snd).length := habove.length_le fun u hu =>
    List.mem_map_of_mem (f := Prod.snd) (mem_of_lookup (H.line_registered habove u hu))
  rw [List.length_map] at hle
  omega

theorem lookup_register_of_lookup {n : String} {u : SootType} (hnew : ts.types.lookup t.name = none)
    (hu : ts.types.lookup n = some u) :
    (Soot.Analysis.register ts t).types.lookup n = some u := by
  rw [lookup_register, if_neg, hu]
  rintro rfl
  simp [hnew] at hu

theorem line_register (H : Hierarchy ts) {n : String} {u : SootType} {above : List SootType}
    (hnew : ts.types.lookup t.name = none) (hu : ts.types.lookup n = some u)
    (habove : Ancestry (parentType ts) u above) :
    Ancestry (parentType (Soot.Analysis.register ts t)) u above := by
  have hmem : ∀ v ∈ u :: above, ∃ m, ts.types.lookup m = some v := by
    intro v hv
    rcases List.mem_cons.mp hv with rfl | hv
    · exact ⟨n, hu⟩
    · exact ⟨v.name, H.line_registered habove v hv⟩
  apply habove.congr
  intro v hv
  obtain ⟨m, hm⟩ := hmem v hv
  unfold parentType
  split
  · obtain ⟨q, hq⟩ := Option.isSome_iff_exists.mp (H.parents hm ‹_›)
    rw [hq, lookup_register_of_lookup hnew hq]
  · rfl

theorem of_register (H : Hierarchy ts) (hreg : Registrable ts t) (hname : t.name ≠ "") :
    Hierarchy (register ts t) := by
  have hnew := hreg.1
  obtain ⟨hknown, hhas⟩ := hreg.parent H
  obtain ⟨p, hp⟩ := Option.isSome_iff_exists.mp (hknown hhas)
  have hcases : ∀ {n u}, (Soot.Analysis.register ts t).types.lookup n = some u →
      (n = t.name ∧ u = t) ∨ ts.types.lookup n = some u := by
    intro n u h
    rw [lookup_register] at h
    split at h
    · cases h
      exact Or.inl ⟨‹_›, rfl⟩
    · exact Or.inr h
  constructor
  · intro n u h
    rcases hcases h with ⟨rfl, rfl⟩ | h
    · rfl
    · exact H.named h
  · intro n u h hu
    rcases hcases h with ⟨rfl, rfl⟩ | h
    · rw [lookup_register_of_lookup hnew hp]
      rfl
    · obtain ⟨q, hq⟩ := Option.isSome_iff_exists.mp (H.parents h hu)
      rw [lookup_register_of_lookup hnew hq]
      rfl
  · intro n u h
    rcases hcases h with ⟨rfl, rfl⟩ | h
    · obtain ⟨above, habove⟩ := H.lines hp
      refine ⟨p :: above, .child ?_ (H.line_register hnew hp habove)⟩
      rw [parentType, if_pos hhas, lookup_register_of_lookup hnew hp]
    · obtain ⟨above, habove⟩ := H.lines h
      exact ⟨above, H.line_register hnew h habove⟩
  · intro n u h hu
    rcases hcases h with ⟨rfl, rfl⟩ | h
    · simp [hhas] at hu
    · exact H.root h hu
  · rw [lookup_register, if_neg hname.symm]
    exact H.noEmptyName
  · intro n hn
    obtain ⟨u, hu, hparent⟩ := H.underObject n hn
    exact ⟨u, lookup_register_of_lookup hnew hu, hparent⟩
  · intro n hn
    obtain ⟨u, hu⟩ := Option.isSome_iff_exists.mp (H.builtin n hn)
    rw [lookup_register_of_lookup hnew hu]
    rfl

theorem lookup_updated (H : Hierarchy ts) (t' : SootType) (n : String) :
    (ts.update t').types.lookup n = (ts.types.lookup n).map (updated t') := by
  rw [Soot.Analysis.lookup_update]
  cases h : ts.types.lookup n with
  | none => rfl
  | some u =>
    rw [Option.map_some, Option.map_some, updated, H.named h]

theorem updated_identity (H : Hierarchy ts) (ht : ts.types.lookup t'.name = some t)
    (hparent : t'.parent = t.parent) {n : String} {u : SootType}
    (hu : ts.types.lookup n = some u) :
    (updated t' u).name = u.name ∧ (updated t' u).parent = u.parent := by
  unfold updated
  split
  · rename_i hname
    obtain rfl : u = t := by
      rw [← H.named hu] at hu
      rw [hname, ht] at hu
      exact (Option.some.inj hu).symm
    exact ⟨hname.symm, hparent⟩
  · exact ⟨rfl, rfl⟩

theorem lookup_update_cases (H : Hierarchy ts) {n : String} {u' : SootType}
    (h : (ts.update t').types.lookup n = some u') :
    ∃ u, ts.types.lookup n = some u ∧ u' = updated t' u := by
  rw [H.lookup_updated] at h
  obtain ⟨u, hu, rfl⟩ := Option.map_eq_some_iff.mp h
  exact ⟨u, hu, rfl⟩

theorem line_update (H : Hierarchy ts) (ht : ts.types.lookup t'.name = some t)
    (hparent : t'.parent = t.parent) {n : String} {u : SootType} {above : List SootType}
    (hu : ts.types.lookup n = some u) (habove : Ancestry (parentType ts) u above) :
    Ancestry (parentType (ts.update t')) (updated t' u) (above.map (updated t')) := by
  have hstep : ∀ {n u}, ts.types.lookup n = some u →
      parentType (ts.update t') (updated t' u) = (parentType ts u).map (updated t') := by
    intro n u hu
    obtain ⟨hname, hup⟩ := H.updated_identity ht hparent hu
    unfold parentType SootType.hasParent
    rw [hname, hup, H.lookup_updated]
    split
    · rfl
    · rfl
  refine habove.map _ fun v hv => ?_
  rcases List.mem_cons.mp hv with rfl | hv
  · exact hstep hu
  · exact hstep (H.line_registered habove v hv)

theorem of_update (H : Hierarchy ts) (ht : ts.types.lookup t'.name = some t)
    (hparent : t'.parent = t.parent) : Hierarchy (ts.update t') := by
  have hsame : ∀ {n u}, ts.types.lookup n = some u →
      (updated t' u).name = u.name ∧ (updated t' u).parent = u.parent :=
    H.updated_identity ht hparent
  have hhas : ∀ {n u}, ts.types.lookup n = some u →
      (updated t' u).hasParent = u.hasParent := by
    intro n u hu
    unfold SootType.hasParent
    rw [(hsame hu).1, (hsame hu).2]
  constructor
  · intro n u' h
    obtain ⟨u, hu, rfl⟩ := H.lookup_update_cases h
    rw [(hsame hu).1, H.named hu]
  · intro n u' h hp
    obtain ⟨u, hu, rfl⟩ := H.lookup_update_cases h
    rw [hhas hu] at hp
    rw [(hsame hu).2, H.lookup_updated, Option.isSome_map]
    exact H.parents hu hp
  · intro n u' h
    obtain ⟨u, hu, rfl⟩ := H.lookup_update_cases h
    obtain ⟨above, habove⟩ := H.lines hu
    exact ⟨above.map (updated t'), H.line_update ht hparent hu habove⟩
  · intro n u' h hp
    obtain ⟨u, hu, rfl⟩ := H.lookup_update_cases h
    rw [hhas hu] at hp
    exact H.root hu hp
  · rw [H.lookup_updated, H.noEmptyName]
    rfl
  · intro n hn
    obtain ⟨u, hu, hparent'⟩ := H.underObject n hn
    refine ⟨updated t' u, ?_, (hsame hu).2.trans hparent'⟩
    rw [H.lookup_updated, hu, Option.map_some]
  · intro n hn
    rw [H.lookup_updated, Option.isSome_map]
    exact H.builtin n hn

/-! ## Runs -/

variable {same : SootType → SootType → Bool}

theorem of_enters {P : SootType → Prop} (H : Hierarchy ts) (h : EntersOnly ts us P)
    (hname : ∀ t, P t → t.name ≠ "") : Hierarchy us := by
  rcases h with h | ⟨t, ht, hreg, h⟩
  · exact H.of_types_eq h
  · exact (H.of_register hreg (hname t ht)).of_types_eq h

theorem of_onType (H : Hierarchy ts) (typeName : String)
    {f : TypeSystem → SootType → Except TypeFault SootType}
    (hf : ∀ t t', f ts t = .ok t' → ∃ entry, MethodChange ts t entry t') :
    Hierarchy (runFrom (onType typeName f) ts).2 := by
  rcases after_onType ts typeName f with h | ⟨t, t', ht, hft, h⟩
  · rw [h]
    exact H
  · obtain ⟨entry, hchange⟩ := hf t t' hft
    obtain ⟨hname, hparent⟩ := hchange.identity
    rw [h]
    refine H.of_update ?_ hparent
    rw [hname, H.named ht]
    exact ht

theorem after (H : Hierarchy ts) (op : TypeOperation) : Hierarchy (op.after same ts) := by
  cases op with
  | deftype d =>
    refine H.of_enters (entersOnly_deftype ts d) fun t ht => ?_
    rw [ht.identity.1]
    exact d.name_ne
  | defenum d =>
    refine H.of_enters (entersOnly_defenum ts d) fun t ht => ?_
    rw [ht.1]
    exact d.name_ne
  | forwardDeclareTypeAs newType parentType =>
    exact H.of_types_eq (types_forwardDeclareTypeAs ts newType parentType)
  | forwardDeclareTypeAsType name => exact H.of_types_eq (types_forwardDeclareTypeAsType ts name)
  | declareMethod typeName name noVirtual type overrideType =>
    exact H.of_onType typeName fun _ _ h => ⟨_, methodChange_declareMethod h⟩
  | defineMethod typeName name type =>
    exact H.of_onType typeName fun _ _ h => ⟨_, methodChange_defineMethodWith h⟩
  | overlayMethod typeName name overlayName type =>
    exact H.of_onType typeName fun _ _ h => ⟨_, methodChange_overlayMethod h⟩
  | overrideMethod typeName name =>
    exact H.of_onType typeName fun _ _ h => ⟨_, methodChange_overrideMethod h⟩

end Soot.Model.Hierarchy

namespace Soot.Analysis

open Soot.Computation Soot.Program Soot.Model StatefulExcept

theorem hierarchy_typesAfter (same : SootType → SootType → Bool) (ops : List TypeOperation) :
    Hierarchy (typesAfter same ops) := by
  have hrun : ∀ (ops : List TypeOperation) (ts : TypeSystem), Hierarchy ts →
      Hierarchy (ops.foldl (fun ts op => op.after same ts) ts) := by
    intro ops
    induction ops with
    | nil => exact fun ts H => H
    | cons op ops ih => exact fun ts H => ih _ (H.after op)
  exact hrun ops builtinTypes hierarchy_builtinTypes

/-! ## Registered types -/

theorem grown_refl (t : SootType) : Grown t t := ⟨rfl, List.prefix_refl _, fun _ h => h⟩

theorem grown_trans {t u v : SootType} (h : Grown t u) (h' : Grown u v) : Grown t v := by
  refine ⟨?_, h.methods.trans h'.methods, fun m hm => h'.newMethod m (h.newMethod m hm)⟩
  have hsame := congrArg (fun w : SootType =>
    ({ w with methods := t.methods, newMethod := t.newMethod } : SootType)) h'.same
  exact hsame.trans h.same

theorem grown_of_change {ts : TypeSystem} {t t' : SootType} {entry : MethodDefinition}
    (h : MethodChange ts t entry t') : Grown t t' := by
  cases h
  case unchanged => exact grown_refl t
  case constructed hnone =>
    refine ⟨rfl, List.prefix_refl _, ?_⟩
    intro m hm
    rw [hnone] at hm
    cases hm
  all_goals exact ⟨rfl, List.prefix_append _ _, fun _ h => h⟩

theorem keepsTypes_of_enters {ts us : TypeSystem} {P : SootType → Prop}
    (h : EntersOnly ts us P) : KeepsTypes ts us := by
  intro n t ht
  rcases h with h | ⟨u, -, hreg, h⟩
  · exact ⟨t, by rw [h, ht], grown_refl t⟩
  · refine ⟨t, ?_, grown_refl t⟩
    rw [h, lookup_cons_eq, if_neg, ht]
    rintro rfl
    rw [hreg.1] at ht
    cases ht

theorem keepsTypes_onType {ts : TypeSystem} (H : Hierarchy ts) (typeName : String)
    {f : TypeSystem → SootType → Except TypeFault SootType}
    (hf : ∀ t t', f ts t = .ok t' → ∃ entry, MethodChange ts t entry t') :
    KeepsTypes ts (runFrom (onType typeName f) ts).2 := by
  intro n u hu
  rcases after_onType ts typeName f with h | ⟨t, t', ht, hft, h⟩
  · exact ⟨u, by rw [h, hu], grown_refl u⟩
  rw [h, lookup_update, hu]
  refine ⟨_, rfl, ?_⟩
  split_ifs with hn
  · obtain ⟨entry, hchange⟩ := hf t t' hft
    have hname : n = typeName := by rw [hn, hchange.identity.1, H.named ht]
    rw [hname, ht] at hu
    cases hu
    exact grown_of_change hchange
  · exact grown_refl u

theorem keepsTypes_after {same : SootType → SootType → Bool} {ts : TypeSystem} (H : Hierarchy ts)
    (op : TypeOperation) : KeepsTypes ts (op.after same ts) := by
  have hsame : ∀ {us : TypeSystem}, us.types = ts.types → KeepsTypes ts us := by
    intro us h n t ht
    exact ⟨t, by rw [h, ht], grown_refl t⟩
  cases op with
  | deftype d => exact keepsTypes_of_enters (entersOnly_deftype ts d)
  | defenum d => exact keepsTypes_of_enters (entersOnly_defenum ts d)
  | forwardDeclareTypeAs newType parentType =>
    exact hsame (types_forwardDeclareTypeAs ts newType parentType)
  | forwardDeclareTypeAsType name => exact hsame (types_forwardDeclareTypeAsType ts name)
  | declareMethod typeName name noVirtual type overrideType =>
    exact keepsTypes_onType H typeName fun _ _ h => ⟨_, methodChange_declareMethod h⟩
  | defineMethod typeName name type =>
    exact keepsTypes_onType H typeName fun _ _ h => ⟨_, methodChange_defineMethodWith h⟩
  | overlayMethod typeName name overlayName type =>
    exact keepsTypes_onType H typeName fun _ _ h => ⟨_, methodChange_overlayMethod h⟩
  | overrideMethod typeName name =>
    exact keepsTypes_onType H typeName fun _ _ h => ⟨_, methodChange_overrideMethod h⟩

theorem keepsTypes_run {same : SootType → SootType → Bool} {ts : TypeSystem} (H : Hierarchy ts)
    (later : List TypeOperation) :
    KeepsTypes ts (later.foldl (fun ts op => op.after same ts) ts) := by
  induction later generalizing ts with
  | nil => exact fun n t ht => ⟨t, ht, grown_refl t⟩
  | cons op later ih =>
    intro n t ht
    obtain ⟨u, hu, hgrown⟩ := keepsTypes_after H op n t ht
    obtain ⟨v, hv, hmore⟩ := ih (H.after op) n u hu
    exact ⟨v, hv, grown_trans hgrown hmore⟩

/-- Whatever is declared and defined later, also by operations that throw, a type that is
registered keeps its parent, its fields and its layout, and the methods it has under their
numbers. SRCLINE: TypeSystem.cpp:88-268, TypeSystem.cpp:575-750 -/
theorem keepsTypes_typesAfter (same : SootType → SootType → Bool) (ops later : List TypeOperation) :
    KeepsTypes (typesAfter same ops) (typesAfter same (ops ++ later)) := by
  rw [typesAfter, typesAfter, List.foldl_append]
  exact keepsTypes_run (hierarchy_typesAfter same ops) later

end Soot.Analysis
