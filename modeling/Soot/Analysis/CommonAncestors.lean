import Soot.Analysis.ForwardDeclarations

/-!
# The lowest common ancestor

The path of a declared name leaves out what the lookup of the name goes through. The names so
ordered are a tree, in which the function finds the meet of two names and, by induction, of two
specifications; it is therefore an ancestor of both, and does not depend on any order. It is the
lowest ancestor of all exactly where no name that a path leaves out matters.
-/

set_option autoImplicit false

namespace Soot.Analysis

open Soot.Computation Soot.Program Soot.Model

variable {ts : TypeSystem} {t r : SootType} {a b m n u : String}

/-! ## The lines of registered types -/

theorem hasParent_of_name (h : t.name = "object") : t.hasParent = false := by
  simp [SootType.hasParent, h]

/-- A step of names is that of the registered types. -/
def StepsUp (ts : TypeSystem) (next : String → Option String) : Prop :=
  ∀ n t, ts.types.lookup n = some t → next n = if t.hasParent then some t.parent else none

section Registered

variable {next : String → Option String}

theorem registered_line (H : Hierarchy ts) (hnext : StepsUp ts next)
    (ht : ts.types.lookup n = some t) {above : List SootType}
    (h : Ancestry (parentType ts) t above) :
    Ancestry next n (above.map SootType.name) ∧
      (∀ v ∈ n :: above.map SootType.name, (ts.types.lookup v).isSome) ∧
      (n :: above.map SootType.name).getLast (List.cons_ne_nil _ _) = "object" := by
  induction h generalizing n with
  | @root t hnone =>
    have hno : t.hasParent = false := by
      by_contra hp
      rw [Bool.not_eq_false] at hp
      obtain ⟨p, hlookup⟩ := Option.isSome_iff_exists.mp (H.parents ht hp)
      simp [parentType, hp, hlookup] at hnone
    refine ⟨.root (by rw [hnext n t ht, hno]; rfl), ?_, H.root ht hno⟩
    intro v hv
    rw [List.map_nil, List.mem_singleton] at hv
    exact Option.isSome_iff_exists.mpr ⟨t, hv ▸ ht⟩
  | @child t p above hsome _ ih =>
    unfold parentType at hsome
    split at hsome
    · next hp =>
      obtain ⟨hline, hreg, hlast⟩ := ih hsome
      have hname : p.name = t.parent := H.named hsome
      rw [List.map_cons, hname]
      refine ⟨.child (by rw [hnext n t ht, if_pos hp]) hline, ?_, ?_⟩
      · intro v hv
        rcases List.mem_cons.mp hv with rfl | hv
        · exact Option.isSome_iff_exists.mpr ⟨t, ht⟩
        · exact hreg v hv
      · rwa [List.getLast_cons (List.cons_ne_nil _ _)]
    · cases hsome

end Registered

/-! ## The two orders of names -/

/-- The step of the paths: a declared name stands below the parent of what it leads to. -/
def pathName (ts : TypeSystem) (n : String) : Option String :=
  match ts.types.lookup n with
  | some t => if t.hasParent then some t.parent else none
  | none => (ts.lookupTypeAllowPartialDef n).map fun r =>
      if r.hasParent then r.parent else "object"

theorem stepsUp_parentName : StepsUp ts (parentName ts) := fun n t ht => by rw [parentName, ht]

theorem stepsUp_pathName : StepsUp ts (pathName ts) := fun n t ht => by rw [pathName, ht]

/-- The order of the paths. -/
def OnPath (ts : TypeSystem) (u n : String) : Prop := AtOrAbove (pathName ts) u n

theorem onPath_iff_of_registered (H : Hierarchy ts) (ht : ts.types.lookup n = some t) :
    OnPath ts u n ↔ AncestorOrSelf ts u n := by
  obtain ⟨above, habove⟩ := H.lines ht
  rw [OnPath, AncestorOrSelf, AtOrAbove.of_line (registered_line H stepsUp_pathName ht habove).1,
    AtOrAbove.of_line (registered_line H stepsUp_parentName ht habove).1]

theorem registered_of_onPath (H : Hierarchy ts) (ht : ts.types.lookup n = some t)
    (h : OnPath ts u n) : ∃ v, ts.types.lookup u = some v := by
  obtain ⟨above, habove⟩ := H.lines ht
  obtain ⟨hline, hreg, -⟩ := registered_line H stepsUp_pathName ht habove
  exact Option.isSome_iff_exists.mp (hreg u ((AtOrAbove.of_line hline).mp h))

theorem resolves_iff : Resolves ts n ↔ ∃ r, PartialLookup ts n (some r) := by
  rw [Resolves, Option.isSome_iff_exists]
  constructor
  · rintro ⟨r, hr⟩
    exact ⟨r, lookupTypeAllowPartialDef_iff.mp hr⟩
  · rintro ⟨r, hr⟩
    exact ⟨r, lookupTypeAllowPartialDef_iff.mpr hr⟩

theorem resolves_of_registered (ht : ts.types.lookup n = some t) : Resolves ts n :=
  resolves_iff.mpr ⟨t, .found ht⟩

theorem registered_of_partialLookup (H : Hierarchy ts) (h : PartialLookup ts n (some r)) :
    ts.types.lookup r.name = some r := by
  obtain ⟨m, hm⟩ := registered_of_lookupAllow (lookupTypeAllowPartialDef_iff.mpr h)
  rwa [H.named hm]

theorem ancestors_of_partialLookup (H : Hierarchy ts) (h : PartialLookup ts n (some r)) :
    (∃ above, Ancestry (parentName ts) n above) ∧ AncestorOrSelf ts r.name n := by
  generalize hout : some r = outcome at h
  induction h with
  | @found n t registered =>
    obtain rfl := Option.some.inj hout
    obtain ⟨above, habove⟩ := H.lines registered
    have hline := (registered_line H stepsUp_parentName registered habove).1
    rw [H.named registered]
    exact ⟨⟨_, hline⟩, .refl hline⟩
  | unknown _ _ => cases hout
  | @follow n m _ unregistered declared _ ih =>
    obtain ⟨⟨above, habove⟩, hr⟩ := ih hout
    have hstep : parentName ts n = some m := by
      rw [parentName, unregistered]
      exact declared
    exact ⟨⟨_, .child hstep habove⟩, .child hstep hr⟩

theorem ancestorOrSelf_refl (H : Hierarchy ts) (h : Resolves ts n) : AncestorOrSelf ts n n := by
  obtain ⟨r, hr⟩ := resolves_iff.mp h
  obtain ⟨above, habove⟩ := (ancestors_of_partialLookup H hr).1
  exact .refl habove

theorem pathName_of_partialLookup (H : Hierarchy ts) (hn : ts.types.lookup n = none)
    (h : PartialLookup ts n (some r)) : ∃ p t, pathName ts n = some p ∧
      ts.types.lookup p = some t ∧ AncestorOrSelf ts p r.name ∧ (p = r.name → p = "object") := by
  have hr := registered_of_partialLookup H h
  have hname : pathName ts n = some (if r.hasParent then r.parent else "object") := by
    rw [pathName, hn, lookupTypeAllowPartialDef_iff.mpr h]
    rfl
  by_cases hp : r.hasParent = true
  · rw [if_pos hp] at hname
    obtain ⟨t, ht⟩ := Option.isSome_iff_exists.mp (H.parents hr hp)
    have hstep : parentName ts r.name = some r.parent := by
      rw [stepsUp_parentName _ _ hr, if_pos hp]
    have habove : AncestorOrSelf ts r.parent r.name :=
      .child hstep (ancestorOrSelf_refl H (resolves_of_registered ht))
    refine ⟨r.parent, t, hname, ht, habove, ?_⟩
    intro hsame
    obtain ⟨above, hline⟩ := (ancestors_of_partialLookup H (.found hr)).1
    cases hline with
    | root hnone => simp [hstep] at hnone
    | child hsome hrest =>
      obtain rfl := Option.some.inj (hstep.symm.trans hsome)
      exact absurd (hsame ▸ List.mem_cons_self) (Ancestry.child hsome hrest).not_mem
  · rw [if_neg hp] at hname
    have hobject : r.name = "object" := H.root hr (by simpa using hp)
    rw [hobject] at hr ⊢
    exact ⟨"object", r, hname, hr, ancestorOrSelf_refl H (resolves_of_registered hr), fun _ => rfl⟩

theorem exists_path (H : Hierarchy ts) (h : Resolves ts n) : ∃ above,
    Ancestry (pathName ts) n above ∧
      (n :: above).getLast (List.cons_ne_nil _ _) = "object" := by
  cases hn : ts.types.lookup n with
  | some t =>
    obtain ⟨above, habove⟩ := H.lines hn
    obtain ⟨hline, -, hlast⟩ := registered_line H stepsUp_pathName hn habove
    exact ⟨_, hline, hlast⟩
  | none =>
    obtain ⟨r, hr⟩ := resolves_iff.mp h
    obtain ⟨p, t, hp, ht, -⟩ := pathName_of_partialLookup H hn hr
    obtain ⟨above, habove⟩ := H.lines ht
    obtain ⟨hline, -, hlast⟩ := registered_line H stepsUp_pathName ht habove
    exact ⟨_, .child hp hline, by rwa [List.getLast_cons (List.cons_ne_nil _ _)]⟩

theorem ancestor_of_onPath (H : Hierarchy ts) (hres : Resolves ts n) (h : OnPath ts u n) :
    AncestorOrSelf ts u n := by
  cases hn : ts.types.lookup n with
  | some t => exact (onPath_iff_of_registered H hn).mp h
  | none =>
    rcases h.cases_next with rfl | ⟨p, hp, hu⟩
    · exact ancestorOrSelf_refl H hres
    · obtain ⟨r, hr⟩ := resolves_iff.mp hres
      obtain ⟨p', t, hp', ht, habove, -⟩ := pathName_of_partialLookup H hn hr
      obtain rfl := Option.some.inj (hp.symm.trans hp')
      have hname := (ancestors_of_partialLookup H hr).2
      exact AtOrAbove.trans ((onPath_iff_of_registered H ht).mp hu) (habove.trans hname)

theorem registered_of_onPath_ne (H : Hierarchy ts) (hres : Resolves ts n) (h : OnPath ts u n)
    (hne : u ≠ n) : ∃ v, ts.types.lookup u = some v := by
  cases hn : ts.types.lookup n with
  | some t => exact registered_of_onPath H hn h
  | none =>
    rcases h.cases_next with rfl | ⟨p, hp, hu⟩
    · exact absurd rfl hne
    · obtain ⟨r, hr⟩ := resolves_iff.mp hres
      obtain ⟨p', t, hp', ht, -⟩ := pathName_of_partialLookup H hn hr
      obtain rfl := Option.some.inj (hp.symm.trans hp')
      exact registered_of_onPath H ht hu

theorem resolves_of_onPath (H : Hierarchy ts) (hres : Resolves ts n) (h : OnPath ts u n) :
    Resolves ts u := by
  by_cases hne : u = n
  · rwa [hne]
  · obtain ⟨v, hv⟩ := registered_of_onPath_ne H hres h hne
    exact resolves_of_registered hv

theorem object_onPath (H : Hierarchy ts) (hres : Resolves ts n) : OnPath ts "object" n := by
  obtain ⟨above, hline, hlast⟩ := exists_path H hres
  rw [OnPath, AtOrAbove.of_line hline, ← hlast]
  exact List.getLast_mem _

/-! ## The names that a path leaves out -/

theorem partialLookup_of_passedOver (h : PassedOver ts n u) (hr : PartialLookup ts n (some r)) :
    PartialLookup ts u (some r) := by
  induction h with
  | @declared n u unregistered as =>
    cases hr with
    | found registered => simp [unregistered] at registered
    | follow _ declared rest => rwa [Option.some.inj (as.symm.trans declared)]
  | further unregistered as _ ih =>
    cases hr with
    | found registered => simp [unregistered] at registered
    | follow _ declared rest => exact ih (by rwa [Option.some.inj (as.symm.trans declared)])

theorem ancestor_of_passedOver (H : Hierarchy ts) (h : PassedOver ts n u)
    (hres : Resolves ts u) : AncestorOrSelf ts u n := by
  induction h with
  | declared unregistered as =>
    exact AtOrAbove.child (by rw [parentName, unregistered]; exact as) (ancestorOrSelf_refl H hres)
  | further unregistered as _ ih =>
    exact AtOrAbove.child (by rw [parentName, unregistered]; exact as) (ih hres)

theorem passedOver_of_ancestor (hn : ts.types.lookup n = none)
    (hr : PartialLookup ts n (some r))
    (hnamed : ∀ m t, ts.types.lookup m = some t → t.name = m)
    (h : AncestorOrSelf ts u n) :
    u = n ∨ PassedOver ts n u ∨ ∃ p, parentName ts r.name = some p ∧ AncestorOrSelf ts u p := by
  generalize hout : some r = outcome at hr
  induction hr with
  | found registered => simp [hn] at registered
  | unknown _ _ => cases hout
  | @follow n m outcome unregistered declared rest ih =>
    rcases h.cases_next with rfl | ⟨m', hm', hu⟩
    · exact .inl rfl
    · have hm : m' = m := by
        rw [parentName, unregistered] at hm'
        exact Option.some.inj (hm'.symm.trans declared)
      subst hm
      cases hreg : ts.types.lookup m' with
      | none =>
        rcases ih hreg hu hout with rfl | hpass | hp
        · exact .inr (.inl (.declared unregistered declared))
        · exact .inr (.inl (.further unregistered declared hpass))
        · exact .inr (.inr hp)
      | some t =>
        rcases hu.cases_next with rfl | ⟨p, hp, hu⟩
        · exact .inr (.inl (.declared unregistered declared))
        · have ht : t = r := by
            subst hout
            cases rest with
            | found registered => exact Option.some.inj (hreg.symm.trans registered)
            | follow unregistered _ _ => simp [hreg] at unregistered
          rw [← ht, hnamed m' t hreg]
          exact .inr (.inr ⟨p, hp, hu⟩)

theorem onPath_or_passedOver (H : Hierarchy ts) (hres : Resolves ts n)
    (h : AncestorOrSelf ts u n) : OnPath ts u n ∨ (PassedOver ts n u ∧ u ≠ "object") := by
  by_cases hobject : u = "object"
  · exact .inl (hobject ▸ object_onPath H hres)
  cases hn : ts.types.lookup n with
  | some t => exact .inl ((onPath_iff_of_registered H hn).mpr h)
  | none =>
    obtain ⟨r, hr⟩ := resolves_iff.mp hres
    have hreg := registered_of_partialLookup H hr
    rcases passedOver_of_ancestor hn hr (fun _ _ => H.named) h with rfl | hpass | ⟨p, hp, hu⟩
    · obtain ⟨above, hline, -⟩ := exists_path H hres
      exact .inl (.refl hline)
    · exact .inr ⟨hpass, hobject⟩
    · rw [stepsUp_parentName _ _ hreg] at hp
      split at hp
      · next hparent =>
        obtain rfl := Option.some.inj hp
        obtain ⟨t, ht⟩ := Option.isSome_iff_exists.mp (H.parents hreg hparent)
        have hstep : pathName ts n = some r.parent := by
          rw [pathName, hn, lookupTypeAllowPartialDef_iff.mpr hr, Option.map_some, if_pos hparent]
        exact .inl (AtOrAbove.child hstep ((onPath_iff_of_registered H ht).mpr hu))
      · cases hp

theorem below_of_passedOver (H : Hierarchy ts) (hres : Resolves ts n) (hpass : PassedOver ts n u)
    (hobject : u ≠ "object") (h : OnPath ts m n) (hne : m ≠ n) :
    AncestorOrSelf ts m u ∧ m ≠ u := by
  have hn : ts.types.lookup n = none := by
    cases hpass with
    | declared unregistered _ => exact unregistered
    | further unregistered _ _ => exact unregistered
  obtain ⟨r, hr⟩ := resolves_iff.mp hres
  have hur := partialLookup_of_passedOver hpass hr
  obtain ⟨p, t, hp, ht, habove, hself⟩ := pathName_of_partialLookup H hn hr
  rcases h.cases_next with rfl | ⟨p', hp', hm⟩
  · exact absurd rfl hne
  · obtain rfl := Option.some.inj (hp'.symm.trans hp)
    have hmp : AncestorOrSelf ts m p' := (onPath_iff_of_registered H ht).mp hm
    have hru := (ancestors_of_partialLookup H hur).2
    refine ⟨hmp.trans (habove.trans hru), ?_⟩
    -- if they were the same, the parent of the type would be the type itself
    rintro rfl
    have hsame : p' = r.name := habove.antisymm (hru.trans hmp)
    have htop := hself hsame
    subst htop
    exact hobject (hmp.antisymm (habove.trans hru))

/-! ## The meet of two names -/

theorem getPathUpTree_succ (k : ℕ) (n : String) : ts.getPathUpTree (k + 1) n =
    (ts.lookupTypeAllowPartialDef n).bind fun t =>
      if t.hasParent then (ts.getPathUpTree k t.parent).map (n :: ·) else some [n] := by
  rw [TypeSystem.getPathUpTree]
  cases ts.lookupTypeAllowPartialDef n with
  | none => rfl
  | some t =>
    simp only [Option.bind_eq_bind, Option.bind_some]
    split
    · cases ts.getPathUpTree k t.parent <;> rfl
    · rfl

theorem getPathUpTree_registered (H : Hierarchy ts) (ht : ts.types.lookup n = some t)
    {above : List SootType} (h : Ancestry (parentType ts) t above) {k : ℕ}
    (hk : above.length < k) :
    ts.getPathUpTree k n = some (n :: above.map SootType.name) := by
  induction h generalizing n k with
  | @root t hnone =>
    obtain ⟨k, rfl⟩ : ∃ j, k = j + 1 := ⟨k - 1, by omega⟩
    have hno : t.hasParent ≠ true := by
      intro hp
      obtain ⟨p, hlookup⟩ := Option.isSome_iff_exists.mp (H.parents ht hp)
      simp [parentType, hp, hlookup] at hnone
    simp [getPathUpTree_succ, TypeSystem.lookupTypeAllowPartialDef, ht, hno]
  | @child t p above hsome _ ih =>
    obtain ⟨k, rfl⟩ : ∃ j, k = j + 1 := ⟨k - 1, by omega⟩
    unfold parentType at hsome
    split at hsome
    · next hp =>
      have hrest := ih hsome (by simpa using hk)
      simp [getPathUpTree_succ, TypeSystem.lookupTypeAllowPartialDef, ht, hp, hrest,
        H.named hsome]
    · cases hsome

theorem getPathUpTree_eq (H : Hierarchy ts) (hres : Resolves ts n) {above : List String}
    (hline : Ancestry (pathName ts) n above) :
    ts.getPathUpTree (ts.types.length + 2) n = some (n :: above) ∨
      (ts.getPathUpTree (ts.types.length + 2) n = some [n] ∧ above = ["object"] ∧
        ts.types.lookup n = none) := by
  cases hn : ts.types.lookup n with
  | some t =>
    obtain ⟨types, htypes⟩ := H.lines hn
    rw [hline.unique (registered_line H stepsUp_pathName hn htypes).1]
    exact .inl (getPathUpTree_registered H hn htypes (Nat.lt_succ_of_lt (H.line_length htypes)))
  | none =>
    obtain ⟨r, hr⟩ := resolves_iff.mp hres
    have hlookup := lookupTypeAllowPartialDef_iff.mpr hr
    have hreg := registered_of_partialLookup H hr
    have hstep : pathName ts n = some (if r.hasParent then r.parent else "object") := by
      rw [pathName, hn, hlookup]
      rfl
    by_cases hp : r.hasParent = true
    · rw [if_pos hp] at hstep
      obtain ⟨t, ht⟩ := Option.isSome_iff_exists.mp (H.parents hreg hp)
      obtain ⟨types, htypes⟩ := H.lines ht
      have hpath := getPathUpTree_registered H ht htypes (H.line_length htypes)
      rw [hline.unique (.child hstep (registered_line H stepsUp_pathName ht htypes).1)]
      left
      rw [getPathUpTree_succ, hlookup, Option.bind_some, if_pos hp, hpath, Option.map_some]
    · rw [if_neg hp] at hstep
      obtain ⟨t, ht, -⟩ := H.underObject "object" (.inl rfl)
      have htop : pathName ts "object" = none := by
        rw [stepsUp_pathName _ _ ht, hasParent_of_name (H.named ht)]
        rfl
      rw [hline.unique (.child hstep (.root htop))]
      right
      rw [getPathUpTree_succ, hlookup, Option.bind_some, if_neg hp]
      exact ⟨rfl, rfl, rfl⟩

theorem lastCommon_short (H : Hierarchy ts) (hb : Resolves ts b) (hab : a ≠ b)
    (hn : ts.types.lookup a = none) {bs bPath : List String}
    (hline : Ancestry (pathName ts) b bs)
    (hpath : bPath = b :: bs ∨ (bPath = [b] ∧ bs = ["object"])) :
    lastCommon "object" [a] bPath.reverse = "object" ∧
      lastCommon "object" ["object", a] (b :: bs).reverse = "object" := by
  have hnot : a ∉ b :: bs := by
    intro hmem
    obtain ⟨v, hv⟩ := registered_of_onPath_ne H hb ⟨bs, hline, hmem⟩ hab
    simp [hn] at hv
  have hsub : ∀ c ∈ bPath.reverse, c ∈ b :: bs := by
    rcases hpath with rfl | ⟨rfl, rfl⟩
    · exact fun c hc => List.mem_reverse.mp hc
    · simp +contextual
  refine ⟨lastCommon_singleton fun hmem => hnot (hsub a hmem), ?_⟩
  have hrev : a ∉ (b :: bs).reverse := fun hmem => hnot (List.mem_reverse.mp hmem)
  cases hreverse : (b :: bs).reverse with
  | nil => rfl
  | cons c cs =>
    rw [hreverse] at hrev
    rw [lastCommon]
    split
    · exact lastCommon_singleton (List.not_mem_of_not_mem_cons hrev)
    · rfl

theorem lastCommon_paths (H : Hierarchy ts) (ha : Resolves ts a) (hb : Resolves ts b)
    (hab : a ≠ b) {as bs aPath bPath : List String} (hline : Ancestry (pathName ts) a as)
    (hline' : Ancestry (pathName ts) b bs)
    (hpath : ts.getPathUpTree (ts.types.length + 2) a = some aPath)
    (hpath' : ts.getPathUpTree (ts.types.length + 2) b = some bPath) :
    lastCommon "object" aPath.reverse bPath.reverse =
      lastCommon "object" (a :: as).reverse (b :: bs).reverse := by
  have haPath := getPathUpTree_eq H ha hline
  have hbPath := getPathUpTree_eq H hb hline'
  rw [hpath, Option.some.injEq, Option.some.injEq] at haPath
  rw [hpath', Option.some.injEq, Option.some.injEq] at hbPath
  rcases haPath with rfl | ⟨rfl, rfl, hna⟩
  · rcases hbPath with rfl | ⟨rfl, rfl, hnb⟩
    · rfl
    · obtain ⟨hshort, hlong⟩ := lastCommon_short H ha (Ne.symm hab) hnb hline (.inl rfl)
      rw [lastCommon_comm, lastCommon_comm _ (a :: as).reverse]
      exact hshort.trans hlong.symm
  · have hbShape : bPath = b :: bs ∨ (bPath = [b] ∧ bs = ["object"]) :=
      hbPath.imp_right fun h => ⟨h.1, h.2.1⟩
    obtain ⟨hshort, hlong⟩ := lastCommon_short H hb hab hna hline' hbShape
    exact hshort.trans hlong.symm

theorem lcaBase_meet (H : Hierarchy ts) (ha : Resolves ts a) (hb : Resolves ts b) :
    ∃ m, ts.lcaBase a b = some m ∧ Resolves ts m ∧
      ∀ u, OnPath ts u m ↔ OnPath ts u a ∧ OnPath ts u b := by
  by_cases hab : a = b
  · subst hab
    exact ⟨a, by rw [TypeSystem.lcaBase, if_pos rfl], ha, fun u => (and_self_iff).symm⟩
  · obtain ⟨as, hline, hlast⟩ := exists_path H ha
    obtain ⟨bs, hline', hlast'⟩ := exists_path H hb
    obtain ⟨aPath, hpath⟩ : ∃ path, ts.getPathUpTree (ts.types.length + 2) a = some path :=
      (getPathUpTree_eq H ha hline).elim (⟨_, ·⟩) (⟨_, ·.1⟩)
    obtain ⟨bPath, hpath'⟩ : ∃ path, ts.getPathUpTree (ts.types.length + 2) b = some path :=
      (getPathUpTree_eq H hb hline').elim (⟨_, ·⟩) (⟨_, ·.1⟩)
    have hmeet : ∀ u, OnPath ts u (lastCommon "object" (a :: as).reverse (b :: bs).reverse) ↔
        OnPath ts u a ∧ OnPath ts u b := atOrAbove_lastCommon_iff hline hline' hlast hlast'
    have htop := (hmeet "object").mpr ⟨object_onPath H ha, object_onPath H hb⟩
    obtain ⟨ms, hm, -⟩ := htop
    refine ⟨_, ?_, resolves_of_onPath H ha ((hmeet _).mp (.refl hm)).1, hmeet⟩
    rw [TypeSystem.lcaBase, if_neg hab, hpath, hpath',
      ← lastCommon_paths H ha hb hab hline hline' hpath hpath']
    rfl

theorem onPath_refl (H : Hierarchy ts) (h : Resolves ts n) : OnPath ts n n := by
  obtain ⟨above, hline, -⟩ := exists_path H h
  exact .refl hline

theorem not_ancestor_of_passedOver (H : Hierarchy ts) (ha : Resolves ts a) (hb : Resolves ts b)
    (hab : a ≠ b) (hma : OnPath ts m a) (hmb : OnPath ts m b) (hpass : PassedOver ts a u)
    (hu : u ≠ "object") : ¬ AncestorOrSelf ts u m := by
  have hne : m ≠ a := by
    rintro rfl
    obtain ⟨v, hv⟩ := registered_of_onPath_ne H hb hmb hab
    cases hpass with
    | declared unregistered _ => simp [unregistered] at hv
    | further unregistered _ _ => simp [unregistered] at hv
  obtain ⟨hbelow, hmu⟩ := below_of_passedOver H ha hpass hu hma hne
  exact fun h => hmu (hbelow.antisymm h)

theorem resolves_of_passedOver (hres : Resolves ts n) (h : PassedOver ts n u) :
    Resolves ts u := by
  obtain ⟨r, hr⟩ := resolves_iff.mp hres
  exact resolves_iff.mpr ⟨r, partialLookup_of_passedOver h hr⟩

theorem lowest_lcaBase_iff (H : Hierarchy ts) (ha : Resolves ts a) (hb : Resolves ts b)
    (hm : ts.lcaBase a b = some m) :
    (∀ u, AncestorOrSelf ts u a → AncestorOrSelf ts u b → AncestorOrSelf ts u m) ↔
      NamesMeet ts a b := by
  obtain ⟨m', hm', hres, hmeet⟩ := lcaBase_meet H ha hb
  obtain rfl := Option.some.inj (hm.symm.trans hm')
  obtain ⟨hma, hmb⟩ := (hmeet m).mp (onPath_refl H hres)
  constructor
  · intro hall
    by_cases hab : a = b
    · exact .inl hab
    · refine .inr fun u hu => ⟨fun hpass hub => ?_, fun hpass hua => ?_⟩
      · have hua := ancestor_of_passedOver H hpass (resolves_of_passedOver ha hpass)
        exact not_ancestor_of_passedOver H ha hb hab hma hmb hpass hu (hall u hua hub)
      · have hub := ancestor_of_passedOver H hpass (resolves_of_passedOver hb hpass)
        exact not_ancestor_of_passedOver H hb ha (Ne.symm hab) hmb hma hpass hu (hall u hua hub)
  · rintro (rfl | hapart) u hua hub
    · rw [TypeSystem.lcaBase, if_pos rfl] at hm
      rwa [← Option.some.inj hm]
    · rcases onPath_or_passedOver H ha hua with hpa | ⟨hpass, hu⟩
      · rcases onPath_or_passedOver H hb hub with hpb | ⟨hpass, hu⟩
        · exact ancestor_of_onPath H hres ((hmeet u).mpr ⟨hpa, hpb⟩)
        · exact absurd hua ((hapart u hu).2 hpass)
      · exact absurd hub ((hapart u hu).1 hpass)

/-! ## The order of specifications -/

mutual

/-- The order of the paths, on specifications; tags do not matter. -/
def Covers (ts : TypeSystem) : TypeSpec → TypeSpec → Prop
  | .mk base args _, t => OnPath ts base t.baseType ∧ (args = [] ∨ CoversAll ts args t.arguments)

@[inherit_doc Covers]
def CoversAll (ts : TypeSystem) : List TypeSpec → List TypeSpec → Prop
  | [], [] => True
  | c :: cs, t :: rest => Covers ts c t ∧ CoversAll ts cs rest
  | _, _ => False

end

mutual

/-- A specification has no tags. -/
def Untagged : TypeSpec → Prop
  | .mk _ args tags => AllUntagged args ∧ tags = []

@[inherit_doc Untagged]
def AllUntagged : List TypeSpec → Prop
  | [] => True
  | t :: rest => Untagged t ∧ AllUntagged rest

end

theorem coversAll_length : {cs as : List TypeSpec} → CoversAll ts cs as → cs.length = as.length
  | [], [], _ => rfl
  | _ :: _, _ :: _, h => by
    rw [CoversAll] at h
    rw [List.length_cons, List.length_cons, coversAll_length h.2]
  | [], _ :: _, h => by simp [CoversAll] at h
  | _ :: _, [], h => by simp [CoversAll] at h

theorem specsAbove_length : {cs as : List TypeSpec} → SpecsAbove ts cs as → cs.length = as.length
  | [], [], _ => rfl
  | _ :: _, _ :: _, h => by
    rw [SpecsAbove] at h
    rw [List.length_cons, List.length_cons, specsAbove_length h.2]
  | [], _ :: _, h => by simp [SpecsAbove] at h
  | _ :: _, [], h => by simp [SpecsAbove] at h

mutual

theorem covers_refl (H : Hierarchy ts) : (t : TypeSpec) → Over ts t → Covers ts t t
  | .mk base args tags, h => by
    rw [Over] at h
    exact ⟨onPath_refl H h.1, .inr (coversAll_refl H args h.2.1)⟩

theorem coversAll_refl (H : Hierarchy ts) :
    (l : List TypeSpec) → AllOver ts l → CoversAll ts l l
  | [], _ => trivial
  | t :: rest, h => by
    rw [AllOver] at h
    exact ⟨covers_refl H t h.1, coversAll_refl H rest h.2⟩

end

mutual

theorem covers_antisymm : (s t : TypeSpec) → Covers ts s t → Covers ts t s → Untagged s →
    Untagged t → s = t
  | .mk base args tags, .mk base' args' tags', h, h', hs, ht => by
    rw [Untagged] at hs ht
    rw [Covers] at h h'
    have hbase : base = base' := h.1.antisymm h'.1
    have hargs : args = args' := by
      rcases h.2 with rfl | hcovers
      · rcases h'.2 with rfl | hcovers'
        · rfl
        · exact (List.eq_nil_of_length_eq_zero (coversAll_length hcovers')).symm
      · rcases h'.2 with rfl | hcovers'
        · exact List.eq_nil_of_length_eq_zero (coversAll_length hcovers)
        · exact coversAll_antisymm args args' hcovers hcovers' hs.1 ht.1
    rw [hbase, hargs, hs.2, ht.2]

theorem coversAll_antisymm : (ss ts' : List TypeSpec) → CoversAll ts ss ts' → CoversAll ts ts' ss →
    AllUntagged ss → AllUntagged ts' → ss = ts'
  | [], [], _, _, _, _ => rfl
  | s :: ss, t :: ts', h, h', hs, ht => by
    rw [CoversAll] at h h'
    rw [AllUntagged] at hs ht
    rw [covers_antisymm s t h.1 h'.1 hs.1 ht.1, coversAll_antisymm ss ts' h.2 h'.2 hs.2 ht.2]
  | [], _ :: _, h, _, _, _ => by simp [CoversAll] at h
  | _ :: _, [], h, _, _, _ => by simp [CoversAll] at h

end

mutual

theorem specAbove_of_covers (H : Hierarchy ts) : (s t : TypeSpec) → Covers ts s t → Untagged s →
    Over ts t → SpecAbove ts s t
  | .mk base args tags, .mk base' args' tags', h, hs, ht => by
    rw [Untagged] at hs
    rw [Covers] at h
    rw [Over] at ht
    refine ⟨ancestor_of_onPath H ht.1 h.1, ?_, by simp [hs.2]⟩
    exact h.2.imp_right fun hargs => specsAbove_of_coversAll H args args' hargs hs.1 ht.2.1

theorem specsAbove_of_coversAll (H : Hierarchy ts) : (ss ts' : List TypeSpec) →
    CoversAll ts ss ts' → AllUntagged ss → AllOver ts ts' → SpecsAbove ts ss ts'
  | [], [], _, _, _ => trivial
  | s :: ss, t :: ts', h, hs, ht => by
    rw [CoversAll] at h
    rw [AllUntagged] at hs
    rw [AllOver] at ht
    exact ⟨specAbove_of_covers H s t h.1 hs.1 ht.1, specsAbove_of_coversAll H ss ts' h.2 hs.2 ht.2⟩
  | [], _ :: _, h, _, _ => by simp [CoversAll] at h
  | _ :: _, [], h, _, _ => by simp [CoversAll] at h

end

/-! ## The meet of two specifications -/

theorem makeTypespec_of_resolves (h : Resolves ts n) :
    ts.makeTypespec n = some (.ofName n) := by
  obtain ⟨r, hr⟩ := resolves_iff.mp h
  rw [TypeSystem.makeTypespec, if_pos]
  cases hr with
  | found registered => rw [registered]; rfl
  | follow _ declared _ => rw [declared, Option.isSome_some, Bool.or_true]

theorem lowestCommonAncestor_eq {base base' : String} {args args' : List TypeSpec}
    {tags tags' : List (String × String)} (hm : ts.lcaBase base base' = some m)
    (hres : Resolves ts m) : ts.lowestCommonAncestor (.mk base args tags) (.mk base' args' tags') =
      (if args ≠ [] ∧ args.length = args'.length then ts.lowestCommonAncestors args args'
      else some []).map fun joined => .mk m joined [] := by
  have hcond : (!args.isEmpty && !(TypeSpec.mk base' args' tags').empty &&
      args.length = args'.length) = true ↔ args ≠ [] ∧ args.length = args'.length := by
    cases args with
    | nil => simp
    | cons a as => cases args' <;> simp [TypeSpec.empty, TypeSpec.arguments]
  rw [TypeSystem.lowestCommonAncestor, TypeSpec.baseType, TypeSpec.arguments, hm,
    Option.bind_eq_bind, Option.bind_some, makeTypespec_of_resolves hres, Option.bind_eq_bind,
    Option.bind_some]
  simp only [hcond]
  split
  · cases ts.lowestCommonAncestors args args' <;> rfl
  · rfl

/-- One specification is the meet of two others in the order of the paths. -/
structure IsMeet (ts : TypeSystem) (m a b : TypeSpec) : Prop where
  known : Over ts m
  untagged : Untagged m
  covers : ∀ c, Covers ts c m ↔ Covers ts c a ∧ Covers ts c b

/-- The specifications of a list are the meets of those of two others. -/
structure AreMeets (ts : TypeSystem) (ms as bs : List TypeSpec) : Prop where
  known : AllOver ts ms
  untagged : AllUntagged ms
  covers : ∀ cs, CoversAll ts cs ms ↔ CoversAll ts cs as ∧ CoversAll ts cs bs

theorem areMeets_nil : AreMeets ts [] [] [] := ⟨trivial, trivial, fun _ => and_self_iff.symm⟩

theorem areMeets_cons {a b c : TypeSpec} {as bs cs : List TypeSpec} (h : IsMeet ts c a b)
    (hrest : AreMeets ts cs as bs) : AreMeets ts (c :: cs) (a :: as) (b :: bs) := by
  refine ⟨⟨h.known, hrest.known⟩, ⟨h.untagged, hrest.untagged⟩, fun ds => ?_⟩
  cases ds with
  | nil => simp [CoversAll]
  | cons d ds =>
    simp only [CoversAll, h.covers, hrest.covers]
    exact and_and_and_comm

theorem isMeet_of_areMeets {base base' : String} {args args' ms : List TypeSpec}
    {tags tags' : List (String × String)} (hres : Resolves ts m)
    (hm : ∀ u, OnPath ts u m ↔ OnPath ts u base ∧ OnPath ts u base')
    (h : AreMeets ts ms args args') :
    IsMeet ts (.mk m ms []) (.mk base args tags) (.mk base' args' tags') := by
  refine ⟨⟨hres, h.known, .inl rfl⟩, ⟨h.untagged, rfl⟩, ?_⟩
  rintro ⟨cbase, cargs, ctags⟩
  simp only [Covers, TypeSpec.baseType, TypeSpec.arguments, hm, h.covers, or_and_left]
  exact and_and_and_comm

theorem isMeet_of_length_ne {base base' : String} {args args' : List TypeSpec}
    {tags tags' : List (String × String)} (hres : Resolves ts m)
    (hm : ∀ u, OnPath ts u m ↔ OnPath ts u base ∧ OnPath ts u base')
    (h : ¬ (args ≠ [] ∧ args.length = args'.length)) :
    IsMeet ts (.mk m [] []) (.mk base args tags) (.mk base' args' tags') := by
  refine ⟨⟨hres, trivial, .inl rfl⟩, ⟨trivial, rfl⟩, ?_⟩
  rintro ⟨cbase, cargs, ctags⟩
  have hargs : (cargs = [] ∨ CoversAll ts cargs []) ↔
      (cargs = [] ∨ CoversAll ts cargs args) ∧ (cargs = [] ∨ CoversAll ts cargs args') := by
    by_cases hnil : cargs = []
    · simp [hnil]
    · simp only [hnil, false_or]
      refine ⟨fun hcovers => ?_, fun ⟨hcovers, hcovers'⟩ => ?_⟩
      · exact absurd (List.eq_nil_of_length_eq_zero (coversAll_length hcovers)) hnil
      · have hlength := coversAll_length hcovers
        refine absurd ⟨?_, hlength.symm.trans (coversAll_length hcovers')⟩ h
        rintro rfl
        exact hnil (List.eq_nil_of_length_eq_zero hlength)
  simp only [Covers, TypeSpec.baseType, TypeSpec.arguments, hm, hargs]
  exact and_and_and_comm

mutual

theorem lowestCommonAncestor_meet (H : Hierarchy ts) : (a b : TypeSpec) → Over ts a → Over ts b →
    ∃ m, ts.lowestCommonAncestor a b = some m ∧ IsMeet ts m a b
  | .mk base args tags, .mk base' args' tags', ha, hb => by
    rw [Over] at ha hb
    obtain ⟨m, hm, hres, hmeet⟩ := lcaBase_meet H ha.1 hb.1
    rw [lowestCommonAncestor_eq hm hres]
    by_cases hcond : args ≠ [] ∧ args.length = args'.length
    · obtain ⟨ms, hms, hmeets⟩ :=
        lowestCommonAncestors_meet H args args' hcond.2 ha.2.1 hb.2.1
      refine ⟨.mk m ms [], ?_, isMeet_of_areMeets hres hmeet hmeets⟩
      rw [if_pos hcond, hms, Option.map_some]
    · exact ⟨.mk m [] [], by rw [if_neg hcond]; rfl, isMeet_of_length_ne hres hmeet hcond⟩

theorem lowestCommonAncestors_meet (H : Hierarchy ts) : (as bs : List TypeSpec) →
    as.length = bs.length → AllOver ts as → AllOver ts bs →
    ∃ ms, ts.lowestCommonAncestors as bs = some ms ∧ AreMeets ts ms as bs
  | [], [], _, _, _ => ⟨[], rfl, areMeets_nil⟩
  | a :: as, b :: bs, hlength, ha, hb => by
    rw [AllOver] at ha hb
    obtain ⟨m, hm, hmeet⟩ := lowestCommonAncestor_meet H a b ha.1 hb.1
    obtain ⟨ms, hms, hmeets⟩ :=
      lowestCommonAncestors_meet H as bs (by simpa using hlength) ha.2 hb.2
    refine ⟨m :: ms, ?_, areMeets_cons hmeet hmeets⟩
    rw [TypeSystem.lowestCommonAncestors, hm, hms]
    rfl
  | [], _ :: _, hlength, _, _ => by simp at hlength
  | _ :: _, [], hlength, _, _ => by simp at hlength

end

section Meets

variable {s s' c d : TypeSpec}

theorem IsMeet.above (H : Hierarchy ts) (h : IsMeet ts s c d) (hc : Over ts c) (hd : Over ts d) :
    SpecAbove ts s c ∧ SpecAbove ts s d := by
  obtain ⟨hleft, hright⟩ := (h.covers s).mp (covers_refl H s h.known)
  exact ⟨specAbove_of_covers H s c hleft h.untagged hc,
    specAbove_of_covers H s d hright h.untagged hd⟩

theorem AreMeets.above (H : Hierarchy ts) {ms as bs : List TypeSpec} (h : AreMeets ts ms as bs)
    (has : AllOver ts as) (hbs : AllOver ts bs) :
    SpecsAbove ts ms as ∧ SpecsAbove ts ms bs := by
  obtain ⟨hleft, hright⟩ := (h.covers ms).mp (coversAll_refl H ms h.known)
  exact ⟨specsAbove_of_coversAll H ms as hleft h.untagged has,
    specsAbove_of_coversAll H ms bs hright h.untagged hbs⟩

theorem IsMeet.unique (H : Hierarchy ts) (h : IsMeet ts s c d) (h' : IsMeet ts s' d c) :
    s = s' := by
  have hle : Covers ts s s' := (h'.covers s).mpr ((h.covers s).mp (covers_refl H s h.known)).symm
  have hge : Covers ts s' s :=
    (h.covers s').mpr ((h'.covers s').mp (covers_refl H s' h'.known)).symm
  exact covers_antisymm s s' hle hge h.untagged h'.untagged

end Meets

/-! ## The list -/

theorem foldCommonAncestor_meet (H : Hierarchy ts) {l : List TypeSpec} {result : TypeSpec}
    (hover : Over ts result) (huntagged : Untagged result) (hl : ∀ t ∈ l, Over ts t) :
    ∃ m, ts.foldCommonAncestor result l = some m ∧ Over ts m ∧ Untagged m ∧
      ∀ c, Covers ts c m ↔ Covers ts c result ∧ ∀ t ∈ l, Covers ts c t := by
  induction l generalizing result with
  | nil => exact ⟨result, rfl, hover, huntagged, by simp⟩
  | cons t l ih =>
    obtain ⟨hthis, hrest⟩ := List.forall_mem_cons.mp hl
    obtain ⟨m, hm, hmeet⟩ := lowestCommonAncestor_meet H result t hover hthis
    obtain ⟨m', hm', hover', huntagged', hcovers⟩ := ih hmeet.known hmeet.untagged hrest
    refine ⟨m', ?_, hover', huntagged', fun c => ?_⟩
    · rw [TypeSystem.foldCommonAncestor, hm]
      exact hm'
    · rw [hcovers, hmeet.covers, List.forall_mem_cons, and_assoc]

theorem lowestCommonAncestorOf_meet (H : Hierarchy ts) {l : List TypeSpec} (hlong : 2 ≤ l.length)
    (hl : ∀ t ∈ l, Over ts t) :
    ∃ m, ts.lowestCommonAncestorOf l = some m ∧ Over ts m ∧ Untagged m ∧
      ∀ c, Covers ts c m ↔ ∀ t ∈ l, Covers ts c t := by
  match l, hlong with
  | a :: b :: rest, _ =>
    simp only [List.forall_mem_cons] at hl ⊢
    obtain ⟨ha, hb, hrest⟩ := hl
    obtain ⟨m, hm, hmeet⟩ := lowestCommonAncestor_meet H a b ha hb
    obtain ⟨m', hm', hover, huntagged, hcovers⟩ :=
      foldCommonAncestor_meet H hmeet.known hmeet.untagged hrest
    refine ⟨m', ?_, hover, huntagged, fun c => ?_⟩
    · rw [TypeSystem.lowestCommonAncestorOf, hm]
      exact hm'
    · rw [hcovers, hmeet.covers, and_assoc]

theorem lowestCommonAncestorOf_perm (H : Hierarchy ts) {l l' : List TypeSpec} (h : l.Perm l')
    (hl : ∀ t ∈ l, Over ts t) :
    ts.lowestCommonAncestorOf l = ts.lowestCommonAncestorOf l' := by
  rcases Nat.lt_or_ge l.length 2 with hshort | hlong
  · match l, hshort with
    | [], _ => rw [List.nil_perm.mp h]
    | [t], _ => rw [List.singleton_perm.mp h]
  · obtain ⟨m, hm, hover, huntagged, hcovers⟩ := lowestCommonAncestorOf_meet H hlong hl
    obtain ⟨m', hm', hover', huntagged', hcovers'⟩ := lowestCommonAncestorOf_meet H
      (h.length_eq ▸ hlong) fun t ht => hl t (h.mem_iff.mpr ht)
    have hsame : ∀ c, Covers ts c m ↔ Covers ts c m' := by
      intro c
      rw [hcovers, hcovers']
      exact forall_congr' fun t => imp_congr_left h.mem_iff
    rw [hm, hm', covers_antisymm m m' ((hsame m).mp (covers_refl H m hover))
      ((hsame m').mpr (covers_refl H m' hover')) huntagged huntagged']

/-! ## Where the meet is the lowest common ancestor -/

theorem specAbove_ofName {t : TypeSpec} : SpecAbove ts (.ofName u) t ↔
    AncestorOrSelf ts u t.baseType := by
  rw [TypeSpec.ofName, SpecAbove]
  simp

theorem ancestor_object (H : Hierarchy ts) (hres : Resolves ts n) :
    AncestorOrSelf ts "object" n := ancestor_of_onPath H hres (object_onPath H hres)

theorem specAbove_tagged (H : Hierarchy ts) {t : TypeSpec} (ht : Over ts t) {name value : String}
    (htag : t.tryGetTag name = some value) :
    SpecAbove ts (.mk "object" [] [(name, "object")]) t := by
  obtain ⟨base, args, tags⟩ := t
  rw [Over] at ht
  refine ⟨ancestor_object H ht.1, .inl rfl, ?_⟩
  intro tag hmem
  rw [List.mem_singleton.mp hmem]
  refine ⟨value, htag, ?_⟩
  rcases ht.2.2 with rfl | ⟨v, rfl, hv⟩
  · cases htag
  · have hvalue : v = value := by
      rw [TypeSpec.tryGetTag, TypeSpec.tags, List.lookup_cons] at htag
      split at htag
      · exact Option.some.inj htag
      · cases htag
    exact ancestor_object H (hvalue ▸ hv)

theorem exists_tag_of_mem {tags : List (String × String)} {tag : String × String}
    (h : tag ∈ tags) : ∃ value, tags.lookup tag.1 = some value := by
  rw [← Option.isSome_iff_exists, List.lookup_isSome_iff]
  exact ⟨tag, h, beq_self_eq_true _⟩

theorem lowest_mk_iff (H : Hierarchy ts) {base base' : String} {args args' joined : List TypeSpec}
    {tags tags' : List (String × String)} (ha : Over ts (.mk base args tags))
    (hb : Over ts (.mk base' args' tags')) :
    (∀ c, SpecAbove ts c (.mk base args tags) → SpecAbove ts c (.mk base' args' tags') →
      SpecAbove ts c (.mk m joined [])) ↔
    (∀ u, AncestorOrSelf ts u base → AncestorOrSelf ts u base' → AncestorOrSelf ts u m) ∧
      (∀ tag ∈ tags, (TypeSpec.mk base' args' tags').tryGetTag tag.1 = none) ∧
      ∀ cs, SpecsAbove ts cs args → SpecsAbove ts cs args' → cs = [] ∨ SpecsAbove ts cs joined := by
  constructor
  · intro hall
    refine ⟨fun u hu hu' => ?_, fun tag htag => ?_, fun cs hcs hcs' => ?_⟩
    · exact specAbove_ofName.mp (hall (.ofName u) (specAbove_ofName.mpr hu)
        (specAbove_ofName.mpr hu'))
    · cases hvalue' : (TypeSpec.mk base' args' tags').tryGetTag tag.1 with
      | none => rfl
      | some value' =>
        obtain ⟨value, hvalue⟩ := exists_tag_of_mem htag
        have habove := hall _ (specAbove_tagged H ha hvalue) (specAbove_tagged H hb hvalue')
        obtain ⟨_, hnone, -⟩ := habove.2.2 _ (List.mem_singleton_self _)
        cases hnone
    · rw [Over] at ha hb
      have habove : SpecAbove ts (.mk "object" cs []) (.mk m joined []) := by
        apply hall
        · exact ⟨ancestor_object H ha.1, .inr hcs, by simp⟩
        · exact ⟨ancestor_object H hb.1, .inr hcs', by simp⟩
      exact habove.2.1
  · rintro ⟨hnames, htags, hargs⟩ ⟨cbase, cargs, ctags⟩ h h'
    rw [SpecAbove] at h h'
    refine ⟨hnames cbase h.1 h'.1, ?_, fun tag htag => ?_⟩
    · rcases h.2.1 with hnil | hcs
      · exact .inl hnil
      · rcases h'.2.1 with hnil | hcs'
        · exact .inl hnil
        · exact hargs cargs hcs hcs'
    · obtain ⟨value, hvalue, -⟩ := h.2.2 tag htag
      obtain ⟨value', hvalue', -⟩ := h'.2.2 tag htag
      have hnone := htags (tag.1, value) (mem_of_lookup hvalue)
      rw [hvalue'] at hnone
      cases hnone

theorem allLowest_cons_iff {a b m : TypeSpec} {as bs ms : List TypeSpec}
    (hm : SpecAbove ts m a ∧ SpecAbove ts m b) (hms : SpecsAbove ts ms as ∧ SpecsAbove ts ms bs) :
    (∀ cs, SpecsAbove ts cs (a :: as) → SpecsAbove ts cs (b :: bs) → SpecsAbove ts cs (m :: ms)) ↔
    (∀ c, SpecAbove ts c a → SpecAbove ts c b → SpecAbove ts c m) ∧
      ∀ cs, SpecsAbove ts cs as → SpecsAbove ts cs bs → SpecsAbove ts cs ms := by
  constructor
  · intro h
    refine ⟨fun c hc hc' => ?_, fun cs hcs hcs' => ?_⟩
    · exact (h (c :: ms) ⟨hc, hms.1⟩ ⟨hc', hms.2⟩).1
    · exact (h (m :: cs) ⟨hm.1, hcs⟩ ⟨hm.2, hcs'⟩).2
  · rintro ⟨hhead, htail⟩ cs hcs hcs'
    cases cs with
    | nil => simp [SpecsAbove] at hcs
    | cons c cs => exact ⟨hhead c hcs.1 hcs'.1, htail cs hcs.2 hcs'.2⟩

theorem noArguments_iff {args args' : List TypeSpec}
    (h : ¬ (args ≠ [] ∧ args.length = args'.length)) :
    (∀ cs, SpecsAbove ts cs args → SpecsAbove ts cs args' → cs = [] ∨ SpecsAbove ts cs []) ↔
      (args.length = args'.length → AllMeet ts args args') := by
  refine iff_of_true (fun cs hcs hcs' => ?_) fun hlength => ?_
  · have hlength := specsAbove_length hcs
    by_cases hnil : args = []
    · subst hnil
      exact .inl (List.eq_nil_of_length_eq_zero hlength)
    · exact absurd ⟨hnil, hlength.symm.trans (specsAbove_length hcs')⟩ h
  · by_cases hnil : args = []
    · subst hnil
      trivial
    · exact absurd ⟨hnil, hlength⟩ h

mutual

theorem lowest_iff (H : Hierarchy ts) : (a b m : TypeSpec) → Over ts a → Over ts b →
    ts.lowestCommonAncestor a b = some m →
    ((∀ c, SpecAbove ts c a → SpecAbove ts c b → SpecAbove ts c m) ↔ SpecsMeet ts a b)
  | .mk base args tags, .mk base' args' tags', m, ha, hb, hm => by
    have hleft := ha
    have hright := hb
    rw [Over] at hleft hright
    obtain ⟨hbase, hargs, -⟩ := hleft
    obtain ⟨hbase', hargs', -⟩ := hright
    obtain ⟨top, htop, hres, -⟩ := lcaBase_meet H hbase hbase'
    rw [lowestCommonAncestor_eq htop hres] at hm
    obtain ⟨joined, hjoined, rfl⟩ := Option.map_eq_some_iff.mp hm
    rw [lowest_mk_iff H ha hb, lowest_lcaBase_iff H hbase hbase' htop, SpecsMeet,
      TypeSpec.baseType, TypeSpec.arguments]
    refine and_congr_right' (and_congr_right' ?_)
    by_cases hcond : args ≠ [] ∧ args.length = args'.length
    · rw [if_pos hcond] at hjoined
      rw [← allLowest_iff H args args' joined hcond.2 hargs hargs' hjoined, imp_iff_right hcond.2]
      refine forall_congr' fun cs => imp_congr_right fun hcs => imp_congr_right fun _ => ?_
      refine or_iff_right ?_
      rintro rfl
      exact hcond.1 (List.eq_nil_of_length_eq_zero (specsAbove_length hcs).symm)
    · rw [if_neg hcond] at hjoined
      obtain rfl := Option.some.inj hjoined
      exact noArguments_iff hcond

theorem allLowest_iff (H : Hierarchy ts) : (as bs ms : List TypeSpec) →
    as.length = bs.length → AllOver ts as → AllOver ts bs →
    ts.lowestCommonAncestors as bs = some ms →
    ((∀ cs, SpecsAbove ts cs as → SpecsAbove ts cs bs → SpecsAbove ts cs ms) ↔ AllMeet ts as bs)
  | [], [], ms, _, _, _, hms => by
    obtain rfl : [] = ms := Option.some.inj hms
    exact iff_of_true (fun _ h _ => h) trivial
  | a :: as, b :: bs, ms, hlength, ha, hb, hms => by
    obtain ⟨ha, has⟩ := ha
    obtain ⟨hb, hbs⟩ := hb
    have hrest : as.length = bs.length := by simpa using hlength
    obtain ⟨m, hm, hmeet⟩ := lowestCommonAncestor_meet H a b ha hb
    obtain ⟨ms', hms', hmeets⟩ := lowestCommonAncestors_meet H as bs hrest has hbs
    rw [TypeSystem.lowestCommonAncestors, hm, hms'] at hms
    obtain rfl := Option.some.inj hms
    rw [allLowest_cons_iff (hmeet.above H ha hb) (hmeets.above H has hbs), AllMeet,
      lowest_iff H a b m ha hb hm, allLowest_iff H as bs ms' hrest has hbs hms']
  | [], _ :: _, _, hlength, _, _, _ => by simp at hlength
  | _ :: _, [], _, hlength, _, _, _ => by simp at hlength

end

/-- INTERNAL: **The lowest common ancestor.** On the table any run of operations makes, the function
finds an ancestor of two specifications over it, the same in either order, and a list comes to the
same in any; the ancestor is the lowest of all exactly if the specifications meet.
SRCLINE: TypeSystem.cpp:1475-1543 -/
theorem lowestCommonAncestor_iff (same : SootType → SootType → Bool) (ops : List TypeOperation) :
    (∀ a b, Over (typesAfter same ops) a → Over (typesAfter same ops) b →
      ∃ m, (typesAfter same ops).lowestCommonAncestor a b = some m ∧
        (typesAfter same ops).lowestCommonAncestor b a = some m ∧
        SpecAbove (typesAfter same ops) m a ∧ SpecAbove (typesAfter same ops) m b ∧
        ((∀ c, SpecAbove (typesAfter same ops) c a → SpecAbove (typesAfter same ops) c b →
          SpecAbove (typesAfter same ops) c m) ↔ SpecsMeet (typesAfter same ops) a b)) ∧
    ∀ l l' : List TypeSpec, l.Perm l' → (∀ t ∈ l, Over (typesAfter same ops) t) →
      (typesAfter same ops).lowestCommonAncestorOf l =
        (typesAfter same ops).lowestCommonAncestorOf l' := by
  have H := hierarchy_typesAfter same ops
  refine ⟨fun a b ha hb => ?_, fun l l' => lowestCommonAncestorOf_perm H⟩
  obtain ⟨m, hm, hmeet⟩ := lowestCommonAncestor_meet H a b ha hb
  obtain ⟨m', hm', hmeet'⟩ := lowestCommonAncestor_meet H b a hb ha
  obtain rfl := hmeet.unique H hmeet'
  obtain ⟨habove, habove'⟩ := hmeet.above H ha hb
  exact ⟨m, hm, hm', habove, habove', lowest_iff H a b m ha hb hm⟩

theorem lowestCommonAncestor_structures :
    (∃ m, (typesAfter (fun _ _ => true) []).lowestCommonAncestor (.ofName "basic")
          (.ofName "structure") = some m ∧
        (typesAfter (fun _ _ => true) []).lowestCommonAncestor (.ofName "structure")
          (.ofName "basic") = some m ∧
        SpecAbove (typesAfter (fun _ _ => true) []) m (.ofName "basic") ∧
        SpecAbove (typesAfter (fun _ _ => true) []) m (.ofName "structure") ∧
        ((∀ c, SpecAbove (typesAfter (fun _ _ => true) []) c (.ofName "basic") →
          SpecAbove (typesAfter (fun _ _ => true) []) c (.ofName "structure") →
          SpecAbove (typesAfter (fun _ _ => true) []) c m) ↔
            SpecsMeet (typesAfter (fun _ _ => true) []) (.ofName "basic") (.ofName "structure"))) ∧
      (typesAfter (fun _ _ => true) []).lowestCommonAncestorOf
          [.ofName "basic", .ofName "structure"] =
        (typesAfter (fun _ _ => true) []).lowestCommonAncestorOf
          [.ofName "structure", .ofName "basic"] := by
  have hbasic : Over (typesAfter (fun _ _ => true) []) (.ofName "basic") :=
    ⟨by with_unfolding_all decide, trivial, .inl rfl⟩
  have hstructure : Over (typesAfter (fun _ _ => true) []) (.ofName "structure") :=
    ⟨by with_unfolding_all decide, trivial, .inl rfl⟩
  have h := lowestCommonAncestor_iff (fun _ _ => true) []
  refine ⟨h.1 _ _ hbasic hstructure, h.2 _ _ (List.Perm.swap _ _ _) ?_⟩
  simp only [List.forall_mem_cons]
  exact ⟨hbasic, hstructure, by simp⟩

/-! ## A declared name and the type it is declared as -/

/-- The path of a name that is declared as a `basic` leaves `basic` out. -/
theorem not_lowestCommonAncestor : ¬ ∀ same ops a b, Over (typesAfter same ops) a →
    Over (typesAfter same ops) b → ∀ m, (typesAfter same ops).lowestCommonAncestor a b = some m →
    ∀ c, SpecAbove (typesAfter same ops) c a → SpecAbove (typesAfter same ops) c b →
      SpecAbove (typesAfter same ops) c m := by
  intro h
  have H := hierarchy_typesAfter (fun _ _ => true) [.forwardDeclareTypeAs "vehicle" "basic"]
  have hlowest := h (fun _ _ => true) [.forwardDeclareTypeAs "vehicle" "basic"]
    (.ofName "vehicle") (.ofName "basic")
  generalize hts : typesAfter (fun _ _ => true) [.forwardDeclareTypeAs "vehicle" "basic"] = ts
    at H hlowest
  have hvehicle : Resolves ts "vehicle" := by subst hts; with_unfolding_all decide
  have hbasic : Resolves ts "basic" := by subst hts; with_unfolding_all decide
  have hpass : PassedOver ts "vehicle" "basic" := by
    subst hts
    exact .declared (by with_unfolding_all rfl) (by with_unfolding_all rfl)
  have ha : Over ts (.ofName "vehicle") := ⟨hvehicle, trivial, .inl rfl⟩
  have hb : Over ts (.ofName "basic") := ⟨hbasic, trivial, .inl rfl⟩
  obtain ⟨m, hm, -⟩ := lowestCommonAncestor_meet H _ _ ha hb
  have hmeet := (lowest_iff H _ _ m ha hb hm).mp (hlowest ha hb m hm)
  rcases hmeet.1 with hsame | hapart
  · exact absurd hsame (by decide)
  · exact (hapart "basic" (by decide)).1 hpass (ancestorOrSelf_refl H hbasic)

end Soot.Analysis
