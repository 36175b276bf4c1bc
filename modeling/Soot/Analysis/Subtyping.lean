import Soot.Analysis.Hierarchies

/-!
# Subtyping is a partial preorder

What the check of two base types comes to on a hierarchy, and from it, by induction on the
specifications, that the compatibility check is reflexive and transitive on every table a run
of operations makes.
-/

set_option autoImplicit false

namespace Soot.Analysis

open Soot.Computation Soot.Program Soot.Model

variable {ts : TypeSystem} {t : SootType} {al ab : Bool}

/-! ## Base types -/

theorem lookupTypeAllowPartialDef_of_lookup {n : String} (h : ts.types.lookup n = some t) :
    ts.lookupTypeAllowPartialDef n = some t := by
  simp [TypeSystem.lookupTypeAllowPartialDef, h]

theorem hasAncestor_eq (H : Hierarchy ts) {n : String} (ht : ts.types.lookup n = some t)
    {above : List SootType} (habove : Ancestry (parentType ts) t above) (exp : String) {k : ℕ}
    (hk : above.length < k) :
    ts.hasAncestor exp k t = some (decide (exp ∈ above.map SootType.name)) := by
  induction k generalizing t n above with
  | zero => simp at hk
  | succ k ih =>
    unfold TypeSystem.hasAncestor
    cases habove with
    | root hnone =>
      have hno : t.hasParent ≠ true := by
        intro hp
        obtain ⟨p, hlookup⟩ := Option.isSome_iff_exists.mp (H.parents ht hp)
        simp [parentType, hp, hlookup] at hnone
      simp [hno]
    | @child _ p rest hsome htail =>
      unfold parentType at hsome
      split at hsome
      · rename_i hp
        have hname : p.name = t.parent := H.named hsome
        rw [if_pos hp, lookupTypeAllowPartialDef_of_lookup hsome]
        by_cases hexp : exp = t.parent
        · simp [hexp, hname]
        · have hrest := ih hsome htail (by simpa using hk)
          simp [hexp, hrest, hname]
      · cases hsome

theorem typecheckBaseTypes_iff (H : Hierarchy ts) (expected actual : String) :
    ts.typecheckBaseTypes al ab expected actual = some true ↔
      if ab = true ∧ TypeSystem.canonicalBase al expected = "_type_" then
        Resolves ts (TypeSystem.canonicalBase al actual)
      else Resolves ts (TypeSystem.canonicalBase al expected) ∧
        Below ts (TypeSystem.canonicalBase al expected) (TypeSystem.canonicalBase al actual) := by
  unfold TypeSystem.typecheckBaseTypes
  generalize TypeSystem.canonicalBase al expected = exp
  generalize TypeSystem.canonicalBase al actual = act
  dsimp only
  by_cases habs : ab = true ∧ exp = "_type_"
  · rw [if_pos habs, if_pos habs, Option.some.injEq]
    rfl
  · rw [if_neg habs, if_neg habs]
    cases hexp : ts.lookupTypeAllowPartialDef exp with
    | none => simp [Resolves, hexp]
    | some e =>
      have hres : Resolves ts exp := by simp [Resolves, hexp]
      dsimp only
      by_cases heq : exp = act
      · simp only [heq, if_true, true_iff]
        exact ⟨heq ▸ hres, Or.inl rfl⟩
      · rw [if_neg heq]
        cases hact : ts.lookupTypeAllowPartialDef act with
        | none =>
          simp only [reduceCtorEq, false_iff]
          rintro ⟨-, h | ⟨t, above, ht, -⟩⟩
          · exact heq h
          · simp [hact] at ht
        | some t =>
          obtain ⟨m, hm⟩ := registered_of_lookupAllow hact
          obtain ⟨above, habove⟩ := H.lines hm
          dsimp only
          have hbelow : Below ts exp act ↔ exp = t.name ∨ exp ∈ above.map SootType.name := by
            constructor
            · rintro (h | ⟨t', above', ht', habove', u, hu, rfl⟩)
              · exact absurd h heq
              · rw [hact] at ht'
                cases ht'
                rw [habove'.unique habove] at hu
                rcases List.mem_cons.mp hu with rfl | hu
                · exact Or.inl rfl
                · exact Or.inr (List.mem_map_of_mem hu)
            · rintro (h | h)
              · exact Or.inr ⟨t, above, hact, habove, t, List.mem_cons_self, h.symm⟩
              · obtain ⟨u, hu, rfl⟩ := List.mem_map.mp h
                exact Or.inr ⟨t, above, hact, habove, u, List.mem_cons_of_mem _ hu, rfl⟩
          rw [hbelow]
          by_cases hname : exp = t.name
          · rw [if_pos hname]
            exact iff_of_true rfl ⟨hres, Or.inl hname⟩
          · rw [if_neg hname, hasAncestor_eq H hm habove exp (H.line_length habove)]
            simp [hname, hres]

theorem below_trans (H : Hierarchy ts) {a b c : String} (hab : Below ts a b)
    (hbc : Below ts b c) : Below ts a c := by
  rcases hbc with rfl | ⟨t, above, ht, habove, u, hu, rfl⟩
  · exact hab
  · obtain ⟨m, hm⟩ := registered_of_lookupAllow ht
    have hregistered : ∀ v ∈ t :: above, ts.types.lookup v.name = some v := by
      intro v hv
      rcases List.mem_cons.mp hv with rfl | hv
      · rwa [H.named hm]
      · exact H.line_registered habove v hv
    have hsub : ∀ above', Ancestry (parentType ts) u above' → ∀ v ∈ u :: above',
        v ∈ t :: above := by
      intro above' habove' v hv
      rcases List.mem_cons.mp hu with rfl | hmem
      · rwa [habove.unique habove']
      · obtain ⟨rest, hrest, hsuffix⟩ := habove.of_mem hmem
        rw [habove'.unique hrest] at hv
        exact List.mem_cons_of_mem _ (hsuffix.subset hv)
    rcases hab with rfl | ⟨u', above', hu', habove', v, hv, rfl⟩
    · exact Or.inr ⟨t, above, ht, habove, u, hu, rfl⟩
    · rw [lookupTypeAllowPartialDef_of_lookup (hregistered u hu)] at hu'
      cases hu'
      exact Or.inr ⟨t, above, ht, habove, v, hsub above' habove' v hv, rfl⟩

theorem below_object (H : Hierarchy ts) {c : String} (hc : Resolves ts c) :
    Below ts "object" c := by
  obtain ⟨t, ht⟩ := Option.isSome_iff_exists.mp hc
  obtain ⟨m, hm⟩ := registered_of_lookupAllow ht
  obtain ⟨above, habove⟩ := H.lines hm
  obtain ⟨r, hr, hnone⟩ := habove.exists_root
  obtain ⟨n, hn⟩ : ∃ n, ts.types.lookup n = some r := by
    rcases List.mem_cons.mp hr with rfl | hr
    · exact ⟨m, hm⟩
    · exact ⟨r.name, H.line_registered habove r hr⟩
  refine Or.inr ⟨t, above, ht, habove, r, hr, ?_⟩
  rw [H.named hn]
  apply H.root hn
  by_contra hp
  rw [Bool.not_eq_false] at hp
  obtain ⟨p, hlookup⟩ := Option.isSome_iff_exists.mp (H.parents hn hp)
  simp [parentType, hp, hlookup] at hnone

theorem above_placeholder (H : Hierarchy ts) {a : String} (h : Below ts a "_type_")
    (hne : a ≠ "_type_") : a = "object" := by
  rcases h with h | ⟨t, above, ht, habove, u, hu, rfl⟩
  · exact absurd h hne
  · obtain ⟨p, hp, hparent⟩ := H.underObject _ (Or.inr rfl)
    rw [lookupTypeAllowPartialDef_of_lookup hp] at ht
    cases ht
    rcases List.mem_cons.mp hu with rfl | hu
    · exact absurd (H.named hp) hne
    · cases habove with
      | root _ => simp at hu
      | @child _ q rest hsome htail =>
        unfold parentType at hsome
        split at hsome
        · rw [hparent] at hsome
          have hq := H.named hsome
          have hno : parentType ts q = none := by simp [parentType, SootType.hasParent, hq]
          obtain rfl := htail.unique (.root hno)
          rw [List.mem_singleton.mp hu, hq]
        · cases hsome

theorem canonicalBase_resolves (H : Hierarchy ts) {a : String} (ha : Resolves ts a) :
    Resolves ts (TypeSystem.canonicalBase al a) := by
  have hbuiltin : ∀ n, (builtinTypes.types.lookup n).isSome → Resolves ts n := by
    intro n hn
    obtain ⟨t, ht⟩ := Option.isSome_iff_exists.mp (H.builtin n hn)
    exact Option.isSome_iff_exists.mpr ⟨t, lookupTypeAllowPartialDef_of_lookup ht⟩
  unfold TypeSystem.canonicalBase
  split
  · exact hbuiltin "float" (by with_unfolding_all decide)
  · split
    · exact hbuiltin "int" (by with_unfolding_all decide)
    · exact ha

theorem typecheckBaseTypes_refl (H : Hierarchy ts) {a : String} (ha : Resolves ts a) :
    ts.typecheckBaseTypes al ab a a = some true := by
  rw [typecheckBaseTypes_iff H]
  have hres : Resolves ts (TypeSystem.canonicalBase al a) := canonicalBase_resolves H ha
  split
  · exact hres
  · exact ⟨hres, Or.inl rfl⟩

theorem typecheckBaseTypes_trans (H : Hierarchy ts) {a b c : String}
    (hab : ts.typecheckBaseTypes al ab a b = some true)
    (hbc : ts.typecheckBaseTypes al ab b c = some true) :
    ts.typecheckBaseTypes al ab a c = some true := by
  rw [typecheckBaseTypes_iff H] at hab hbc ⊢
  generalize TypeSystem.canonicalBase al a = a at hab ⊢
  generalize TypeSystem.canonicalBase al b = b at hab hbc
  generalize TypeSystem.canonicalBase al c = c at hbc ⊢
  have hresolves : Resolves ts c := by
    split at hbc
    · exact hbc
    · obtain ⟨hb, rfl | ⟨t, above, ht, -⟩⟩ := hbc
      · exact hb
      · exact Option.isSome_iff_exists.mpr ⟨t, ht⟩
  split
  · exact hresolves
  · rename_i hplain
    rw [if_neg hplain] at hab
    refine ⟨hab.1, ?_⟩
    split at hbc
    · -- the middle specification is the placeholder: only `object` accepts it
      rename_i hplaceholder
      rw [hplaceholder.2] at hab
      rw [above_placeholder H hab.2 fun h => hplain ⟨hplaceholder.1, h⟩]
      exact below_object H hresolves
    · exact below_trans H hab.2 hbc.2

/-! ## Specifications -/

theorem typecheckTags_cons (actual : TypeSpec) (name value : String)
    (rest : List (String × String)) :
    ts.typecheckTags al ab actual ((name, value) :: rest) = some true ↔
      (name = "behavior" ∧ ∃ got, actual.tryGetTag "behavior" = some got ∧
        ts.typecheckBaseTypes al ab value got = some true) ∧
      ts.typecheckTags al ab actual rest = some true := by
  rw [TypeSystem.typecheckTags]
  generalize ts.typecheckTags al ab actual rest = others
  by_cases hname : name = "behavior"
  · subst hname
    cases hgot : actual.tryGetTag "behavior" with
    | none => cases others <;> simp
    | some got =>
      simp only [Option.some.injEq, exists_eq_left', true_and, if_true]
      generalize ts.typecheckBaseTypes al ab value got = here
      cases here with
      | none => simp
      | some here => cases others <;> simp [and_comm]
  · simp [hname]

theorem typecheckTags_iff (actual : TypeSpec) (tags : List (String × String)) :
    ts.typecheckTags al ab actual tags = some true ↔ ∀ tag ∈ tags, tag.1 = "behavior" ∧
      ∃ got, actual.tryGetTag "behavior" = some got ∧
        ts.typecheckBaseTypes al ab tag.2 got = some true := by
  induction tags with
  | nil => simp [TypeSystem.typecheckTags]
  | cons tag rest ih => rw [List.forall_mem_cons, ← ih, typecheckTags_cons]

theorem accepts_iff (base : String) (args : List TypeSpec) (tags : List (String × String))
    (actual : TypeSpec) :
    Accepts ts al ab (.mk base args tags) actual ↔
      ts.typecheckBaseTypes al ab base actual.baseType = some true ∧
      (args = [] ∨ args.length = actual.arguments.length ∧
        ts.typecheckArgs al ab args actual.arguments = some true) ∧
      ts.typecheckTags al ab actual tags = some true := by
  have hnil : args = [] → ts.typecheckArgs al ab args actual.arguments = some true := by
    rintro rfl
    simp [TypeSystem.typecheckArgs]
  unfold Accepts
  rw [TypeSystem.typecheck]
  generalize ts.typecheckBaseTypes al ab base actual.baseType = baseOk
  generalize ts.typecheckTags al ab actual tags = tagsOk
  by_cases hlen : args.length = actual.arguments.length
  · simp only [hlen, if_true, true_and, or_iff_right_of_imp hnil]
    generalize ts.typecheckArgs al ab args actual.arguments = argsOk
    rcases baseOk with - | baseOk <;> rcases argsOk with - | argsOk <;>
      rcases tagsOk with - | tagsOk <;> simp [and_comm, and_left_comm]
  · simp only [hlen, if_false, false_and, or_false]
    rcases baseOk with - | baseOk <;> rcases tagsOk with - | tagsOk <;>
      simp [and_comm, and_assoc]

theorem typecheckArgs_cons (e a : TypeSpec) (es as : List TypeSpec) :
    ts.typecheckArgs al ab (e :: es) (a :: as) = some true ↔
      Accepts ts al ab e a ∧ ts.typecheckArgs al ab es as = some true := by
  rw [TypeSystem.typecheckArgs, Accepts]
  cases ts.typecheck al ab e a with
  | none => simp
  | some ok => cases ok <;> simp

mutual

theorem accepts_refl (H : Hierarchy ts) : (a : TypeSpec) → Over ts a → Accepts ts al ab a a
  | .mk base args tags, hover => by
    obtain ⟨hbase, hargs, htags⟩ := hover
    refine (accepts_iff base args tags _).mpr ⟨typecheckBaseTypes_refl H hbase, ?_, ?_⟩
    · exact Or.inr ⟨rfl, acceptsAll_refl H args hargs⟩
    · rw [typecheckTags_iff]
      rcases htags with rfl | ⟨value, rfl, hvalue⟩
      · simp
      · intro tag htag
        rw [List.mem_singleton.mp htag]
        exact ⟨rfl, value, rfl, typecheckBaseTypes_refl H hvalue⟩

theorem acceptsAll_refl (H : Hierarchy ts) : (as : List TypeSpec) → AllOver ts as →
    ts.typecheckArgs al ab as as = some true
  | [], _ => by simp [TypeSystem.typecheckArgs]
  | a :: as, hover =>
    (typecheckArgs_cons a a as as).mpr ⟨accepts_refl H a hover.1, acceptsAll_refl H as hover.2⟩

end

mutual

theorem accepts_trans (H : Hierarchy ts) : (a b c : TypeSpec) → Accepts ts al ab a b →
    Accepts ts al ab b c → Accepts ts al ab a c
  | .mk base args tags, .mk base' args' tags', c, hab, hbc => by
    obtain ⟨hbase, hargs, htags⟩ := (accepts_iff base args tags _).mp hab
    obtain ⟨hbase', hargs', htags'⟩ := (accepts_iff base' args' tags' _).mp hbc
    refine (accepts_iff base args tags c).mpr ⟨typecheckBaseTypes_trans H hbase hbase', ?_, ?_⟩
    · rcases hargs with hnil | ⟨hlen, hall⟩
      · exact Or.inl hnil
      · rcases hargs' with rfl | ⟨hlen', hall'⟩
        · exact Or.inl (List.eq_nil_of_length_eq_zero hlen)
        · exact Or.inr ⟨hlen.trans hlen', acceptsAll_trans H args args' c.arguments hlen hlen'
            hall hall'⟩
    · rw [typecheckTags_iff] at htags htags' ⊢
      intro tag htag
      obtain ⟨hname, got, hgot, hvalue⟩ := htags tag htag
      obtain ⟨-, got', hgot', hvalue'⟩ := htags' _ (mem_of_lookup hgot)
      exact ⟨hname, got', hgot', typecheckBaseTypes_trans H hvalue hvalue'⟩

theorem acceptsAll_trans (H : Hierarchy ts) : (as bs cs : List TypeSpec) →
    as.length = bs.length → bs.length = cs.length →
    ts.typecheckArgs al ab as bs = some true → ts.typecheckArgs al ab bs cs = some true →
    ts.typecheckArgs al ab as cs = some true
  | [], _, cs, _, _, _, _ => by simp [TypeSystem.typecheckArgs]
  | a :: as, b :: bs, c :: cs, hlen, hlen', hab, hbc => by
    obtain ⟨ha, has⟩ := (typecheckArgs_cons a b as bs).mp hab
    obtain ⟨hb, hbs⟩ := (typecheckArgs_cons b c bs cs).mp hbc
    exact (typecheckArgs_cons a c as cs).mpr ⟨accepts_trans H a b c ha hb,
      acceptsAll_trans H as bs cs (Nat.succ.inj hlen) (Nat.succ.inj hlen') has hbs⟩

end

/-- **Subtyping is a partial preorder.** On the table any run of operations makes, whichever
aliases and placeholders are allowed, a specification over the table is accepted where it is
expected itself, and what is accepted where something accepted is expected is accepted. -/
theorem typecheck_preorder (same : SootType → SootType → Bool) (ops : List TypeOperation)
    (allowAlias allowAbstract : Bool) :
    (∀ a, Over (typesAfter same ops) a →
      Accepts (typesAfter same ops) allowAlias allowAbstract a a) ∧
    ∀ a b c, Accepts (typesAfter same ops) allowAlias allowAbstract a b →
      Accepts (typesAfter same ops) allowAlias allowAbstract b c →
      Accepts (typesAfter same ops) allowAlias allowAbstract a c :=
  ⟨accepts_refl (hierarchy_typesAfter same ops), accepts_trans (hierarchy_typesAfter same ops)⟩

/-- A basic declared before it is defined. -/
def forwardDeclared : List TypeOperation := [.forwardDeclareTypeAs "vehicle" "basic"]

theorem typecheck_preorder_forwardDeclared :
    Accepts (typesAfter (fun _ _ => true) forwardDeclared) false false
        (.function [.ofName "vehicle"]) (.function [.ofName "vehicle"]) ∧
      Accepts (typesAfter (fun _ _ => true) forwardDeclared) false false
        (.function [.ofName "object"]) (.function [.ofName "vehicle"]) := by
  have h := typecheck_preorder (fun _ _ => true) forwardDeclared false false
  refine ⟨h.1 _ ?_, h.2 _ (.function [.ofName "basic"]) _ ?_ ?_⟩
  · have hfunction : Resolves (typesAfter (fun _ _ => true) forwardDeclared) "function" := by
      with_unfolding_all decide
    have hvehicle : Resolves (typesAfter (fun _ _ => true) forwardDeclared) "vehicle" := by
      with_unfolding_all decide
    exact ⟨hfunction, ⟨⟨hvehicle, trivial, Or.inl rfl⟩, trivial⟩, Or.inl rfl⟩
  · with_unfolding_all decide
  · with_unfolding_all decide

end Soot.Analysis
