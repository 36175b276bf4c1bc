import Soot.Analysis.Hierarchies
import Soot.Model.TypeQueries

/-!
# Forward declarations over runs

A definition never breaks a chain of forward declarations: it ends some of them earlier. A new
declaration keeps all chains, and its own ends exactly if its parent is known: a parent of which
nothing is known is where its chain is lost, or is the declared name itself and closes a cycle.
-/

set_option autoImplicit false

namespace Soot.Analysis

open Soot.Computation Soot.Computation.StatefulExcept Soot.Program Soot.Model

variable {n : String}

variable {ts us : TypeSystem} {same : SootType → SootType → Bool}

/-! ## Names that lead to a type -/

/-- A name is defined, or is declared as the child of a name that leads to a type. -/
inductive Leads (ts : TypeSystem) : String → Prop
  | registered {n : String} (h : (ts.types.lookup n).isSome) : Leads ts n
  | declared {n m : String} (h : ts.forwardDeclaredTypes.lookup n = some m) (rest : Leads ts m) :
      Leads ts n

theorem leads_iff : Leads ts n ↔ ∃ t, PartialLookup ts n (some t) := by
  constructor
  · intro h
    induction h with
    | registered h =>
      obtain ⟨t, ht⟩ := Option.isSome_iff_exists.mp h
      exact ⟨t, .found ht⟩
    | @declared n m hdecl _ ih =>
      obtain ⟨t, ht⟩ := ih
      cases hn : ts.types.lookup n with
      | some u => exact ⟨u, .found hn⟩
      | none => exact ⟨t, .follow hn hdecl ht⟩
  · rintro ⟨t, ht⟩
    generalize hout : some t = outcome at ht
    induction ht with
    | found registered => exact .registered (by simp [registered])
    | unknown _ _ => cases hout
    | follow _ declared _ ih => exact .declared declared (ih hout)

theorem chainsEnd_iff :
    ChainsEnd ts ↔ ∀ n, (ts.forwardDeclaredTypes.lookup n).isSome → Leads ts n := by
  constructor
  · intro h n hn
    exact leads_iff.mpr (h.defined n hn)
  · intro h
    refine ⟨fun n => ?_, fun n hn => leads_iff.mp (h n hn)⟩
    cases htypes : ts.types.lookup n with
    | some t => exact ⟨some t, .found htypes⟩
    | none =>
      cases hdecl : ts.forwardDeclaredTypes.lookup n with
      | none => exact ⟨none, .unknown htypes hdecl⟩
      | some m =>
        obtain ⟨t, ht⟩ := leads_iff.mp (h n (by simp [hdecl]))
        exact ⟨some t, ht⟩

theorem Leads.mono (hreg : ∀ n, (ts.types.lookup n).isSome → (us.types.lookup n).isSome)
    (hdecl : ∀ n m, ts.forwardDeclaredTypes.lookup n = some m →
      us.forwardDeclaredTypes.lookup n = some m ∨ (us.types.lookup n).isSome)
    (h : Leads ts n) : Leads us n := by
  induction h with
  | registered h => exact .registered (hreg _ h)
  | declared h _ ih =>
    rcases hdecl _ _ h with hsame | hdef
    · exact .declared hsame ih
    · exact .registered hdef

/-! ## The lookup of the model -/

/-- The step from a name to what it is declared as, until a name is defined. -/
def nextName (ts : TypeSystem) (n : String) : Option String :=
  if (ts.types.lookup n).isSome then none else ts.forwardDeclaredTypes.lookup n

theorem ancestry_of_lookup {outcome : Option SootType}
    (h : PartialLookup ts n outcome) : ∃ above, Ancestry (nextName ts) n above := by
  induction h with
  | found registered => exact ⟨[], .root (by simp [nextName, registered])⟩
  | unknown unregistered undeclared =>
    exact ⟨[], .root (by rw [nextName, unregistered, undeclared]; rfl)⟩
  | follow unregistered declared _ ih =>
    obtain ⟨above, habove⟩ := ih
    exact ⟨_, .child (by rw [nextName, unregistered, declared]; rfl) habove⟩

theorem followForward_of_lookup {t : SootType} {above : List String}
    (habove : Ancestry (nextName ts) n above) (h : PartialLookup ts n (some t))
    (hn : ts.types.lookup n = none) {k : ℕ} (hk : above.length ≤ k) :
    ts.followForward k n = some t := by
  induction habove generalizing k with
  | @root n hnone =>
    cases h with
    | found registered => simp [registered] at hn
    | follow unregistered declared _ =>
      rw [nextName, unregistered, declared] at hnone
      cases hnone
  | @child n m above hnext hline ih =>
    obtain ⟨k, rfl⟩ : ∃ j, k = j + 1 := ⟨k - 1, by rw [List.length_cons] at hk; omega⟩
    cases h with
    | found registered => simp [registered] at hn
    | @follow _ m' _ unregistered declared rest =>
      have hm : m' = m := by
        rw [nextName, unregistered, declared] at hnext
        exact Option.some.inj hnext
      subst hm
      have hlength : above.length ≤ k := by
        rw [List.length_cons] at hk
        omega
      simp only [TypeSystem.followForward, declared]
      cases hm' : ts.types.lookup m' with
      | some u =>
        cases rest with
        | found registered => exact hm'.symm.trans registered
        | follow unregistered _ _ => simp [hm'] at unregistered
      | none => exact ih rest hm' hlength

theorem length_chain {above : List String} (h : Ancestry (nextName ts) n above) :
    above.length ≤ ts.forwardDeclaredTypes.length := by
  rw [← List.length_map (f := Prod.snd)]
  refine h.length_le fun b hb => ?_
  refine h.forall_mem (P := fun b => b ∈ ts.forwardDeclaredTypes.map Prod.snd)
    (fun a b hab => ?_) b hb
  rw [nextName] at hab
  split at hab
  · cases hab
  · exact List.mem_map.mpr ⟨_, mem_of_lookup hab, rfl⟩

theorem lookup_of_followForward {k : ℕ} {t : SootType}
    (hn : ts.types.lookup n = none) (h : ts.followForward k n = some t) :
    PartialLookup ts n (some t) := by
  induction k generalizing n with
  | zero => cases h
  | succ k ih =>
    rw [TypeSystem.followForward] at h
    split at h
    · cases h
    · next m hm =>
      split at h
      · next u hu =>
        obtain rfl := Option.some.inj h
        exact .follow hn hm (.found hu)
      · next hnone => exact .follow hn hm (ih hnone h)

theorem lookupTypeAllowPartialDef_iff {t : SootType} :
    ts.lookupTypeAllowPartialDef n = some t ↔ PartialLookup ts n (some t) := by
  rw [TypeSystem.lookupTypeAllowPartialDef]
  cases hn : ts.types.lookup n with
  | some u =>
    dsimp only
    constructor
    · intro h
      exact .found (by rw [hn, h])
    · intro h
      cases h with
      | found registered => rw [← hn, registered]
      | follow unregistered _ _ => simp [hn] at unregistered
  | none =>
    refine ⟨lookup_of_followForward hn, fun h => ?_⟩
    obtain ⟨above, habove⟩ := ancestry_of_lookup h
    exact followForward_of_lookup habove h hn (Nat.le_succ_of_le (length_chain habove))

/-! ## Definitions -/

/-- Nothing new is declared; what was defined stays defined, and what was declared stays declared
or is defined. -/
structure Settles (ts us : TypeSystem) : Prop where
  registered : ∀ n, (ts.types.lookup n).isSome → (us.types.lookup n).isSome
  kept : ∀ n m, ts.forwardDeclaredTypes.lookup n = some m →
    us.forwardDeclaredTypes.lookup n = some m ∨ (us.types.lookup n).isSome
  old : ∀ n m, us.forwardDeclaredTypes.lookup n = some m →
    ts.forwardDeclaredTypes.lookup n = some m

theorem Settles.refl (ts : TypeSystem) : Settles ts ts :=
  ⟨fun _ h => h, fun _ _ h => .inl h, fun _ _ h => h⟩

theorem chainsEnd_settle (h : ChainsEnd ts) (hs : Settles ts us) : ChainsEnd us := by
  rw [chainsEnd_iff] at h ⊢
  intro n hn
  obtain ⟨m, hm⟩ := Option.isSome_iff_exists.mp hn
  exact (h n (by simp [hs.old n m hm])).mono hs.registered hs.kept

theorem lookup_eraseForward (ts : TypeSystem) (name n : String) :
    (ts.eraseForward name).forwardDeclaredTypes.lookup n =
      if n = name then none else ts.forwardDeclaredTypes.lookup n := by
  unfold TypeSystem.eraseForward
  generalize ts.forwardDeclaredTypes = declared
  induction declared with
  | nil => simp
  | cons e rest ih =>
    obtain ⟨key, parent⟩ := e
    by_cases hkey : key = name
    · by_cases hn : n = name
      · simpa [hkey, hn] using ih
      · simpa [hkey, hn, lookup_cons_eq] using ih
    · by_cases hn : n = key
      · simp [hkey, hn]
      · simpa [hkey, hn, lookup_cons_eq] using ih

theorem settles_register (ts : TypeSystem) (name : String) (t : SootType) :
    Settles ts { ts with types := (name, t) :: ts.types } where
  registered := by
    intro n h
    rw [lookup_cons_eq]
    split
    · rfl
    · exact h
  kept := fun _ _ h => .inl h
  old := fun _ _ h => h

theorem settles_registered (ts : TypeSystem) (name : String) (t : SootType) :
    Settles ts (TypeSystem.eraseForward { ts with types := (name, t) :: ts.types } name) where
  registered := (settles_register ts name t).registered
  kept := by
    intro n m h
    rw [lookup_eraseForward, types_eraseForward, lookup_cons_eq]
    by_cases hn : n = name
    · simp [hn]
    · simp [hn, h]
  old := by
    intro n m h
    rw [lookup_eraseForward] at h
    split at h
    · cases h
    · exact h

theorem isSome_lookup_replace {α : Type} (entries : List (String × α)) (name n : String) (a : α) :
    ((entries.map fun (key, b) => if key = name then (key, a) else (key, b)).lookup n).isSome =
      (entries.lookup n).isSome := by
  induction entries with
  | nil => rfl
  | cons e rest ih =>
    obtain ⟨key, b⟩ := e
    by_cases hn : n = key
    · by_cases hkey : key = name
      · simp [hn, hkey]
      · simp [hn, hkey]
    · by_cases hkey : key = name
      · simpa [hkey, lookup_cons_eq, hkey ▸ hn] using ih
      · simpa [hkey, lookup_cons_eq, hn] using ih

theorem settles_redefineType (ts : TypeSystem) (name : String) (t : SootType) :
    Settles ts ((redefineType name t).runFrom ts).2 where
  registered := by
    intro n h
    rw [redefineType, runFrom_modify, isSome_lookup_replace]
    exact h
  kept := fun _ _ h => .inl h
  old := fun _ _ h => h

theorem settles_enterTypeAs (ts : TypeSystem) (name : String) (t : SootType) :
    Settles ts ((enterTypeAs name t).runFrom ts).2 := by
  unfold enterTypeAs
  simp only [runFrom_bind, runFrom_get, runFrom_set]
  cases ts.forwardDeclaredTypes.lookup name with
  | none => exact settles_registered ts name t
  | some declared =>
    dsimp only
    cases requireThat _ with
    | error e => exact settles_register ts name t
    | ok _ => exact settles_registered ts name t

theorem settles_onTypes {α : Type} {x : TypeM α} (h : ∀ ts, Settles ts (x.runFrom ts).2)
    (s : DeclarationTable) : Settles s.toTypeSystem ((onTypes x).runFrom s).2.toTypeSystem :=
  h s.toTypeSystem

theorem settles_addTypeAs (s : DeclarationTable) (name : String) (t : SootType) :
    Settles s.toTypeSystem ((addTypeAs same name t).runFrom s).2.toTypeSystem := by
  unfold addTypeAs
  simp only [runFrom_bind, runFrom_get, runFrom_ofExcept]
  cases checkMethodCount s name t with
  | error e => exact .refl _
  | ok _ =>
  cases s.types.lookup name with
  | some old =>
    dsimp only
    split
    · exact .refl _
    · split
      · exact .refl _
      · split
        · exact settles_onTypes (fun ts => settles_redefineType ts name t) s
        · exact .refl _
  | none =>
    simp only [runFrom_bind, runFrom_ofExcept]
    cases checkNewType s.toTypeSystem name t with
    | error e => exact .refl _
    | ok _ => exact settles_onTypes (fun ts => settles_enterTypeAs ts name t) s

theorem types_declareMethodCount (disagree : ℤ → ℤ → Bool) (s : DeclarationTable) (name : String)
    (numMethods : ℤ) :
    ((declareMethodCount disagree name numMethods).runFrom s).2.toTypeSystem =
      s.toTypeSystem := by
  unfold declareMethodCount
  simp only [runFrom_bind, runFrom_get, runFrom_ofExcept]
  cases checkDeclaredCount disagree s name numMethods with
  | error e => rfl
  | ok _ => rfl

/-! ## Declarations -/

/-- A name of which nothing is known is declared as the child of another. -/
def declaredAs (ts : TypeSystem) (name parent : String) : TypeSystem :=
  { ts with forwardDeclaredTypes := (name, parent) :: ts.forwardDeclaredTypes }

theorem not_knownName_iff : ¬ KnownName ts n ↔
    ts.types.lookup n = none ∧ ts.forwardDeclaredTypes.lookup n = none := by
  rw [KnownName, not_or, Option.not_isSome_iff_eq_none, Option.not_isSome_iff_eq_none]

theorem after_forwardDeclareTypeAs (ts : TypeSystem) (name parent : String) :
    ((forwardDeclareTypeAs name parent).runFrom ts).2 = ts ∧ KnownName ts name ∨
      ((forwardDeclareTypeAs name parent).runFrom ts).2 = declaredAs ts name parent ∧
        ¬ KnownName ts name := by
  unfold forwardDeclareTypeAs
  simp only [runFrom_bind, runFrom_get]
  split
  · next hreg => exact .inl ⟨by rw [runFrom_ofExcept], .inl hreg⟩
  · next hreg =>
    split
    · next hdecl => exact .inl ⟨by rw [runFrom_ofExcept], .inr (by rw [hdecl]; rfl)⟩
    · next hdecl =>
      refine .inr ⟨rfl, not_knownName_iff.mpr ⟨?_, hdecl⟩⟩
      exact Option.not_isSome_iff_eq_none.mp hreg

theorem after_forwardDeclareTypeAsType (ts : TypeSystem) (name : String) :
    ((forwardDeclareTypeAsType name).runFrom ts).2 = ts ∧ KnownName ts name ∨
      ((forwardDeclareTypeAsType name).runFrom ts).2 = declaredAs ts name "object" ∧
        ¬ KnownName ts name := by
  unfold forwardDeclareTypeAsType
  simp only [runFrom_bind, runFrom_get]
  split
  · next hreg => exact .inl ⟨rfl, .inl hreg⟩
  · next hreg =>
    split
    · next hdecl => exact .inl ⟨rfl, .inr (by rw [hdecl]; rfl)⟩
    · next hdecl =>
      refine .inr ⟨rfl, not_knownName_iff.mpr ⟨?_, hdecl⟩⟩
      exact Option.not_isSome_iff_eq_none.mp hreg

theorem declaration_cases {s : DeclarationTable} {d : Declaration} {name parent : String}
    (hd : d.declares = some (name, parent))
    (h : us = s.toTypeSystem ∧ KnownName s.toTypeSystem name ∨
      us = declaredAs s.toTypeSystem name parent ∧ ¬ KnownName s.toTypeSystem name) :
    (∃ name parent, d.declares = some (name, parent) ∧ ¬ KnownName s.toTypeSystem name ∧
      us = declaredAs s.toTypeSystem name parent) ∨
    Settles s.toTypeSystem us ∧
      ∀ name parent, d.declares = some (name, parent) → KnownName s.toTypeSystem name := by
  rcases h with ⟨rfl, hknown⟩ | ⟨hnew, hunknown⟩
  · refine .inr ⟨.refl _, fun name' parent' hd' => ?_⟩
    obtain ⟨rfl, rfl⟩ := Prod.mk.inj (Option.some.inj (hd.symm.trans hd'))
    exact hknown
  · exact .inl ⟨name, parent, hd, hunknown, hnew⟩

theorem after_declaration (same : SootType → SootType → Bool) (s : DeclarationTable)
    (d : Declaration) :
    (∃ name parent, d.declares = some (name, parent) ∧ ¬ KnownName s.toTypeSystem name ∧
      (d.after same s).toTypeSystem = declaredAs s.toTypeSystem name parent) ∨
    Settles s.toTypeSystem (d.after same s).toTypeSystem ∧
      ∀ name parent, d.declares = some (name, parent) → KnownName s.toTypeSystem name := by
  cases d with
  | forwardDeclareTypeAs newType parentType =>
    exact declaration_cases rfl (after_forwardDeclareTypeAs _ newType parentType)
  | forwardDeclareTypeAsType name =>
    exact declaration_cases rfl (after_forwardDeclareTypeAsType _ name)
  | forwardDeclareTypeMethodCount name numMethods =>
    refine .inr ⟨?_, fun _ _ hd => by cases hd⟩
    rw [Declaration.after, Declaration.perform, forwardDeclareTypeMethodCount,
      types_declareMethodCount]
    exact .refl _
  | forwardDeclareTypeMethodCountMultipleOf4 name numMethods =>
    refine .inr ⟨?_, fun _ _ hd => by cases hd⟩
    rw [Declaration.after, Declaration.perform, forwardDeclareTypeMethodCountMultipleOf4,
      types_declareMethodCount]
    exact .refl _
  | addType name t => exact .inr ⟨settles_addTypeAs s name t, fun _ _ hd => by cases hd⟩

theorem chainsEnd_declaredAs (h : ChainsEnd ts) {name parent : String}
    (hnew : ¬ KnownName ts name) :
    ChainsEnd (declaredAs ts name parent) ↔ KnownName ts parent := by
  have hlookup : ∀ n, (declaredAs ts name parent).forwardDeclaredTypes.lookup n =
      if n = name then some parent else ts.forwardDeclaredTypes.lookup n :=
    fun n => lookup_cons_eq n name parent ts.forwardDeclaredTypes
  have hname := not_knownName_iff.mp hnew
  rw [chainsEnd_iff] at h ⊢
  constructor
  · -- a parent of which nothing is known is not where a name leads, and neither is the new name
    intro hends
    by_contra hunknown
    have hparent := not_knownName_iff.mp hunknown
    have havoid : ∀ n, Leads (declaredAs ts name parent) n → n ≠ name ∧ n ≠ parent := by
      intro n hn
      induction hn with
      | @registered n hreg =>
        have hold : (ts.types.lookup n).isSome := hreg
        refine ⟨?_, ?_⟩
        · rintro rfl
          rw [hname.1] at hold
          cases hold
        · rintro rfl
          rw [hparent.1] at hold
          cases hold
      | @declared n m hdecl _ ih =>
        rw [hlookup] at hdecl
        refine ⟨?_, ?_⟩
        · rintro rfl
          rw [if_pos rfl] at hdecl
          exact ih.2 (Option.some.inj hdecl).symm
        · rintro rfl
          split at hdecl
          · exact ih.2 (Option.some.inj hdecl).symm
          · rw [hparent.2] at hdecl
            cases hdecl
    exact (havoid name (hends name (by simp [hlookup]))).1 rfl
  · intro hparent
    have hkept : ∀ n m, ts.forwardDeclaredTypes.lookup n = some m →
        (declaredAs ts name parent).forwardDeclaredTypes.lookup n = some m ∨
          ((declaredAs ts name parent).types.lookup n).isSome := by
      intro n m hm
      rw [hlookup, if_neg]
      · exact .inl hm
      · rintro rfl
        rw [hname.2] at hm
        cases hm
    have hreg : ∀ n, (ts.types.lookup n).isSome →
        ((declaredAs ts name parent).types.lookup n).isSome := fun _ h => h
    have hmono : ∀ n, Leads ts n → Leads (declaredAs ts name parent) n :=
      fun n hn => hn.mono hreg hkept
    intro n hn
    rw [hlookup] at hn
    split at hn
    · next heq =>
      subst heq
      refine .declared (by rw [hlookup, if_pos rfl]) (hmono parent ?_)
      rcases hparent with hreg | hdecl
      · exact .registered hreg
      · exact h parent hdecl
    · exact hmono n (h n hn)

/-! ## Runs -/

theorem chainsEnd_after_iff {s : DeclarationTable} (h : ChainsEnd s.toTypeSystem)
    (d : Declaration) :
    ChainsEnd (d.after same s).toTypeSystem ↔ Grounded s.toTypeSystem d := by
  rcases after_declaration same s d with ⟨name, parent, hdeclares, hnew, hafter⟩ | ⟨hs,
    hold⟩
  · rw [hafter, chainsEnd_declaredAs h hnew]
    refine ⟨fun hknown => ?_, fun hgrounded => hgrounded name parent hdeclares hnew⟩
    intro name' parent' hdeclares' _
    obtain ⟨rfl, rfl⟩ := Prod.mk.inj (Option.some.inj (hdeclares.symm.trans hdeclares'))
    exact hknown
  · refine ⟨fun _ name parent hdeclares hnew => absurd (hold name parent hdeclares) hnew, ?_⟩
    exact fun _ => chainsEnd_settle h hs

theorem chainsEnd_newTable (allow : Bool) (redefinable : List String) :
    ChainsEnd (newTable allow redefinable).toTypeSystem := by
  rw [chainsEnd_iff]
  intro n hn
  simp [newTable] at hn

/-- INTERNAL: In a run from a new type system every lookup ends and every declared name leads to a
defined type, at each moment, exactly if every call that declares a new name gives it a parent that
is declared or defined by then. SRCLINE: TypeSystem.cpp:88-268 -/
theorem chainsEnd_run_iff (same : SootType → SootType → Bool) (allow : Bool)
    (redefinable : List String) (ds : List Declaration) :
    (∀ before after, ds = before ++ after →
      ChainsEnd (tableAfter same before (newTable allow redefinable)).toTypeSystem) ↔
    ∀ before d after, ds = before ++ d :: after →
      Grounded (tableAfter same before (newTable allow redefinable)).toTypeSystem d := by
  have hstep : ∀ before d, tableAfter same (before ++ [d]) (newTable allow redefinable) =
      d.after same (tableAfter same before (newTable allow redefinable)) := by
    intro before d
    rw [tableAfter, List.foldl_concat]
    rfl
  constructor
  · intro hends before d after hds
    have hbefore := hends before (d :: after) hds
    have hafter := hends (before ++ [d]) after (by simp [hds])
    rw [hstep] at hafter
    exact (chainsEnd_after_iff hbefore d).mp hafter
  · intro hgrounded before
    induction before using List.reverseRecOn with
    | nil => exact fun _ _ => chainsEnd_newTable allow redefinable
    | append_singleton before d ih =>
      intro after hds
      have hsplit : ds = before ++ d :: after := by simpa using hds
      rw [hstep, chainsEnd_after_iff (ih (d :: after) hsplit)]
      exact hgrounded before d after hsplit

theorem not_lookup_of_cycle {a b : String} (ha : ts.types.lookup a = none)
    (hb : ts.types.lookup b = none) (hab : ts.forwardDeclaredTypes.lookup a = some b)
    (hba : ts.forwardDeclaredTypes.lookup b = some a) {outcome : Option SootType}
    (h : PartialLookup ts n outcome) : n ≠ a ∧ n ≠ b := by
  induction h with
  | found registered =>
    refine ⟨?_, ?_⟩
    · rintro rfl
      simp [ha] at registered
    · rintro rfl
      simp [hb] at registered
  | unknown _ undeclared =>
    refine ⟨?_, ?_⟩
    · rintro rfl
      simp [hab] at undeclared
    · rintro rfl
      simp [hba] at undeclared
  | follow _ declared _ ih =>
    refine ⟨?_, ?_⟩
    · rintro rfl
      exact ih.2 (Option.some.inj (declared.symm.trans hab))
    · rintro rfl
      exact ih.1 (Option.some.inj (declared.symm.trans hba))

/-- Two names may be declared as children of each other, and then no lookup of either ends. -/
theorem not_chainsEnd_run : ¬ ∀ same allow redefinable ds,
    AllAccepted same ds (newTable allow redefinable) →
    ChainsEnd (tableAfter same ds (newTable allow redefinable)).toTypeSystem := by
  intro h
  have hends := h (fun _ _ => false) false []
    [.forwardDeclareTypeAs "a" "b", .forwardDeclareTypeAs "b" "a"] ⟨rfl, rfl, trivial⟩
  obtain ⟨outcome, hlookup⟩ := hends.terminates "a"
  exact (not_lookup_of_cycle (a := "a") (b := "b") rfl rfl rfl rfl hlookup).1 rfl

end Soot.Analysis
