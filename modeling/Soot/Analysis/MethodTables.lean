import Soot.Analysis.Hierarchies
import Soot.Analysis.MethodLines

/-!
# Method tables stay in order

The searches of the type system are searches along lines. Every orderly operation keeps the
methods of every type in order below the line above it, and from that the method tables of
every table of types an orderly run makes are in order.
-/

set_option autoImplicit false

namespace Soot.Analysis

open Soot.Computation Soot.Program Soot.Model StatefulExcept

variable {entry : MethodDefinition}

variable {ts us : TypeSystem} {t t' u : SootType} {above : List SootType} {name : String} {i : ℕ}

/-! ## Searches along lines -/

theorem parent_cases (hparent : ParentKnown ts t) (habove : Ancestry (parentType ts) t above) :
    (t.hasParent = false ∧ above = []) ∨ ∃ p rest, t.hasParent = true ∧
      ts.types.lookup t.parent = some p ∧ above = p :: rest ∧
      Ancestry (parentType ts) p rest := by
  cases hp : t.hasParent with
  | false =>
    left
    exact ⟨rfl, habove.unique (.root (by simp [parentType, hp]))⟩
  | true =>
    right
    obtain ⟨p, hlookup⟩ := Option.isSome_iff_exists.mp (hparent hp)
    have hstep : parentType ts t = some p := by simp [parentType, hp, hlookup]
    cases habove with
    | root hnone => simp [hstep] at hnone
    | @child _ q rest hsome htail =>
      rw [hstep] at hsome
      cases hsome
      exact ⟨_, rest, rfl, hlookup, rfl, htail⟩

theorem parentKnown_of_lookup (H : Hierarchy ts) {n : String}
    (h : ts.types.lookup n = some t) : ParentKnown ts t :=
  H.parents h

theorem findMethod_eq (H : Hierarchy ts) (own : SootType → Option MethodInfo) {k : ℕ}
    (hparent : ParentKnown ts t) (habove : Ancestry (parentType ts) t above)
    (hk : above.length < k) : ts.findMethod own k t = .ok ((t :: above).findSome? own) := by
  induction k generalizing t above with
  | zero => simp at hk
  | succ k ih =>
    rw [TypeSystem.findMethod, List.findSome?_cons]
    cases own t with
    | some m => rfl
    | none =>
      rcases parent_cases hparent habove with ⟨hp, rfl⟩ | ⟨p, rest, hp, hlookup, rfl, hrest⟩
      · simp [hp]
      · have htail := ih (parentKnown_of_lookup H hlookup) hrest (by simpa using hk)
        simp [hp, TypeSystem.lookupTypeNoThrow, hlookup, htail]

theorem nextMethodId_eq (H : Hierarchy ts) {k : ℕ} (hparent : ParentKnown ts t)
    (habove : Ancestry (parentType ts) t above) (hk : above.length < k) :
    ts.nextMethodId k t = .ok (nextIdOf (t :: above)) := by
  induction k generalizing t above with
  | zero => simp at hk
  | succ k ih =>
    rw [TypeSystem.nextMethodId, nextIdOf]
    cases t.getMyLastMethod with
    | some m => rfl
    | none =>
      rcases parent_cases hparent habove with ⟨hp, rfl⟩ | ⟨p, rest, hp, hlookup, rfl, hrest⟩
      · simp [hp, nextIdOf]
      · have htail := ih (parentKnown_of_lookup H hlookup) hrest (by simpa using hk)
        simp [hp, TypeSystem.lookupTypeNoThrow, hlookup, htail]

theorem tryLookupMethodFrom_eq (H : Hierarchy ts) (name : String) (hparent : ParentKnown ts t)
    (habove : Ancestry (parentType ts) t above) :
    ts.tryLookupMethodFrom t name = .ok (methodOf (t :: above) name) := by
  rw [TypeSystem.tryLookupMethodFrom,
    findMethod_eq H _ hparent habove (H.line_length habove)]
  rfl

theorem getNextMethodId_eq (H : Hierarchy ts) (hparent : ParentKnown ts t)
    (habove : Ancestry (parentType ts) t above) :
    ts.getNextMethodId t = .ok (nextIdOf (t :: above)) :=
  nextMethodId_eq H hparent habove (H.line_length habove)

theorem lookupMethod_iff (H : Hierarchy ts) {n : String} (ht : ts.types.lookup n = some t)
    (habove : Ancestry (parentType ts) t above) (name : String) (m : MethodInfo) :
    ts.lookupMethod n name = .ok m ↔ methodOf (t :: above) name = some m := by
  have hfound : ts.findMethod (TypeSystem.ownMethod name) (ts.types.length + 1) t =
      .ok (methodOf (t :: above) name) :=
    findMethod_eq H _ (parentKnown_of_lookup H ht) habove (H.line_length habove)
  rw [TypeSystem.lookupMethod, TypeSystem.lookupTypeNoThrow, ht]
  dsimp only
  rw [hfound]
  cases methodOf (t :: above) name with
  | none => simp
  | some m' => simp

theorem lookupMethodById_iff (H : Hierarchy ts) {n : String} (ht : ts.types.lookup n = some t)
    (habove : Ancestry (parentType ts) t above) (id : ℕ) (m : MethodInfo) :
    ts.lookupMethodById n id = .ok m ↔ methodOfId (t :: above) id = some m := by
  have hfound : ts.findMethod (TypeSystem.ownMethodById id) (ts.types.length + 1) t =
      .ok (methodOfId (t :: above) id) :=
    findMethod_eq H _ (parentKnown_of_lookup H ht) habove (H.line_length habove)
  rw [TypeSystem.lookupMethodById, TypeSystem.lookupTypeNoThrow, ht]
  dsimp only
  rw [hfound]
  cases methodOfId (t :: above) id with
  | none => simp
  | some m' => simp

/-! ## One entry -/

/-- Every registered type has its methods in order below the line above it. -/
def LinesNumbered (ts : TypeSystem) : Prop :=
  ∀ n t above, ts.types.lookup n = some t → Ancestry (parentType ts) t above →
    OwnMethods t above

theorem LinesNumbered.line (hts : LinesNumbered ts) (H : Hierarchy ts) {n : String}
    (ht : ts.types.lookup n = some t) (habove : Ancestry (parentType ts) t above) :
    WellNumbered (t :: above) := by
  induction habove generalizing n with
  | root hnone => exact ⟨hts n _ _ ht (.root hnone), trivial⟩
  | @child a b rest hsome htail ih =>
    have hb : ts.types.lookup b.name = some b :=
      H.line_registered (.child hsome htail) b List.mem_cons_self
    exact ⟨hts n _ _ ht (.child hsome htail), ih hb⟩

theorem documented_of_parent (H : Hierarchy ts) (hparent : ParentKnown ts t)
    (habove : Ancestry (parentType ts) t above) {name : String} {existing : MethodInfo}
    (hroot : t.hasParent = false → ts.types.lookup t.parent = some t)
    (h : ts.tryLookupMethod t.parent name = .ok (some existing))
    (hfresh : TypeSystem.ownMethod name t = none) :
    methodOf above name = some existing := by
  rcases parent_cases hparent habove with ⟨hp, rfl⟩ | ⟨p, rest, hp, hlookup, rfl, hrest⟩
  · rw [TypeSystem.tryLookupMethod, TypeSystem.lookupTypeNoThrow, hroot hp] at h
    dsimp only at h
    rw [findMethod_eq H _ hparent habove (H.line_length habove)] at h
    simp [hfresh] at h
  · rw [TypeSystem.tryLookupMethod, TypeSystem.lookupTypeNoThrow, hlookup] at h
    dsimp only at h
    rw [findMethod_eq H _ (parentKnown_of_lookup H hlookup) hrest (H.line_length hrest)] at h
    exact Except.ok.inj h

theorem ownMethods_change (H : Hierarchy ts)
    (hparent : ParentKnown ts t) (habove : Ancestry (parentType ts) t above)
    (hroot : t.hasParent = false → ts.types.lookup t.parent = some t)
    (hown : OwnMethods t above) (horderly : EntryOrderly t entry)
    (h : MethodChange ts t entry t') : OwnMethods t' above := by
  cases h with
  | unchanged => exact hown
  | declared hname hnone hid =>
    rw [tryLookupMethodFrom_eq H _ hparent habove, Except.ok.injEq] at hnone
    rw [getNextMethodId_eq H hparent habove, Except.ok.injEq] at hid
    exact ownMethods_declared hown rfl hname hnone hid.symm
  | @replaced name type noVirtual existing hname hfound =>
    rw [tryLookupMethodFrom_eq H _ hparent habove, Except.ok.injEq] at hfound
    simp only [EntryOrderly, hname, if_false] at horderly
    have hmem := horderly trivial
    rw [methodOf_cons, ownMethod_eq_none hname hmem, Option.none_or] at hfound
    exact ownMethods_overriding hown rfl hmem (fun h => absurd h hname)
      (by simp [idOf, hfound])
  | @documented name existing hfound =>
    have hmem : name ∉ t.methods.map (·.name) := by
      intro h
      exact horderly (by
        rw [records, List.map_append]
        exact List.mem_append_right _ h)
    have hnew : name = "new" → t.newMethod = none := by
      rintro rfl
      by_contra hne
      obtain ⟨m, hm⟩ := Option.ne_none_iff_exists'.mp hne
      have hname := (hown.constructed m hm).2.1
      exact horderly (hname ▸ List.mem_map_of_mem (by simp [records, hm]))
    have hfresh : TypeSystem.ownMethod name t = none := by
      by_cases hname : name = "new"
      · simp [TypeSystem.ownMethod, hname, hnew hname]
      · exact ownMethod_eq_none hname hmem
    have hup := documented_of_parent H hparent habove hroot hfound hfresh
    exact ownMethods_overriding hown rfl hmem hnew (by simp [idOf, hup])
  | overlaid => exact absurd horderly id
  | constructed hnone =>
    simp only [EntryOrderly, if_true] at horderly
    exact ownMethods_constructed hown horderly rfl rfl

/-! ## A type entered -/

theorem ancestry_of_identity (hname : t'.name = t.name) (hparent : t'.parent = t.parent)
    (h : Ancestry (parentType ts) t above) : Ancestry (parentType ts) t' above := by
  have hhas : t'.hasParent = t.hasParent := by
    unfold SootType.hasParent
    rw [hname, hparent]
  have hstep : parentType ts t' = parentType ts t := by
    rw [parentType, parentType, hhas, hparent]
  cases h with
  | root hnone => exact .root (hstep.trans hnone)
  | child hsome htail => exact .child (hstep.trans hsome) htail

theorem ownMethods_defineEntries (H : Hierarchy ts) {ms : List MethodDefinition}
    (hparent : ParentKnown ts t) (hhas : t.hasParent = true)
    (habove : Ancestry (parentType ts) t above) (hown : OwnMethods t above)
    (horderly : EntriesOrderly ts t ms) (h : ts.defineEntries t ms = .ok t') :
    OwnMethods t' above := by
  induction ms generalizing t with
  | nil =>
    cases h
    exact hown
  | cons m ms ih =>
    obtain ⟨u, hu, h⟩ := except_bind_eq_ok.mp h
    have hchange := methodChange_defineEntry hu
    obtain ⟨hname, hup⟩ := hchange.identity
    have hhas' : u.hasParent = true := by
      unfold SootType.hasParent at hhas ⊢
      rw [hname, hup]
      exact hhas
    have hparent' : ParentKnown ts u := by
      intro _
      rw [hup]
      exact hparent hhas
    have hown' := ownMethods_change H hparent habove (fun hno => by simp [hhas] at hno) hown
      horderly.1 hchange
    exact ih hparent' hhas' (ancestry_of_identity hname hup habove) hown' (horderly.2 u hu) h

theorem ownMethods_defines (H : Hierarchy ts) {name parent : String}
    {ms : List MethodDefinition} (hdefines : Defines ts name parent ms t)
    (horderly : ∀ us t, us.types = ts.types → t.name = name → t.parent = parent →
      t.methods = [] → t.newMethod = none → EntriesOrderly us t ms)
    (hreg : Registrable ts t) (habove : Ancestry (parentType ts) t above) :
    OwnMethods t above := by
  obtain ⟨hparent, hhas⟩ := hreg.parent H
  obtain ⟨hname, hup⟩ := hdefines.identity
  obtain ⟨us, t₀, t₁, htypes, hname₀, hup₀, hmethods, hnew, hentries, hfields⟩ := hdefines
  have habove₀ : Ancestry (parentType us) t₀ above := by
    rw [parentType_congr htypes]
    exact ancestry_of_identity (hname₀.trans hname.symm) (hup₀.trans hup.symm) habove
  have hhas₀ : t₀.hasParent = true := by
    unfold SootType.hasParent at hhas ⊢
    rw [hname₀, hup₀, ← hname, ← hup]
    exact hhas
  have hparent₀ : ParentKnown us t₀ := by
    intro _
    rw [htypes, hup₀, ← hup]
    exact hparent hhas
  have hown := ownMethods_defineEntries (H.of_types_eq htypes) hparent₀ hhas₀ habove₀
    (ownMethods_empty hmethods hnew) (horderly us t₀ htypes hname₀ hup₀ hmethods hnew) hentries
  obtain ⟨hnumbered, hfresh, hoverriding, hdistinct, hconstructed⟩ := hown
  have hnews : newMethods t = newMethods t₁ := by rw [newMethods, hfields.methods, newMethods]
  constructor
  · rw [hnews]
    exact hnumbered
  · rw [hnews]
    exact hfresh
  · rw [hfields.methods]
    exact hoverriding
  · rw [hfields.methods]
    exact hdistinct
  · rw [hfields.methods, hfields.newMethod]
    exact hconstructed

theorem LinesNumbered.of_types_eq (hts : LinesNumbered ts) (h : us.types = ts.types) :
    LinesNumbered us := by
  unfold LinesNumbered
  rw [h, parentType_congr h]
  exact hts

theorem LinesNumbered.of_register (hts : LinesNumbered ts) (H : Hierarchy ts)
    (hreg : Registrable ts t)
    (hown : ∀ above, Ancestry (parentType ts) t above → OwnMethods t above) :
    LinesNumbered (register ts t) := by
  intro n u above hu habove
  rw [lookup_register] at hu
  split at hu
  · cases hu
    obtain ⟨hparent, hhas⟩ := hreg.parent H
    obtain ⟨p, hp⟩ := Option.isSome_iff_exists.mp (hparent hhas)
    obtain ⟨rest, hrest⟩ := H.lines hp
    have hold : Ancestry (parentType ts) t (p :: rest) :=
      .child (by simp [parentType, hhas, hp]) hrest
    have hnew : Ancestry (parentType (register ts t)) t (p :: rest) :=
      .child (by simp [parentType, hhas, Hierarchy.lookup_register_of_lookup hreg.1 hp])
        (H.line_register hreg.1 hp hrest)
    rw [habove.unique hnew]
    exact hown _ hold
  · obtain ⟨above', habove'⟩ := H.lines hu
    rw [habove.unique (H.line_register hreg.1 hu habove')]
    exact hts n u above' hu habove'

/-! ## A type changed in place -/

/-- A method that is new to the type comes before any type below has methods of its own. -/
def Quiet (ts : TypeSystem) (t : SootType) (entry : MethodDefinition) : Prop :=
  ∀ name type noVirtual, entry = .declare name type noVirtual false → name ≠ "new" →
    ts.tryLookupMethodFrom t name = .ok none → NoneBelow ts t

theorem parent_of_root (H : Hierarchy ts) {n : String} (ht : ts.types.lookup n = some t)
    (hno : t.hasParent = false) : ts.types.lookup t.parent = some t := by
  obtain ⟨o, ho, hup⟩ := H.underObject "object" (Or.inl rfl)
  have hobject := H.root ht hno
  subst hobject
  rw [ht] at ho
  cases ho
  rw [hup, ht]

theorem ownMethods_below (H : Hierarchy ts) (hts : LinesNumbered ts) {n m : String}
    (ht : ts.types.lookup n = some t) {rest : List SootType}
    (hrest : Ancestry (parentType ts) t rest)
    (horderly : EntryOrderly t entry) (hquiet : Quiet ts t entry)
    (h : MethodChange ts t entry t') (hu : ts.types.lookup m = some u) {pre : List SootType}
    (habove : Ancestry (parentType ts) u (pre ++ t :: rest)) :
    OwnMethods u (pre ++ t' :: rest) := by
  have hparent := parentKnown_of_lookup H ht
  have hown := hts m u _ hu habove
  have hwell := hts.line H ht hrest
  cases h with
  | unchanged => exact hown
  | @declared name type noVirtual id hname hnone hid =>
    have hquiet' := hquiet name type noVirtual rfl hname hnone
    rw [tryLookupMethodFrom_eq H _ hparent hrest, Except.ok.injEq] at hnone
    exact OwnMethods_of_keeps hown (keeps_append pre (keeps_declared hnone))
      (hquiet' m u _ hu habove (by simp))
  | @replaced name type noVirtual existing hname hfound =>
    rw [tryLookupMethodFrom_eq H _ hparent hrest, Except.ok.injEq] at hfound
    simp only [EntryOrderly, hname, if_false] at horderly
    rw [methodOf_cons, ownMethod_eq_none hname (horderly trivial), Option.none_or] at hfound
    exact OwnMethods_of_grows hown
      (Grows_append pre (grows_overriding rfl (by simp [idOf, hfound])))
  | @documented name existing hfound =>
    have hchange := ownMethods_change H hparent hrest (parent_of_root H ht) hwell.1 horderly
      (.documented hfound)
    have hid := hchange.overriding ⟨existing.id, name, existing.type, t.name,
      existing.noVirtual, false, true⟩ (by simp) rfl
    exact OwnMethods_of_grows hown (Grows_append pre (grows_overriding rfl hid))
  | overlaid => exact absurd horderly id
  | constructed hnone =>
    exact OwnMethods_of_grows hown (Grows_append pre (grows_constructed hwell rfl))

theorem map_updated_of_not_mem (ht : ts.types.lookup t'.name = some t) {line : List SootType}
    (hline : ∀ v ∈ line, ts.types.lookup v.name = some v) (hmem : t ∉ line) :
    line.map (updated t') = line := by
  apply (List.map_congr_left fun v hv => ?_).trans (List.map_id line)
  unfold updated
  rw [if_neg]
  · rfl
  · intro hname
    have hv' := hline v hv
    rw [hname, ht] at hv'
    cases hv'
    exact hmem hv

theorem LinesNumbered.of_update (hts : LinesNumbered ts) (H : Hierarchy ts) {n : String}
    (ht : ts.types.lookup n = some t)
    (horderly : t' = t ∨ EntryOrderly t entry ∧ Quiet ts t entry)
    (h : MethodChange ts t entry t') : LinesNumbered (ts.update t') := by
  intro m u' above' hu' habove'
  obtain ⟨hname, hparent⟩ := h.identity
  have ht' : ts.types.lookup t'.name = some t := by rwa [hname, H.named ht]
  obtain ⟨u, hu, rfl⟩ := H.lookup_update_cases hu'
  obtain ⟨above, habove⟩ := H.lines hu
  have hline := H.line_registered habove
  rw [habove'.unique (H.line_update ht' hparent hu habove)]
  by_cases hut : u.name = t'.name
  · obtain rfl : u = t := by
      rw [← H.named hu, hut, ht'] at hu
      exact (Option.some.inj hu).symm
    rw [map_updated_of_not_mem ht' hline habove.not_mem, updated, if_pos hut]
    rcases horderly with rfl | ⟨horderly, -⟩
    · exact hts m _ above hu habove
    · exact ownMethods_change H (parentKnown_of_lookup H hu) habove (parent_of_root H hu)
        (hts m u above hu habove) horderly h
  · rw [updated, if_neg hut]
    by_cases hmem : t ∈ above
    · obtain ⟨rest, hrest, pre, rfl⟩ := habove.of_mem hmem
      have hnodup := (List.nodup_cons.mp habove.nodup).2
      rw [List.nodup_append] at hnodup
      have hpre : t ∉ pre := fun hin => hnodup.2.2 t hin t List.mem_cons_self rfl
      rw [List.map_append, List.map_cons,
        map_updated_of_not_mem ht' (fun v hv => hline v (List.mem_append_left _ hv)) hpre,
        map_updated_of_not_mem ht' (H.line_registered hrest) hrest.not_mem, updated,
        if_pos hname.symm]
      rcases horderly with rfl | ⟨horderly, hquiet⟩
      · exact hts m u _ hu habove
      · exact ownMethods_below H hts ht hrest horderly hquiet h hu habove
    · rw [map_updated_of_not_mem ht' hline hmem]
      exact hts m u above hu habove

/-! ## Runs -/

variable {same : SootType → SootType → Bool}

theorem LinesNumbered.of_enters {P : SootType → Prop} (hts : LinesNumbered ts) (H : Hierarchy ts)
    (h : EntersOnly ts us P)
    (hown : ∀ t above, P t → Registrable ts t → Ancestry (parentType ts) t above →
      OwnMethods t above) : LinesNumbered us := by
  rcases h with h | ⟨t, ht, hreg, h⟩
  · exact hts.of_types_eq h
  · exact (hts.of_register H hreg fun above => hown t above ht hreg).of_types_eq h

theorem LinesNumbered.of_onType (hts : LinesNumbered ts) (H : Hierarchy ts) (typeName : String)
    {f : TypeSystem → SootType → Except TypeFault SootType}
    (hf : ∀ t t', f ts t = .ok t' → MethodChange ts t entry t')
    (horderly : ∀ t t', ts.types.lookup typeName = some t → f ts t = .ok t' →
      t' = t ∨ EntryOrderly t entry ∧ Quiet ts t entry) :
    LinesNumbered (runFrom (onType typeName f) ts).2 := by
  rcases after_onType ts typeName f with h | ⟨t, t', ht, hft, h⟩
  · rw [h]
    exact hts
  · rw [h]
    exact hts.of_update H ht (horderly t t' ht hft) (hf t t' hft)

theorem defineMethodWith_unchanged {name : String} {type : TypeSpec} (hname : name ≠ "new")
    (h : ts.defineMethodWith t name type = .ok t') : t' = t := by
  unfold TypeSystem.defineMethodWith at h
  rw [if_neg hname] at h
  obtain ⟨found, -, h⟩ := except_bind_eq_ok.mp h
  split at h
  · cases h
  · split at h
    · cases h
      rfl
    · cases h

theorem LinesNumbered.after (hts : LinesNumbered ts) (H : Hierarchy ts) {op : TypeOperation}
    (horderly : Orderly ts op) : LinesNumbered (op.after same ts) := by
  cases op with
  | deftype d =>
    exact hts.of_enters H (entersOnly_deftype ts d) fun t above hdefines hreg habove =>
      ownMethods_defines H hdefines horderly hreg habove
  | defenum d =>
    exact hts.of_enters H (entersOnly_defenum ts d) fun t above ht _ _ =>
      ownMethods_empty ht.2.1 ht.2.2
  | forwardDeclareTypeAs newType parentType =>
    exact hts.of_types_eq (types_forwardDeclareTypeAs ts newType parentType)
  | forwardDeclareTypeAsType name =>
    exact hts.of_types_eq (types_forwardDeclareTypeAsType ts name)
  | declareMethod typeName name noVirtual type overrideType =>
    refine hts.of_onType H typeName (fun _ _ h => methodChange_declareMethod h) ?_
    intro t t' ht _
    obtain ⟨hentry, hquiet⟩ := horderly t ht
    refine Or.inr ⟨hentry, ?_⟩
    intro name' type' noVirtual' heq hne hnone
    cases heq
    exact hquiet hne rfl hnone
  | defineMethod typeName name type =>
    refine hts.of_onType H typeName (fun _ _ h => methodChange_defineMethodWith h) ?_
    intro t t' ht hf
    by_cases hname : name = "new"
    · refine Or.inr ⟨horderly t ht hname, ?_⟩
      intro name' type' noVirtual' heq hne
      cases heq
      exact absurd hname hne
    · exact Or.inl (defineMethodWith_unchanged hname hf)
  | overlayMethod typeName name overlayName type => exact absurd horderly id
  | overrideMethod typeName name =>
    refine hts.of_onType H typeName (fun _ _ h => methodChange_overrideMethod h) ?_
    intro t t' ht _
    refine Or.inr ⟨horderly t ht, ?_⟩
    intro name' type' noVirtual' heq
    cases heq

theorem numbered_builtinTypes : LinesNumbered builtinTypes := by
  have hall : (builtinTypes.types.all fun e => e.1 == "object" ||
      e.2.methods.isEmpty && e.2.newMethod.isNone) = true := by
    decide +kernel
  intro n t above ht habove
  have hmem := List.all_eq_true.mp hall _ (mem_of_lookup ht)
  simp only [Bool.or_eq_true, Bool.and_eq_true, beq_iff_eq, List.isEmpty_iff,
    Option.isNone_iff_eq_none] at hmem
  rcases hmem with rfl | ⟨hmethods, hnew⟩
  · have hobject : (builtinTypes.types.lookup "object").map (fun t =>
        (t.methods.map (·.id), t.methods.map isNewMethod, t.methods.map (·.name),
          t.newMethod.map fun m => (m.id, m.name))) =
        some ([1, 2, 3, 4, 5, 6, 7, 8], List.replicate 8 true,
          ["delete", "print", "inspect", "length", "asize-of", "copy", "relocate", "mem-usage"],
          some (0, "new")) := by
      decide +kernel
    have hroot : (builtinTypes.types.lookup "object").map SootType.hasParent = some false := by
      decide +kernel
    rw [ht, Option.map_some, Option.some.injEq] at hobject hroot
    simp only [Prod.mk.injEq] at hobject
    obtain ⟨hids, hkinds, hnames, hnew⟩ := hobject
    obtain rfl : above = [] := habove.unique (.root (by simp [parentType, hroot]))
    have hall : ∀ m ∈ t.methods, isNewMethod m = true := fun m hm =>
      List.eq_of_mem_replicate (hkinds ▸ List.mem_map_of_mem hm)
    have hnews : newMethods t = t.methods := List.filter_eq_self.mpr hall
    have hlength : t.methods.length = 8 := by simpa using congrArg List.length hids
    constructor
    · rw [hnews, hids, hlength]
      rfl
    · intro m hm
      rw [hnews] at hm
      refine ⟨rfl, ?_⟩
      have hmem := List.mem_map_of_mem (f := fun m : MethodInfo => m.name) hm
      rw [hnames] at hmem
      rintro hname
      rw [hname] at hmem
      simp at hmem
    · intro m hm hkind
      rw [hall m hm] at hkind
      cases hkind
    · rw [hnames]
      decide
    · intro m hm
      rw [hm, Option.map_some, Option.some.injEq, Prod.mk.injEq] at hnew
      refine ⟨hnew.1, hnew.2, ?_⟩
      rw [hnames]
      decide
  · exact ownMethods_empty hmethods hnew

/-! ## The tables are in order -/

theorem distinctIds_of_wellNumbered (h : WellNumbered (t :: above)) : DistinctIds t above := by
  obtain ⟨hown, habove⟩ := h
  have hall : WellNumbered (t :: above) := ⟨hown, habove⟩
  constructor
  · have hnames : ((records t).map (·.name)).Nodup := by
      rw [records, List.map_append]
      cases hnew : t.newMethod with
      | none => simpa using hown.distinct
      | some m =>
        obtain ⟨-, hname, hno⟩ := hown.constructed m hnew
        rw [Option.toList_some, List.map_singleton, hname, List.singleton_append]
        exact List.nodup_cons.mpr ⟨hno, hown.distinct⟩
    apply (List.nodup_map_iff_inj_on hnames.of_map).mpr
    intro m hm m' hm' heq
    apply List.inj_on_of_nodup_map hnames hm hm'
    have hid := idOf_record hall List.mem_cons_self hm
    have hid' := idOf_record hall List.mem_cons_self hm'
    rw [← heq] at hid'
    exact idOf_injective hall hid hid'
  · intro u hu m hm m' hm' heq
    have hid := idOf_record hall List.mem_cons_self hm
    have hid' := idOf_record hall (List.mem_cons_of_mem t hu) hm'
    have hup := idOf_record habove hu hm'
    rw [← heq] at hid'
    have hname := idOf_injective hall hid hid'
    refine ⟨hname, ?_⟩
    rcases List.mem_append.mp hm with hnew | hmem
    · rw [Option.mem_toList] at hnew
      exact Or.inr (hown.constructed m hnew).2.1
    · left
      by_contra hkind
      rw [Bool.not_eq_false] at hkind
      have hfresh := (hown.fresh m (mem_newMethods.mpr ⟨hmem, hkind⟩)).1
      rw [hname, hup] at hfresh
      cases hfresh

theorem idOf_inherited (hown : OwnMethods t above) (habove : WellNumbered above)
    (hid : idOf above name = some i) : idOf (t :: above) name = some i := by
  cases hfound : TypeSystem.ownMethod name t with
  | none => rw [idOf_cons_of_none hfound, hid]
  | some m =>
    obtain ⟨hmem, rfl⟩ := ownMethod_mem (fun m hm => (hown.constructed m hm).2.1) hfound
    rw [idOf_cons_of_some hfound]
    rcases List.mem_append.mp hmem with hnew | hmem
    · rw [Option.mem_toList] at hnew
      obtain ⟨hzero, hname, -⟩ := hown.constructed m hnew
      rw [hzero, (idOf_bounds habove hid).2.mpr hname]
    · cases hkind : isNewMethod m with
      | false => rw [← hown.overriding m hmem hkind, hid]
      | true =>
        rw [(hown.fresh m (mem_newMethods.mpr ⟨hmem, hkind⟩)).1] at hid
        cases hid

theorem methodTables_of_numbered (H : Hierarchy ts) (hts : LinesNumbered ts) : MethodTables ts := by
  have hregistered : ∀ {n name : String} {m : MethodInfo}, ts.lookupMethod n name = .ok m →
      ∃ t, ts.types.lookup n = some t := by
    intro n name m h
    unfold TypeSystem.lookupMethod TypeSystem.lookupTypeNoThrow at h
    split at h
    · cases h
    · exact ⟨_, ‹_›⟩
  have hregistered' : ∀ {n : String} {id : ℕ} {m : MethodInfo},
      ts.lookupMethodById n id = .ok m → ∃ t, ts.types.lookup n = some t := by
    intro n id m h
    unfold TypeSystem.lookupMethodById TypeSystem.lookupTypeNoThrow at h
    split at h
    · cases h
    · exact ⟨_, ‹_›⟩
  constructor
  · intro n t above ht habove
    exact distinctIds_of_wellNumbered (hts.line H ht habove)
  · intro n t ht
    obtain ⟨above, habove⟩ := H.lines ht
    refine ⟨nextIdOf above, (hts n t above ht habove).numbered, ?_⟩
    cases habove with
    | root hnone => simp [hnone, nextIdOf]
    | @child _ p rest hsome htail =>
      have hp := H.line_registered (.child hsome htail) p List.mem_cons_self
      rw [hsome]
      exact getNextMethodId_eq H (parentKnown_of_lookup H hp) htail
  · intro n t p ht hparent name m hm
    obtain ⟨above, habove⟩ := H.lines ht
    cases habove with
    | root hnone => simp [hnone] at hparent
    | @child _ q rest hsome htail =>
      rw [hparent] at hsome
      cases hsome
      have hp := H.line_registered (.child hparent htail) p List.mem_cons_self
      rw [lookupMethod_iff H hp htail] at hm
      have hid : idOf (p :: rest) name = some m.id := by simp [idOf, hm]
      have hchild := idOf_inherited (hts n t _ ht (.child hparent htail))
        (hts.line H hp htail) hid
      rw [idOf, Option.map_eq_some_iff] at hchild
      obtain ⟨m', hm', heq⟩ := hchild
      exact ⟨m', (lookupMethod_iff H ht (.child hparent htail) name m').mpr hm', heq⟩
  · intro n name m hm
    obtain ⟨t, ht⟩ := hregistered hm
    obtain ⟨above, habove⟩ := H.lines ht
    rw [lookupMethod_iff H ht habove] at hm
    have hid : idOf (t :: above) name = some m.id := by simp [idOf, hm]
    rw [lookupMethodById_iff H ht habove, methodOfId_eq (hts.line H ht habove) hid, hm]
  · intro n id m hm
    obtain ⟨t, ht⟩ := hregistered' hm
    obtain ⟨above, habove⟩ := H.lines ht
    have hwell := hts.line H ht habove
    rw [lookupMethodById_iff H ht habove] at hm
    rw [lookupMethod_iff H ht habove]
    have hmem : ∃ u ∈ t :: above, TypeSystem.ownMethodById id u = some m :=
      List.exists_of_findSome?_eq_some hm
    obtain ⟨u, hu, hfound⟩ := hmem
    have hown : ∀ {line : List SootType}, WellNumbered line → ∀ u ∈ line,
        ∃ above, OwnMethods u above := by
      intro line hline
      induction line with
      | nil => simp
      | cons v rest ih =>
        intro u hu
        rcases List.mem_cons.mp hu with rfl | hu
        · exact ⟨rest, hline.1⟩
        · exact ih hline.2 u hu
    obtain ⟨rest, hu'⟩ := hown hwell u hu
    obtain ⟨hrecord, rfl⟩ := ownMethodById_mem (fun m hm => (hu'.constructed m hm).1) hfound
    rw [← methodOfId_eq hwell (idOf_record hwell hu hrecord), hm]

theorem numbered_of_runOrderly {ops pre : List TypeOperation} (H : Hierarchy ts)
    (hts : LinesNumbered ts) (horderly : RunOrderly same ts ops) (hpre : pre <+: ops) :
    LinesNumbered (pre.foldl (fun ts op => op.after same ts) ts) := by
  induction pre generalizing ts ops with
  | nil => exact hts
  | cons op pre ih =>
    cases ops with
    | nil => simp at hpre
    | cons op' ops =>
      obtain ⟨rfl, htail⟩ := List.cons_prefix_cons.mp hpre
      have hnext : LinesNumbered (op.after same ts) := by
        rcases horderly.1 with hsame | hop
        · rwa [hsame]
        · exact hts.after H hop
      exact ih (H.after op) hnext horderly.2 htail

/-- **The method tables stay in order.** In every state an orderly run reaches, the numbers of
methods along every line of types are distinct but for overriding, contiguous and inherited,
and the lookups by name and by number agree. -/
theorem methodTables_typesAfter (same : SootType → SootType → Bool) (ops : List TypeOperation)
    (horderly : RunOrderly same builtinTypes ops) :
    ∀ pre, pre <+: ops → MethodTables (typesAfter same pre) := fun pre hpre =>
  methodTables_of_numbered (hierarchy_typesAfter same pre)
    (numbered_of_runOrderly hierarchy_builtinTypes numbered_builtinTypes horderly hpre)

/-- A basic without fields and methods. -/
def plainBasic (name parent : String) (h : name ≠ "") : Deftype :=
  ⟨name, h, parent, [], [], [], ⟨none, none, none, none, false, false, false, false⟩⟩

/-- A basic, its method, a child of it, and new documentation for the method of the child. -/
def parentFirst : List TypeOperation :=
  [.deftype (plainBasic "vehicle" "basic" (by decide)),
    .declareMethod "vehicle" "drive" false (.function [.ofName "none"]) false,
    .deftype (plainBasic "car" "vehicle" (by decide)), .overrideMethod "car" "drive"]

theorem methodTables_parentFirst :
    RunOrderly (fun _ _ => true) builtinTypes parentFirst ∧
      MethodTables (typesAfter (fun _ _ => true) parentFirst) := by
  have hdeclare : ∀ ts : TypeSystem, (ts.types.all fun e =>
      !e.2.hasParent || (newMethods e.2).isEmpty) = true →
      Orderly ts (.declareMethod "vehicle" "drive" false (.function [.ofName "none"]) false) := by
    intro ts hall t ht
    refine ⟨by simp [EntryOrderly], fun _ _ _ n u above hu habove hmem => ?_⟩
    have hquiet := List.all_eq_true.mp hall _ (mem_of_lookup hu)
    simp only [Bool.or_eq_true, Bool.not_eq_true', List.isEmpty_iff] at hquiet
    rcases hquiet with hroot | hnone
    · rw [habove.unique (.root (by simp [parentType, hroot]))] at hmem
      cases hmem
    · exact hnone
  have hoverride : ∀ ts : TypeSystem, (ts.types.lookup "car").map
      (fun t => (records t).map (·.name)) = some [] →
      Orderly ts (.overrideMethod "car" "drive") := by
    intro ts hcar t ht
    rw [ht, Option.map_some, Option.some.injEq] at hcar
    simp [EntryOrderly, hcar]
  have horderly : RunOrderly (fun _ _ => true) builtinTypes parentFirst := by
    simp only [parentFirst, RunOrderly, and_true]
    refine ⟨Or.inr fun _ _ _ _ _ _ _ => trivial, Or.inr (hdeclare _ ?_),
      Or.inr fun _ _ _ _ _ _ _ => trivial, Or.inr (hoverride _ ?_)⟩
    · decide +kernel
    · decide +kernel
  exact ⟨horderly, methodTables_typesAfter _ _ horderly _ (List.prefix_refl _)⟩

/-- A child of a basic gets a method before its parent does. -/
def childFirst : List TypeOperation :=
  [.deftype (plainBasic "vehicle" "basic" (by decide)),
    .deftype (plainBasic "car" "vehicle" (by decide)),
    .declareMethod "car" "honk" false (.function [.ofName "none"]) false,
    .declareMethod "vehicle" "drive" false (.function [.ofName "none"]) false]

/-- Two methods of the child then have one number: the lookup by number finds the wrong one. -/
theorem not_methodTables_childFirst :
    ¬ MethodTables (typesAfter (fun _ _ => true) childFirst) := by
  intro h
  have hdrive : ((typesAfter (fun _ _ => true) childFirst).lookupMethod "car" "drive").toOption.map
      (fun m => (m.id, m.name)) = some (9, "drive") := by
    decide +kernel
  have hnine : ((typesAfter (fun _ _ => true) childFirst).lookupMethodById "car" 9).toOption.map
      (·.name) = some "honk" := by
    decide +kernel
  rw [Option.map_eq_some_iff] at hdrive
  obtain ⟨m, hm, hid⟩ := hdrive
  rw [Prod.mk.injEq] at hid
  have hlookup : (typesAfter (fun _ _ => true) childFirst).lookupMethod "car" "drive" = .ok m := by
    revert hm
    cases (typesAfter (fun _ _ => true) childFirst).lookupMethod "car" "drive" <;>
      simp [Except.toOption]
  have hsame := h.byName _ _ _ hlookup
  rw [hid.1] at hsame
  rw [hsame] at hnine
  simp [Except.toOption, hid.2] at hnine

end Soot.Analysis
