import Soot.Analysis.ScriptLayout

/-!
# Linking the bodies of state scripts

The functions of a file's bodies and the pointers of its state scripts meet only through
joined names. A pointer is that of its own body exactly when the name is clear
(`slotLinked_iff`), so a file is linked exactly when its names are unambiguous
(`handlersLinked_iff`).
-/

set_option autoImplicit false

namespace Soot.Analysis

open Soot.Program Soot.Model

variable {defs : List StateDef} {src : BodySource} {r : BodyRequest}

/-! ## The functions of a file -/

theorem mapM_ok {α β ε : Type} {f : α → Except ε β} {xs : List α} {ys : List β}
    (h : xs.mapM f = .ok ys) :
    (∀ y ∈ ys, ∃ x ∈ xs, f x = .ok y) ∧ ∀ x ∈ xs, ∃ y ∈ ys, f x = .ok y := by
  induction xs generalizing ys with
  | nil =>
    simp only [List.mapM_nil, pure, Except.pure, Except.ok.injEq] at h
    subst h
    simp
  | cons x xs ih =>
    simp only [List.mapM_cons, bind, Except.bind] at h
    cases hx : f x with
    | error e => simp [hx] at h
    | ok y =>
      rw [hx] at h
      cases hxs : xs.mapM f with
      | error e => simp [hxs] at h
      | ok rest =>
        simp only [hxs, pure, Except.pure, Except.ok.injEq] at h
        subst h
        obtain ⟨hto, hfrom⟩ := ih hxs
        constructor
        · intro y' hy'
          rcases List.mem_cons.mp hy' with rfl | hy'
          · exact ⟨x, by simp, hx⟩
          · obtain ⟨x', hx', hfx⟩ := hto y' hy'
            exact ⟨x', by simp [hx'], hfx⟩
        · intro x' hx'
          rcases List.mem_cons.mp hx' with rfl | hx'
          · exact ⟨y, by simp, hx⟩
          · obtain ⟨y', hy', hfx⟩ := hfrom x' hx'
            exact ⟨y', by simp [hy'], hfx⟩

section Bodies

variable {typeName : String} {def_ : StateDef} {k : ℕ}

theorem mem_handlerBodies :
    r ∈ handlerBodies typeName def_ k ↔ ∃ i h, def_.handlers[i]? = some h ∧
      h.bodyAst.isNull = false ∧ r = ⟨handlerName handlerKindName typeName def_.name h,
        ⟨typeName, k, .handler i⟩, ensureLambda h.bodyAst⟩ := by
  simp only [handlerBodies, List.mem_flatMap, Prod.exists, List.mem_zipIdx_iff_getElem?]
  constructor
  · rintro ⟨h, i, hi, hr⟩
    cases hnull : h.bodyAst.isNull with
    | true => simp [hnull] at hr
    | false => exact ⟨i, h, hi, hnull, by simpa [hnull] using hr⟩
  · rintro ⟨i, h, hi, hnull, rfl⟩
    exact ⟨h, i, hi, by simp [hnull]⟩

theorem mem_trackBodies :
    r ∈ trackBodies typeName def_ k ↔ ∃ t tr, def_.tracks[t]? = some tr ∧
      ((tr.body.isEmpty = false ∧ r = ⟨trackMainName typeName def_.name tr,
        ⟨typeName, k, .trackMain t⟩, lambdaFromForms tr.body⟩) ∨
      ∃ i ft, tr.frames[i]? = some ft ∧ r = ⟨trackFrameName typeName def_.name tr i,
        ⟨typeName, k, .trackFrame t i⟩, lambdaFromForms ft.body⟩) := by
  simp only [trackBodies, List.mem_flatMap, Prod.exists, List.mem_zipIdx_iff_getElem?,
    List.mem_append, List.mem_map]
  constructor
  · rintro ⟨tr, t, ht, hr | ⟨ft, i, hi, rfl⟩⟩
    · cases hbody : tr.body.isEmpty with
      | true => simp [hbody] at hr
      | false => exact ⟨t, tr, ht, .inl ⟨hbody, by simpa [hbody] using hr⟩⟩
    · exact ⟨t, tr, ht, .inr ⟨i, ft, hi, rfl⟩⟩
  · rintro ⟨t, tr, ht, ⟨hbody, rfl⟩ | ⟨i, ft, hi, rfl⟩⟩
    · exact ⟨tr, t, ht, .inl (by simp [hbody])⟩
    · exact ⟨tr, t, ht, .inr ⟨ft, i, hi, rfl⟩⟩

theorem mem_scriptBodies :
    r ∈ scriptBodies typeName defs ↔ ∃ k def_, defs[k]? = some def_ ∧
      (r ∈ handlerBodies typeName def_ k ∨ r ∈ trackBodies typeName def_ k) := by
  simp only [scriptBodies, List.mem_flatMap, Prod.exists, List.mem_zipIdx_iff_getElem?,
    List.mem_append]
  exact exists_comm

theorem slotIn_handler {i : ℕ} {slot : ScriptSlot} :
    slotIn typeName def_ (.handler i) = some slot ↔ ∃ h, def_.handlers[i]? = some h ∧
      ⟨handlerName handlerKindName typeName def_.name h,
        handlerName stateHandlerToString typeName def_.name h, !h.bodyAst.isNull⟩ = slot :=
  Option.map_eq_some_iff

theorem slotIn_trackMain {t : ℕ} {slot : ScriptSlot} :
    slotIn typeName def_ (.trackMain t) = some slot ↔ ∃ tr, def_.tracks[t]? = some tr ∧
      tr.body.isEmpty = false ∧ ⟨trackMainName typeName def_.name tr,
        trackMainName typeName def_.name tr, true⟩ = slot := by
  simp only [slotIn, Option.map_eq_some_iff, Option.filter_eq_some_iff, Bool.not_eq_true',
    and_assoc]

theorem slotIn_trackFrame {t i : ℕ} {slot : ScriptSlot} :
    slotIn typeName def_ (.trackFrame t i) = some slot ↔ ∃ tr, def_.tracks[t]? = some tr ∧
      i < tr.frames.length ∧ ⟨trackFrameName typeName def_.name tr i,
        trackFrameName typeName def_.name tr i, true⟩ = slot := by
  simp only [slotIn, Option.map_eq_some_iff, Option.filter_eq_some_iff, decide_eq_true_eq,
    and_assoc]

theorem slotAt_of_mem_scriptBodies
    (h : r ∈ scriptBodies typeName defs) : r.source.typeName = typeName ∧
      ∃ slot, slotAt defs r.source = some slot ∧ slot.hasBody ∧ slot.compiledName = r.name := by
  obtain ⟨k, def_, hk, hr⟩ := mem_scriptBodies.mp h
  have hat : ∀ place slot, slotIn typeName def_ place = some slot →
      slotAt defs ⟨typeName, k, place⟩ = some slot := by
    intro place slot hslot
    simpa [slotAt, hk] using hslot
  rcases hr with hr | hr
  · obtain ⟨i, b, hi, hnull, rfl⟩ := mem_handlerBodies.mp hr
    exact ⟨rfl, _, hat _ _ (slotIn_handler.mpr ⟨b, hi, rfl⟩), by simp [hnull], rfl⟩
  · obtain ⟨t, tr, ht, ⟨hbody, rfl⟩ | ⟨i, ft, hi, rfl⟩⟩ := mem_trackBodies.mp hr
    · exact ⟨rfl, _, hat _ _ (slotIn_trackMain.mpr ⟨tr, ht, hbody, rfl⟩), rfl, rfl⟩
    · have hlt : i < tr.frames.length := (List.getElem?_eq_some_iff.mp hi).1
      exact ⟨rfl, _, hat _ _ (slotIn_trackFrame.mpr ⟨tr, ht, hlt, rfl⟩), rfl, rfl⟩

theorem exists_scriptBodies {slot : ScriptSlot}
    (hty : src.typeName = typeName) (hslot : slotAt defs src = some slot) (hbody : slot.hasBody) :
    ∃ r ∈ scriptBodies typeName defs, r.source = src ∧ r.name = slot.compiledName := by
  obtain ⟨ty, k, place⟩ := src
  obtain rfl : ty = typeName := hty
  obtain ⟨def_, hk, hslot⟩ := Option.bind_eq_some_iff.mp hslot
  cases place with
  | handler i =>
    obtain ⟨h, hi, rfl⟩ := slotIn_handler.mp hslot
    have hnull : h.bodyAst.isNull = false := by simpa using hbody
    exact ⟨_, mem_scriptBodies.mpr ⟨k, def_, hk, .inl
      (mem_handlerBodies.mpr ⟨i, h, hi, hnull, rfl⟩)⟩, rfl, rfl⟩
  | trackMain t =>
    obtain ⟨tr, ht, hforms, rfl⟩ := slotIn_trackMain.mp hslot
    exact ⟨_, mem_scriptBodies.mpr ⟨k, def_, hk, .inr
      (mem_trackBodies.mpr ⟨t, tr, ht, .inl ⟨hforms, rfl⟩⟩)⟩, rfl, rfl⟩
  | trackFrame t i =>
    obtain ⟨tr, ht, hi, rfl⟩ := slotIn_trackFrame.mp hslot
    exact ⟨_, mem_scriptBodies.mpr ⟨k, def_, hk, .inr (mem_trackBodies.mpr
      ⟨t, tr, ht, .inr ⟨i, tr.frames[i], List.getElem?_eq_getElem hi, rfl⟩⟩)⟩, rfl, rfl⟩

theorem emitScriptBody_ok {build : BuildLambda} {els : List ProgramBinaryElement}
    (h : emitBody build r = .ok els) :
    (∃ e ∈ els, e.source = some r.source ∧ e.name = r.name) ∧
      ∀ e ∈ els, ∀ src, e.source = some src → src = r.source ∧ e.name = r.name := by
  unfold emitBody at h
  cases hb : build r.form with
  | error e => simp [hb, bind, Except.bind] at h
  | ok built =>
    obtain ⟨others, size⟩ := built
    simp only [hb, bind, Except.bind, pure, Except.pure, Except.ok.injEq] at h
    subst h
    refine ⟨⟨_, List.mem_append_right _ List.mem_cons_self, rfl, rfl⟩, ?_⟩
    intro e he src hsrc
    rcases List.mem_append.mp he with he | he
    · obtain ⟨other, -, rfl⟩ := List.mem_map.mp he
      simp [ProgramBinaryElement.plain] at hsrc
    · obtain rfl := List.mem_singleton.mp he
      exact ⟨(Option.some.inj hsrc).symm, rfl⟩

theorem compileStateScriptBodies_ok {ts : TypeSystem} {build : BuildLambda}
    {els : List ProgramBinaryElement}
    (h : compileStateScriptBodies ts build typeName = .ok els) :
    (∀ t src slot, ts.lookupTypeNoThrow typeName = some t → src.typeName = typeName →
      slotAt t.stateDefs src = some slot → slot.hasBody →
      ∃ e ∈ els, e.source = some src ∧ e.name = slot.compiledName) ∧
    ∀ e ∈ els, ∀ src, e.source = some src → src.typeName = typeName ∧
      ∃ t slot, ts.lookupTypeNoThrow typeName = some t ∧ slotAt t.stateDefs src = some slot ∧
        e.name = slot.compiledName := by
  unfold compileStateScriptBodies at h
  cases ht : ts.lookupTypeNoThrow typeName with
  | none =>
    simp only [ht, Except.ok.injEq] at h
    subst h
    simp
  | some t =>
    simp only [ht, bind, Except.bind] at h
    cases hm : (scriptBodies typeName t.stateDefs).mapM (emitBody build) with
    | error e => simp [hm] at h
    | ok groups =>
      simp only [hm, pure, Except.pure, Except.ok.injEq] at h
      subst h
      obtain ⟨hto, hfrom⟩ := mapM_ok hm
      constructor
      · intro t' src slot ht' hty hslot hbody
        obtain rfl := Option.some.inj ht'
        obtain ⟨r, hr, hsource, hname⟩ := exists_scriptBodies hty hslot hbody
        obtain ⟨group, hgroup, hemit⟩ := hfrom r hr
        obtain ⟨⟨e, he, hsrc, hen⟩, -⟩ := emitScriptBody_ok hemit
        exact ⟨e, List.mem_flatten.mpr ⟨group, hgroup, he⟩, hsource ▸ hsrc, hen.trans hname⟩
      · intro e he src hsrc
        obtain ⟨group, hgroup, he⟩ := List.mem_flatten.mp he
        obtain ⟨r, hr, hemit⟩ := hto group hgroup
        obtain ⟨rfl, hname⟩ := (emitScriptBody_ok hemit).2 e he src hsrc
        obtain ⟨hty, slot, hslot, -, hcompiled⟩ := slotAt_of_mem_scriptBodies hr
        exact ⟨hty, t, slot, rfl, hslot, hname.trans hcompiled.symm⟩

end Bodies

/-- The functions of a file's bodies: each place with a body has one, and the name of each is
that of its place. -/
structure BodiesCompiled (host : ScriptHost) (file : ScriptFile)
    (elements : List ProgramBinaryElement) : Prop where
  compiled : ∀ typeName ∈ file.scripts, ∀ t src slot,
    host.types.lookupTypeNoThrow typeName = some t → src.typeName = typeName →
    slotAt t.stateDefs src = some slot → slot.hasBody →
    ∃ e ∈ elements, e.source = some src ∧ e.name = slot.compiledName
  named : ∀ e ∈ elements, ∀ src, e.source = some src → ∃ t slot,
    host.types.lookupTypeNoThrow src.typeName = some t ∧ slotAt t.stateDefs src = some slot ∧
    e.name = slot.compiledName

theorem fileElements_ok {host : ScriptHost} {file : ScriptFile}
    {elements : List ProgramBinaryElement} (h : fileElements host file = .ok elements) :
    BodiesCompiled host file elements := by
  unfold fileElements at h
  simp only [bind, Except.bind] at h
  cases hm : file.scripts.mapM (compileStateScriptBodies host.types host.build) with
  | error e => simp [hm] at h
  | ok groups =>
    simp only [hm, pure, Except.pure, Except.ok.injEq] at h
    subst h
    obtain ⟨hto, hfrom⟩ := mapM_ok hm
    constructor
    · intro typeName hscript t src slot ht hty hslot hbody
      obtain ⟨group, hgroup, hcompile⟩ := hfrom typeName hscript
      obtain ⟨e, he, hsrc, hname⟩ :=
        (compileStateScriptBodies_ok hcompile).1 t src slot ht hty hslot hbody
      refine ⟨e, ?_, hsrc, hname⟩
      exact List.mem_append_left _ (List.mem_append_right _
        (List.mem_flatten.mpr ⟨group, hgroup, he⟩))
    · intro e he src hsrc
      have hplain : ∀ others, e ∈ List.map ProgramBinaryElement.plain others → False := by
        intro others hmem
        obtain ⟨other, -, rfl⟩ := List.mem_map.mp hmem
        simp [ProgramBinaryElement.plain] at hsrc
      rcases List.mem_append.mp he with he | he
      · rcases List.mem_append.mp he with he | he
        · exact (hplain _ he).elim
        · obtain ⟨group, hgroup, he⟩ := List.mem_flatten.mp he
          obtain ⟨typeName, -, hcompile⟩ := hto group hgroup
          obtain ⟨rfl, t, slot, ht, hslot, hname⟩ :=
            (compileStateScriptBodies_ok hcompile).2 e he src hsrc
          exact ⟨t, slot, ht, hslot, hname⟩
      · exact (hplain _ he).elim

/-! ## Pointers and names -/

section Pointers

variable {getString : Word → String} {start : ℕ} {elements : List ProgramBinaryElement}

theorem linkedPointer_eq_zero (hstart : 0 < start) {name : String} :
    linkedPointer getString start elements name = 0 ↔
      ∀ e ∈ elements, tableName getString e.name ≠ name := by
  rw [← lastNamed_eq_none, linkedPointer]
  cases lastNamed getString name elements with
  | none => simp
  | some i =>
    simp only [reduceCtorEq, iff_false]
    omega

theorem pointsTo_linkedPointer (hstart : 0 < start) {name : String} :
    PointsTo (elementOffsets start elements) src
        (linkedPointer getString start elements name) ↔
      ∃ i el, lastNamed getString name elements = some i ∧ elements[i]? = some el ∧
        el.source = some src := by
  constructor
  · rintro ⟨el, offset, hmem, hsrc, hp⟩
    obtain ⟨j, hj, rfl⟩ := mem_elementOffsets.mp hmem
    rw [linkedPointer] at hp
    cases hlast : lastNamed getString name elements with
    | none =>
      rw [hlast] at hp
      simp only at hp
      omega
    | some i =>
      rw [hlast] at hp
      simp only at hp
      obtain ⟨⟨last, hi, -⟩, -⟩ := lastNamed_eq_some hlast
      have hij : i = j := payloadsSize_take_inj (List.getElem?_eq_some_iff.mp hi).1
        (List.getElem?_eq_some_iff.mp hj).1 (by omega)
      subst hij
      exact ⟨i, el, rfl, hj, hsrc⟩
  · rintro ⟨i, el, hlast, hi, hsrc⟩
    refine ⟨el, start + payloadsSize (elements.take i), mem_elementOffsets.mpr ⟨i, hi, rfl⟩,
      hsrc, ?_⟩
    rw [linkedPointer, hlast]

/-- A pointer at a place is right: that of the body's function, or null without a body. -/
def SlotLinked (elements : List (ProgramBinaryElement × ℕ)) (src : BodySource)
    (slot : ScriptSlot) (p : ℤ) : Prop :=
  if slot.hasBody then PointsTo elements src p else p = 0

theorem slotLinked_iff {host : ScriptHost} {file : ScriptFile} (hstart : 0 < start)
    (hc : BodiesCompiled host file elements) {t : SootType} {slot : ScriptSlot}
    (hmem : src.typeName ∈ file.scripts) (ht : host.types.lookupTypeNoThrow src.typeName = some t)
    (hslot : slotAt t.stateDefs src = some slot) :
    SlotLinked (elementOffsets start elements) src slot
        (linkedPointer host.getString start elements slot.lookupName) ↔
      SlotClear host.getString elements src slot := by
  have hname : ∀ e ∈ elements, e.source = some src → e.name = slot.compiledName := by
    intro e he hsrc
    obtain ⟨t', slot', ht', hslot', hname⟩ := hc.named e he src hsrc
    obtain rfl : t' = t := Option.some.inj (ht'.symm.trans ht)
    obtain rfl : slot' = slot := Option.some.inj (hslot'.symm.trans hslot)
    exact hname
  unfold SlotLinked SlotClear
  split
  · rename_i hbody
    rw [pointsTo_linkedPointer hstart]
    constructor
    · rintro ⟨i, el, hlast, hi, hsrc⟩
      obtain ⟨⟨el', hi', hnamed⟩, hafter⟩ := lastNamed_eq_some hlast
      obtain rfl : el' = el := Option.some.inj (hi'.symm.trans hi)
      rw [hname el' (List.mem_of_getElem? hi) hsrc] at hnamed
      refine ⟨hnamed, ?_⟩
      intro j e hj he hne
      -- another element of the name lies before the last one, which is the body's
      rcases Nat.lt_trichotomy j i with hlt | rfl | hgt
      · exact ⟨i, el', hlt, hi, hsrc⟩
      · rw [hi] at hj
        obtain rfl := Option.some.inj hj
        exact absurd hsrc hne
      · exact absurd he (hafter j e hgt hj)
    · rintro ⟨hfound, hshadow⟩
      obtain ⟨own, hown, hsrc, hownName⟩ :=
        hc.compiled src.typeName hmem t src slot ht rfl hslot hbody
      cases hlast : lastNamed host.getString slot.lookupName elements with
      | none =>
        have hno := lastNamed_eq_none.mp hlast own hown
        rw [hownName] at hno
        exact absurd hfound hno
      | some i =>
        obtain ⟨⟨el, hi, hnamed⟩, hafter⟩ := lastNamed_eq_some hlast
        refine ⟨i, el, rfl, hi, ?_⟩
        by_contra hne
        obtain ⟨i', own', hlt, hi', hsrc'⟩ := hshadow i el hi hnamed hne
        refine hafter i' own' hlt hi' ?_
        rw [hname own' (List.mem_of_getElem? hi') hsrc']
        exact hfound
  · exact linkedPointer_eq_zero hstart

end Pointers

/-! ## The shape of a state -/

section Shape

variable {g : String → ℤ} {typeName : String} {def_ : StateDef} {k : ℕ}
variable {elements : List (ProgramBinaryElement × ℕ)}

theorem onBlocks_handler {i : ℕ} {h : StateHandlerBody} (hi : def_.handlers[i]? = some h) :
    (onBlocks g typeName def_)[i]? = some (handlerBlock g typeName def_ i h) := by
  have hlt : i < def_.handlers.length := (List.getElem?_eq_some_iff.mp hi).1
  rw [onBlocks, List.getElem?_append_left (by simpa using hlt)]
  simp [List.getElem?_mapIdx, hi]

theorem onBlocks_drop : (onBlocks g typeName def_).drop def_.handlers.length =
    if !def_.tracks.isEmpty && (anchor def_).isNone then
      [⟨.ENTER, 0, 0, fillGroup g typeName def_⟩]
    else [] := by
  rw [onBlocks, List.drop_append_of_le_length (by simp)]
  simp

theorem trackGroup_of_mem {b : SsOnBlock} (hb : b ∈ onBlocks g typeName def_)
    (hne : b.trackGroup ≠ []) : b.trackGroup = fillGroup g typeName def_ := by
  rw [onBlocks] at hb
  rcases List.mem_append.mp hb with hb | hb
  · obtain ⟨i, hi, rfl⟩ := List.mem_mapIdx.mp hb
    by_cases hanchor : anchor def_ = some i
    · simp [handlerBlock, hanchor]
    · simp [handlerBlock, hanchor] at hne
  · split at hb
    · simp only [List.mem_singleton] at hb
      rw [hb]
    · cases hb

theorem exists_carrier (hne : def_.tracks ≠ []) :
    ∃ b ∈ onBlocks g typeName def_, b.trackGroup = fillGroup g typeName def_ := by
  cases hanchor : anchor def_ with
  | none =>
    refine ⟨⟨.ENTER, 0, 0, fillGroup g typeName def_⟩, ?_, rfl⟩
    rw [onBlocks]
    refine List.mem_append_right _ ?_
    simp [hne, hanchor]
  | some i =>
    have hlt : i < def_.handlers.length := by
      unfold anchor at hanchor
      split at hanchor
      · cases hanchor
      · rcases Option.or_eq_some_iff.mp hanchor with h | ⟨-, h⟩
        · exact (List.findIdx?_eq_some_iff_getElem.mp h).1
        · exact (List.findIdx?_eq_some_iff_getElem.mp h).1
    obtain ⟨h, hi⟩ : ∃ h, def_.handlers[i]? = some h := ⟨_, List.getElem?_eq_getElem hlt⟩
    have hblock : (onBlocks g typeName def_)[i]? = some (handlerBlock g typeName def_ i h) :=
      onBlocks_handler hi
    exact ⟨_, List.mem_of_getElem? hblock, by simp [handlerBlock, hanchor]⟩

theorem trackLinked_iff {t : ℕ} {tr : TrackInfo} {track : SsTrack} (htrack : track.lambdas =
      (if tr.body.isEmpty then [] else [⟨g (trackMainName typeName def_.name tr)⟩]) ++
        tr.frames.zipIdx.map fun (_, i) => ⟨g (trackFrameName typeName def_.name tr i)⟩) :
    List.Forall₂ (fun src (l : SsLambda) => PointsTo elements src l.scriptLambda)
        (trackSources typeName k t tr) track.lambdas ↔
      (tr.body.isEmpty = false →
        PointsTo elements ⟨typeName, k, .trackMain t⟩ (g (trackMainName typeName def_.name tr))) ∧
      ∀ i < tr.frames.length, PointsTo elements ⟨typeName, k, .trackFrame t i⟩
        (g (trackFrameName typeName def_.name tr i)) := by
  have hframes : List.Forall₂ (fun src (l : SsLambda) => PointsTo elements src l.scriptLambda)
      (tr.frames.zipIdx.map fun (_, i) => ⟨typeName, k, .trackFrame t i⟩)
      (tr.frames.zipIdx.map fun (_, i) => ⟨g (trackFrameName typeName def_.name tr i)⟩) ↔
      ∀ i < tr.frames.length, PointsTo elements ⟨typeName, k, .trackFrame t i⟩
        (g (trackFrameName typeName def_.name tr i)) := by
    rw [List.forall₂_map_left_iff, List.forall₂_map_right_iff, List.forall₂_same]
    constructor
    · intro h i hi
      exact h (tr.frames[i], i) (List.mem_zipIdx_iff_getElem?.mpr (by simp))
    · rintro h ⟨ft, i⟩ hmem
      have hi : tr.frames[i]? = some ft := by simpa using List.mem_zipIdx_iff_getElem?.mp hmem
      exact h i (List.getElem?_eq_some_iff.mp hi).1
  rw [htrack, trackSources]
  cases hbody : tr.body.isEmpty with
  | true => simpa using hframes
  | false =>
    simp only [Bool.false_eq_true, if_false, List.singleton_append, List.forall₂_cons, hframes,
      forall_const]

theorem fillGroup_linked_iff :
    List.Forall₂ (fun (tr : TrackInfo × ℕ) (track : SsTrack) =>
      List.Forall₂ (fun src (l : SsLambda) => PointsTo elements src l.scriptLambda)
        (trackSources typeName k tr.2 tr.1) track.lambdas) def_.tracks.zipIdx
        (fillGroup g typeName def_) ↔
      ∀ (t : ℕ) tr, def_.tracks[t]? = some tr →
        (tr.body.isEmpty = false → PointsTo elements ⟨typeName, k, .trackMain t⟩
          (g (trackMainName typeName def_.name tr))) ∧
        ∀ i < tr.frames.length, PointsTo elements ⟨typeName, k, .trackFrame t i⟩
          (g (trackFrameName typeName def_.name tr i)) := by
  have hgroup : fillGroup g typeName def_ = def_.tracks.zipIdx.map fun p =>
      (⟨stringId p.1.name,
        (if p.1.body.isEmpty then [] else [⟨g (trackMainName typeName def_.name p.1)⟩]) ++
          p.1.frames.zipIdx.map fun f => ⟨g (trackFrameName typeName def_.name p.1 f.2)⟩⟩ :
        SsTrack) := by
    rw [fillGroup]
    conv_lhs => rw [← List.zipIdx_map_fst 0 def_.tracks, List.map_map]
    rfl
  rw [hgroup, List.forall₂_map_right_iff, List.forall₂_same]
  constructor
  · intro h t tr ht
    have hmem : (tr, t) ∈ def_.tracks.zipIdx :=
      List.mem_zipIdx_iff_getElem?.mpr (by simpa using ht)
    exact (trackLinked_iff rfl).mp (h (tr, t) hmem)
  · rintro h ⟨tr, t⟩ hmem
    have ht : def_.tracks[t]? = some tr := by simpa using List.mem_zipIdx_iff_getElem?.mp hmem
    exact (trackLinked_iff rfl).mpr (h t tr ht)

theorem stateLinked_iff :
    StateLinked elements typeName def_ k ⟨stringId def_.name, onBlocks g typeName def_⟩ ↔
      ∀ place slot, slotIn typeName def_ place = some slot →
        SlotLinked elements ⟨typeName, k, place⟩ slot (g slot.lookupName) := by
  have hgroup : def_.tracks ≠ [] → fillGroup g typeName def_ ≠ [] := by
    intro hne
    simpa [fillGroup] using hne
  constructor
  · intro h place slot hslot
    -- the block that carries the tracks speaks for all of them
    have hcarried : ∀ (t : ℕ) tr, def_.tracks[t]? = some tr →
        (tr.body.isEmpty = false → PointsTo elements ⟨typeName, k, .trackMain t⟩
          (g (trackMainName typeName def_.name tr))) ∧
        ∀ i < tr.frames.length, PointsTo elements ⟨typeName, k, .trackFrame t i⟩
          (g (trackFrameName typeName def_.name tr i)) := by
      intro t tr ht
      have hne : def_.tracks ≠ [] := by
        intro hnil
        simp [hnil] at ht
      obtain ⟨b, hb, hfill⟩ := @exists_carrier g typeName _ hne
      have hlinked := h.tracks b hb (by rw [hfill]; exact hgroup hne)
      rw [hfill] at hlinked
      exact fillGroup_linked_iff.mp hlinked t tr ht
    cases place with
    | handler i =>
      obtain ⟨b, hi, rfl⟩ := slotIn_handler.mp hslot
      obtain ⟨block, hblock, hpointer⟩ := h.handlers i b hi
      obtain rfl := Option.some.inj ((onBlocks_handler hi).symm.trans hblock)
      cases hnull : b.bodyAst.isNull with
      | true => simpa [SlotLinked, hnull, handlerBlock] using hpointer
      | false => simpa [SlotLinked, hnull, handlerBlock] using hpointer
    | trackMain t =>
      obtain ⟨tr, ht, hbody, rfl⟩ := slotIn_trackMain.mp hslot
      simpa [SlotLinked] using (hcarried t tr ht).1 hbody
    | trackFrame t i =>
      obtain ⟨tr, ht, hi, rfl⟩ := slotIn_trackFrame.mp hslot
      simpa [SlotLinked] using (hcarried t tr ht).2 i hi
  · intro h
    refine ⟨?_, ?_, ?_, ?_⟩
    · intro i b hi
      refine ⟨_, onBlocks_handler hi, ?_⟩
      have hslot := h (.handler i) _ (slotIn_handler.mpr ⟨b, hi, rfl⟩)
      cases hnull : b.bodyAst.isNull with
      | true => simpa [SlotLinked, hnull, handlerBlock] using hslot
      | false => simpa [SlotLinked, hnull, handlerBlock] using hslot
    · intro b hb
      rw [onBlocks_drop] at hb
      split at hb
      · simp only [List.mem_singleton] at hb
        rw [hb]
      · cases hb
    · intro hne
      obtain ⟨b, hb, hfill⟩ := @exists_carrier g typeName _ hne
      exact ⟨b, hb, by rw [hfill]; exact hgroup hne⟩
    · intro b hb hne
      rw [trackGroup_of_mem hb hne]
      refine fillGroup_linked_iff.mpr ?_
      intro t tr ht
      constructor
      · intro hbody
        have hslot := h (.trackMain t) _ (slotIn_trackMain.mpr ⟨tr, ht, hbody, rfl⟩)
        simpa [SlotLinked] using hslot
      · intro i hi
        have hslot := h (.trackFrame t i) _ (slotIn_trackFrame.mpr ⟨tr, ht, hi, rfl⟩)
        simpa [SlotLinked] using hslot

theorem mem_usedStates_of_slotAt {slot : ScriptSlot}
    (h : slotAt defs src = some slot) : ∃ d, (d, src.state) ∈ usedStates defs ∧
      slotIn src.typeName d src.slot = some slot := by
  obtain ⟨d, hd, hslot⟩ := Option.bind_eq_some_iff.mp h
  refine ⟨d, ?_, hslot⟩
  rw [usedStates, List.mem_filter, List.mem_zipIdx_iff_getElem?]
  refine ⟨hd, ?_⟩
  rcases src with ⟨typeName, k, place⟩
  cases place with
  | handler i =>
    obtain ⟨b, hi, -⟩ := slotIn_handler.mp hslot
    have hne : d.handlers ≠ [] := List.ne_nil_of_mem (List.mem_of_getElem? hi)
    simp [hne]
  | trackMain t =>
    obtain ⟨tr, ht, -⟩ := slotIn_trackMain.mp hslot
    have hne : d.tracks ≠ [] := List.ne_nil_of_mem (List.mem_of_getElem? ht)
    simp [hne]
  | trackFrame t i =>
    obtain ⟨tr, ht, -⟩ := slotIn_trackFrame.mp hslot
    have hne : d.tracks ≠ [] := List.ne_nil_of_mem (List.mem_of_getElem? ht)
    simp [hne]

theorem buildStates_linked_iff :
    List.Forall₂ (fun (d : StateDef × ℕ) s => StateLinked elements typeName d.1 d.2 s)
        (usedStates defs) (buildStates g typeName defs) ↔
      ∀ src slot, src.typeName = typeName → slotAt defs src = some slot →
        SlotLinked elements src slot (g slot.lookupName) := by
  rw [buildStates, List.forall₂_map_right_iff, List.forall₂_same]
  constructor
  · rintro h src slot rfl hslot
    obtain ⟨d, hd, hin⟩ := mem_usedStates_of_slotAt hslot
    exact stateLinked_iff.mp (h _ hd) src.slot slot hin
  · rintro h ⟨d, k⟩ hd
    refine stateLinked_iff.mpr ?_
    intro place slot hslot
    have hk : defs[k]? = some d := by
      simpa using List.mem_zipIdx_iff_getElem?.mp (List.mem_filter.mp hd).1
    exact h ⟨typeName, k, place⟩ slot rfl (by simpa [slotAt, hk] using hslot)

end Shape

/-! ## The linked file -/

section Files

variable {host : ScriptHost} {file : ScriptFile} {elements : List ProgramBinaryElement}

theorem elementsStart_pos : 0 < elementsStart host file elements := by
  simp only [elementsStart, tableStart]
  omega

theorem makeBinary_linked_iff (hc : BodiesCompiled host file elements) :
    HandlersLinked host.types (makeBinary host file elements) ↔
      Unambiguous host file elements := by
  constructor
  · intro h typeName hmem t ht hstruct src slot hty hslot
    obtain ⟨t', ht', hstates⟩ := h
      (typeName, buildStates (linkedPointer host.getString (elementsStart host file elements)
        elements) typeName t.stateDefs)
      (mem_makeBinary_scripts.mpr ⟨hmem, t, ht, hstruct, rfl⟩)
    obtain rfl : t' = t := Option.some.inj (ht'.symm.trans ht)
    subst hty
    have hlinked := buildStates_linked_iff.mp hstates src slot rfl hslot
    exact (slotLinked_iff elementsStart_pos hc hmem ht hslot).mp hlinked
  · rintro h ⟨typeName, states⟩ hscript
    obtain ⟨hmem, t, ht, hstruct, hstates⟩ := mem_makeBinary_scripts.mp hscript
    simp only at hmem ht hstates
    subst hstates
    refine ⟨t, ht, buildStates_linked_iff.mpr ?_⟩
    rintro src slot rfl hslot
    exact (slotLinked_iff elementsStart_pos hc hmem ht hslot).mpr
      (h _ hmem t ht hstruct src slot rfl hslot)

theorem generateScripts_ok {linked : LinkedFile} (hel : fileElements host file = .ok elements)
    (h : generateScripts host file = .ok (some linked)) :
    makeBinary host file elements = linked := by
  simp only [generateScripts, hel, bind, Except.bind, pure, Except.pure] at h
  split at h
  · cases h
  · exact Option.some.inj (Except.ok.inj h)

/-- In the binary of a file every handler and track lambda points to the function compiled from
its own body, and to nothing without one, exactly when the names of the file are unambiguous. -/
theorem generateScripts_linked_iff {linked : LinkedFile}
    (hel : fileElements host file = .ok elements)
    (h : generateScripts host file = .ok (some linked)) :
    HandlersLinked host.types linked ↔ Unambiguous host file elements := by
  rw [← generateScripts_ok hel h]
  exact makeBinary_linked_iff (fileElements_ok hel)

end Files

/-! ## A door with one handler -/

/-- The type of a door whose only state has one handler with a body. -/
def doorType (kind : StateHandler) : SootType where
  desc := ⟨"door", .reference, false, 8, false, 16, 16⟩
  parent := "basic"
  fields := some []
  isBasic := true
  isFinal := false
  isDynamic := false
  isPacked := false
  allowMisalign := false
  methods := []
  newMethod := none
  stateDefs := [⟨"idle", [⟨kind, "", .pair (.symbol "yield") .null⟩], []⟩]

/-- The name the body of the door's handler is compiled under. -/
def doorName (kind : StateHandler) : String :=
  handlerName handlerKindName "door" "idle" ⟨kind, "", .pair (.symbol "yield") .null⟩

/-- Every body compiles to 64 bytes, and the table of string ids knows the one name. -/
def doorHost (kind : StateHandler) : ScriptHost where
  types := ⟨[("door", doorType kind)], []⟩
  build := fun _ => .ok ([], ⟨64, by decide⟩)
  numOptions := fun _ => 0
  getString := fun id => if id = stringId (doorName kind) then doorName kind else ""

/-- The file with the script of the door. -/
def doorFile : ScriptFile := ⟨[], ["door"], [], false, 0⟩

/-- The function of the door's handler, the one element of its file. -/
def doorElement (kind : StateHandler) : ProgramBinaryElement :=
  ⟨doorName kind, 64, some ⟨"door", 0, .handler 0⟩, by decide⟩

theorem door_elements (kind : StateHandler) :
    fileElements (doorHost kind) doorFile = .ok [doorElement kind] := rfl

theorem door_binary (kind : StateHandler) : generateScripts (doorHost kind) doorFile =
    .ok (some (makeBinary (doorHost kind) doorFile [doorElement kind])) := rfl

theorem door_slot (kind : StateHandler) {slot : ScriptSlot}
    (hty : src.typeName = "door") (h : slotAt (doorType kind).stateDefs src = some slot) :
    src = ⟨"door", 0, .handler 0⟩ ∧ slot = ⟨doorName kind, handlerName stateHandlerToString
      "door" "idle" ⟨kind, "", .pair (.symbol "yield") .null⟩, true⟩ := by
  obtain ⟨typeName, k, place⟩ := src
  obtain rfl : typeName = "door" := hty
  obtain ⟨d, hd, hslot⟩ := Option.bind_eq_some_iff.mp h
  cases k with
  | succ k => simp [doorType] at hd
  | zero =>
    obtain rfl := Option.some.inj hd
    cases place with
    | handler i =>
      obtain ⟨b, hi, rfl⟩ := slotIn_handler.mp hslot
      cases i with
      | succ i => simp at hi
      | zero =>
        obtain rfl := Option.some.inj hi
        exact ⟨rfl, rfl⟩
    | trackMain t =>
      obtain ⟨tr, ht, -⟩ := slotIn_trackMain.mp hslot
      simp at ht
    | trackFrame t i =>
      obtain ⟨tr, ht, -⟩ := slotIn_trackFrame.mp hslot
      simp at ht

theorem door_tableName (kind : StateHandler) :
    tableName (doorHost kind).getString (doorName kind) = doorName kind := by
  simp [tableName, doorHost]

/-- A door whose handler is `code` is linked. -/
theorem generateScripts_linked_iff_code : ∃ linked,
    generateScripts (doorHost .CODE) doorFile = .ok (some linked) ∧
      HandlersLinked (doorHost .CODE).types linked := by
  refine ⟨_, door_binary .CODE, ?_⟩
  refine (generateScripts_linked_iff (door_elements .CODE) (door_binary .CODE)).mpr ?_
  intro typeName hmem t ht _ src slot hty hslot
  obtain rfl : typeName = "door" := by simpa [doorFile] using hmem
  obtain rfl := Option.some.inj ht
  obtain ⟨rfl, rfl⟩ := door_slot .CODE hty hslot
  refine ⟨door_tableName .CODE, ?_⟩
  intro j e hj _ hne
  cases j with
  | succ j => simp at hj
  | zero =>
    obtain rfl := Option.some.inj hj
    exact absurd rfl hne

/-- A door whose handler is `trans` has a body that nothing points to: its function is named
with `trans` and looked up with `update`. -/
theorem not_handlersLinked : ∃ linked,
    generateScripts (doorHost .UPDATE) doorFile = .ok (some linked) ∧
      ¬HandlersLinked (doorHost .UPDATE).types linked := by
  refine ⟨_, door_binary .UPDATE, ?_⟩
  rw [makeBinary_linked_iff (fileElements_ok (door_elements .UPDATE))]
  intro h
  have hclear := h "door" (by simp [doorFile]) (doorType .UPDATE) rfl rfl
    ⟨"door", 0, .handler 0⟩ _ rfl rfl
  have hname : doorName .UPDATE = handlerName stateHandlerToString "door" "idle"
      ⟨.UPDATE, "", .pair (.symbol "yield") .null⟩ :=
    (door_tableName .UPDATE).symm.trans hclear.1
  exact absurd hname (by decide)

end Soot.Analysis
