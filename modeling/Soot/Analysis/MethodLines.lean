import Mathlib.Data.List.Find
import Soot.Analysis.TypeChanges

/-!
# Lines of types whose methods are in order

On a line that is well numbered a name and its number determine each other, so that the search
by name and the search by number stop at the same entry; and an entry that is added to a type
keeps the types below it in order.
-/

set_option autoImplicit false

namespace Soot.Analysis

open Soot.Computation Soot.Program Soot.Model

variable {t u : SootType} {above line : List SootType} {name : String} {i : ℕ} {m : MethodInfo}

/-! ## Own methods -/

theorem mem_newMethods : m ∈ newMethods t ↔ m ∈ t.methods ∧ isNewMethod m = true :=
  List.mem_filter

theorem getMyLastMethod_eq (t : SootType) : t.getMyLastMethod = (newMethods t).getLast? := by
  unfold SootType.getMyLastMethod newMethods
  rw [List.getLast?_eq_head?_reverse, ← List.filter_reverse, List.head?_filter]
  rfl

theorem ownMethod_mem (hnew : ∀ m, t.newMethod = some m → m.name = "new")
    (h : TypeSystem.ownMethod name t = some m) : m ∈ records t ∧ m.name = name := by
  unfold TypeSystem.ownMethod at h
  split at h
  · rename_i hname
    rw [hname]
    exact ⟨by simp [records, h], hnew m h⟩
  · rename_i hname
    unfold SootType.getMyMethod at h
    split at h
    · rename_i m' hfind
      cases h
      refine ⟨List.mem_append_right _ (List.mem_of_find?_eq_some hfind), ?_⟩
      simpa using List.find?_some hfind
    · simp [hname] at h

theorem ownMethod_of_mem (hdistinct : (t.methods.map (·.name)).Nodup) (hm : m ∈ t.methods)
    (hname : m.name ≠ "new") : TypeSystem.ownMethod m.name t = some m := by
  unfold TypeSystem.ownMethod SootType.getMyMethod
  rw [if_neg hname]
  have hfind : t.methods.find? (·.name == m.name) = some m := by
    generalize t.methods = methods at hdistinct hm
    induction methods with
    | nil => simp at hm
    | cons a as ih =>
      rw [List.map_cons, List.nodup_cons] at hdistinct
      rcases List.mem_cons.mp hm with rfl | hm
      · simp
      · have hne : a.name ≠ m.name := by
          intro h
          exact hdistinct.1 (h ▸ List.mem_map_of_mem hm)
        rw [List.find?_cons, beq_eq_false_iff_ne.mpr hne]
        exact ih hdistinct.2 hm
  rw [hfind]

theorem ownMethod_eq_none (hname : name ≠ "new") (h : name ∉ t.methods.map (·.name)) :
    TypeSystem.ownMethod name t = none := by
  unfold TypeSystem.ownMethod SootType.getMyMethod
  rw [if_neg hname]
  have hfind : t.methods.find? (·.name == name) = none := by
    rw [List.find?_eq_none]
    intro m hm
    rw [beq_iff_eq]
    intro hmn
    exact h (List.mem_map.mpr ⟨m, hm, hmn⟩)
  simp [hfind, hname]

theorem methodOf_cons (t : SootType) (above : List SootType) (name : String) :
    methodOf (t :: above) name = (TypeSystem.ownMethod name t).or (methodOf above name) := by
  unfold methodOf
  rw [List.findSome?_cons]
  cases TypeSystem.ownMethod name t with
  | none => rfl
  | some m => rfl

theorem idOf_cons_of_none (h : TypeSystem.ownMethod name t = none) :
    idOf (t :: above) name = idOf above name := by
  rw [idOf, methodOf_cons, h, Option.none_or, idOf]

theorem idOf_cons_of_some (h : TypeSystem.ownMethod name t = some m) :
    idOf (t :: above) name = some m.id := by
  rw [idOf, methodOf_cons, h]
  rfl

/-! ## Numbers on a line -/

theorem nextIdOf_cons (h : OwnMethods t above) :
    nextIdOf (t :: above) = nextIdOf above + (newMethods t).length := by
  rw [nextIdOf, getMyLastMethod_eq]
  cases hlast : (newMethods t).getLast? with
  | none =>
    rw [List.getLast?_eq_none_iff] at hlast
    simp [hlast]
  | some m =>
    have hid := congrArg List.getLast? h.numbered
    rw [List.getLast?_map, hlast, Option.map_some, List.getLast?_range'] at hid
    split at hid
    · cases hid
    · rename_i hne
      simp only [Option.some.injEq] at hid
      dsimp only
      omega

theorem idOf_cons_cases (h : OwnMethods t above)
    (hid : idOf (t :: above) name = some i) :
    idOf above name = some i ∨ (∃ m ∈ newMethods t, m.name = name ∧ m.id = i) ∨
      (name = "new" ∧ i = 0) := by
  cases hown : TypeSystem.ownMethod name t with
  | none =>
    rw [idOf_cons_of_none hown] at hid
    exact Or.inl hid
  | some m =>
    rw [idOf_cons_of_some hown] at hid
    obtain rfl := Option.some.inj hid
    obtain ⟨hmem, rfl⟩ := ownMethod_mem (fun m hm => (h.constructed m hm).2.1) hown
    rcases List.mem_append.mp hmem with hnew | hmem
    · rw [Option.mem_toList] at hnew
      obtain ⟨hzero, hname, -⟩ := h.constructed m hnew
      exact Or.inr (Or.inr ⟨hname, hzero⟩)
    · cases hkind : isNewMethod m with
      | false => exact Or.inl (h.overriding m hmem hkind)
      | true => exact Or.inr (Or.inl ⟨m, mem_newMethods.mpr ⟨hmem, hkind⟩, rfl, rfl⟩)

theorem id_newMethod (h : OwnMethods t above) (hm : m ∈ newMethods t) :
    nextIdOf above ≤ m.id ∧ m.id < nextIdOf above + (newMethods t).length := by
  have hmem := List.mem_map_of_mem (f := fun m : MethodInfo => m.id) hm
  rw [h.numbered, List.mem_range'_1] at hmem
  exact hmem

theorem one_le_nextIdOf (line : List SootType) : 1 ≤ nextIdOf line := by
  induction line with
  | nil => exact Nat.le_refl 1
  | cons t above ih =>
    unfold nextIdOf
    split
    · exact Nat.le_add_left 1 _
    · exact ih

theorem idOf_bounds (h : WellNumbered line) (hid : idOf line name = some i) :
    i < nextIdOf line ∧ (i = 0 ↔ name = "new") := by
  induction line with
  | nil => simp [idOf, methodOf] at hid
  | cons t above ih =>
    obtain ⟨hown, habove⟩ := h
    rw [nextIdOf_cons hown]
    have hone := one_le_nextIdOf above
    rcases idOf_cons_cases hown hid with hup | ⟨m, hm, rfl, rfl⟩ | ⟨rfl, rfl⟩
    · obtain ⟨hlt, hzero⟩ := ih habove hup
      exact ⟨by omega, hzero⟩
    · have hid := id_newMethod hown hm
      have hne := (hown.fresh m hm).2
      exact ⟨hid.2, ⟨fun h0 => by omega, fun hn => absurd hn hne⟩⟩
    · exact ⟨by omega, by simp⟩

theorem idOf_injective (h : WellNumbered line) {name' : String}
    (hid : idOf line name = some i) (hid' : idOf line name' = some i) : name = name' := by
  induction line with
  | nil => simp [idOf, methodOf] at hid
  | cons t above ih =>
    have hzero := (idOf_bounds h hid).2
    have hzero' := (idOf_bounds h hid').2
    obtain ⟨hown, habove⟩ := h
    have hone := one_le_nextIdOf above
    rcases idOf_cons_cases hown hid with hup | ⟨m, hm, hmn, hmi⟩ | ⟨hn, hi⟩
    · rcases idOf_cons_cases hown hid' with hup' | ⟨m', hm', -, hmi'⟩ | ⟨hn', hi'⟩
      · exact ih habove hup hup'
      · have hlt := (idOf_bounds habove hup).1
        have hge := (id_newMethod hown hm').1
        omega
      · rw [hzero.mp hi', hn']
    · rcases idOf_cons_cases hown hid' with hup' | ⟨m', hm', hmn', hmi'⟩ | ⟨hn', hi'⟩
      · have hlt := (idOf_bounds habove hup').1
        have hge := (id_newMethod hown hm).1
        omega
      · have hnodup : ((newMethods t).map (·.id)).Nodup := by
          rw [hown.numbered]
          exact List.nodup_range'
        have heq := List.inj_on_of_nodup_map hnodup hm hm' (hmi.trans hmi'.symm)
        rw [← hmn, ← hmn', heq]
      · rw [hzero.mp hi', hn']
    · rw [hn, hzero'.mp hi]

theorem idOf_record (h : WellNumbered line) (hu : u ∈ line) (hm : m ∈ records u) :
    idOf line m.name = some m.id := by
  induction line with
  | nil => simp at hu
  | cons t above ih =>
    have hwhole : WellNumbered (t :: above) := h
    obtain ⟨hown, habove⟩ := h
    rcases List.mem_cons.mp hu with rfl | hu
    · rcases List.mem_append.mp hm with hnew | hmem
      · rw [Option.mem_toList] at hnew
        have hname := (hown.constructed m hnew).2.1
        rw [hname]
        exact idOf_cons_of_some (by simp [TypeSystem.ownMethod, hnew])
      · by_cases hname : m.name = "new"
        · have hnone : u.newMethod = none := by
            by_contra hne
            obtain ⟨m', hm'⟩ := Option.ne_none_iff_exists'.mp hne
            exact (hown.constructed m' hm').2.2 (hname ▸ List.mem_map_of_mem hmem)
          have hkind : isNewMethod m = false := by
            by_contra hkind
            rw [Bool.not_eq_false] at hkind
            exact (hown.fresh m (mem_newMethods.mpr ⟨hmem, hkind⟩)).2 hname
          rw [idOf_cons_of_none (by simp [TypeSystem.ownMethod, hname, hnone])]
          exact hown.overriding m hmem hkind
        · exact idOf_cons_of_some (ownMethod_of_mem hown.distinct hmem hname)
    · have hup := ih habove hu
      cases hfound : TypeSystem.ownMethod m.name t with
      | none => rw [idOf_cons_of_none hfound, hup]
      | some m' =>
        have hid : idOf (t :: above) m.name = some m'.id := idOf_cons_of_some hfound
        rcases idOf_cons_cases hown hid with hup' | ⟨m'', hm'', hname, -⟩ | ⟨hname, hzero⟩
        · rw [hid, ← hup', hup]
        · rw [← hname, (hown.fresh m'' hm'').1] at hup
          cases hup
        · rw [hid, hzero, (idOf_bounds habove hup).2.mpr hname]

/-- What the search by number finds on a line. -/
def methodOfId (line : List SootType) (id : ℕ) : Option MethodInfo :=
  line.findSome? (TypeSystem.ownMethodById id)

theorem ownMethodById_mem (hnew : ∀ m, t.newMethod = some m → m.id = 0)
    (h : TypeSystem.ownMethodById i t = some m) : m ∈ records t ∧ m.id = i := by
  unfold TypeSystem.ownMethodById at h
  split at h
  · rename_i hi
    exact ⟨by simp [records, h], (hnew m h).trans hi.symm⟩
  · rename_i hi
    unfold SootType.getMyMethodById at h
    split at h
    · rename_i m' hfind
      cases h
      refine ⟨List.mem_append_right _ (List.mem_of_find?_eq_some hfind), ?_⟩
      simpa using List.find?_some hfind
    · simp [hi] at h

theorem methodOfId_eq (h : WellNumbered line) (hid : idOf line name = some i) :
    methodOfId line i = methodOf line name := by
  have hzero := (idOf_bounds h hid).2
  have hown : ∀ u ∈ line, TypeSystem.ownMethodById i u = TypeSystem.ownMethod name u := by
    intro u hu
    unfold TypeSystem.ownMethodById TypeSystem.ownMethod
    by_cases hi : i = 0
    · rw [if_pos hi, if_pos (hzero.mp hi)]
    · have hname : name ≠ "new" := fun hn => hi (hzero.mpr hn)
      rw [if_neg hi, if_neg hname, SootType.getMyMethodById, SootType.getMyMethod, if_neg hi,
        if_neg hname]
      have hfind : u.methods.find? (·.id == i) = u.methods.find? (·.name == name) := by
        refine List.find?_congr fun m hm => ?_
        have hrecord := idOf_record h hu (List.mem_append_right _ hm)
        rw [Bool.eq_iff_iff, beq_iff_eq, beq_iff_eq]
        constructor
        · rintro rfl
          exact idOf_injective h hrecord hid
        · rintro rfl
          exact Option.some.inj (hrecord.symm.trans hid)
      rw [hfind]
  rw [methodOfId, methodOf, ← List.head?_filterMap, ← List.head?_filterMap]
  exact congrArg List.head? (List.filterMap_congr hown)

/-! ## Adding entries -/

theorem ownMethods_empty (hmethods : t.methods = []) (hnew : t.newMethod = none) :
    OwnMethods t above := by
  constructor
  · simp [newMethods, hmethods]
  · simp [newMethods, hmethods]
  · simp [hmethods]
  · simp [hmethods]
  · simp [hnew]

@[simp] theorem methods_withMethod (t : SootType) (m : MethodInfo) :
    (withMethod t m).methods = t.methods ++ [m] := rfl

@[simp] theorem newMethod_withMethod (t : SootType) (m : MethodInfo) :
    (withMethod t m).newMethod = t.newMethod := rfl

theorem newMethods_withMethod (t : SootType) (m : MethodInfo) :
    newMethods (withMethod t m) =
      newMethods t ++ if isNewMethod m = true then [m] else [] := by
  simp [newMethods, List.filter_cons]

theorem ownMethod_withMethod (t : SootType) (m : MethodInfo) (name : String) :
    TypeSystem.ownMethod name (withMethod t m) = (TypeSystem.ownMethod name t).or
      (if name ≠ "new" ∧ m.name = name then some m else none) := by
  unfold TypeSystem.ownMethod SootType.getMyMethod
  by_cases hnew : name = "new"
  · simp [hnew]
  · rw [if_neg hnew, if_neg hnew, methods_withMethod, List.find?_append]
    cases t.methods.find? (·.name == name) with
    | some m' => simp [hnew]
    | none =>
      by_cases hname : m.name = name
      · simp [hname, hnew]
      · simp [hname, hnew]

theorem nodup_names_append (h : (t.methods.map (·.name)).Nodup)
    (hname : m.name ∉ t.methods.map (·.name)) :
    ((withMethod t m).methods.map (·.name)).Nodup := by
  rw [methods_withMethod, List.map_append, List.map_singleton]
  exact List.nodup_append.mpr ⟨h, List.nodup_singleton _, fun a ha b hb => by
    rw [List.mem_singleton.mp hb]
    exact fun hab => hname (hab ▸ ha)⟩

theorem ownMethods_declared (h : OwnMethods t above) (hnew : isNewMethod m = true)
    (hname : m.name ≠ "new") (hnone : methodOf (t :: above) m.name = none)
    (hid : m.id = nextIdOf (t :: above)) : OwnMethods (withMethod t m) above := by
  rw [methodOf_cons, Option.or_eq_none_iff] at hnone
  obtain ⟨hown, habove⟩ := hnone
  have hmem : m.name ∉ t.methods.map (·.name) := by
    intro hmem
    obtain ⟨m', hm', hmn⟩ := List.mem_map.mp hmem
    have hfound := ownMethod_of_mem h.distinct hm' (hmn ▸ hname)
    rw [hmn, hown] at hfound
    cases hfound
  have hnews : newMethods (withMethod t m) = newMethods t ++ [m] := by
    rw [newMethods_withMethod, if_pos hnew]
  constructor
  · rw [hnews, List.map_append, h.numbered, List.length_append, List.range'_append_1.symm]
    simp [hid, nextIdOf_cons h]
  · intro m' hm'
    rw [hnews] at hm'
    rcases List.mem_append.mp hm' with hm' | hm'
    · exact h.fresh m' hm'
    · rw [List.mem_singleton.mp hm']
      exact ⟨by rw [idOf, habove]; rfl, hname⟩
  · intro m' hm' hkind
    rcases List.mem_append.mp hm' with hm' | hm'
    · exact h.overriding m' hm' hkind
    · rw [List.mem_singleton.mp hm', hnew] at hkind
      cases hkind
  · exact nodup_names_append h.distinct hmem
  · intro m' hm'
    obtain ⟨hzero, hn, hno⟩ := h.constructed m' hm'
    refine ⟨hzero, hn, ?_⟩
    rw [methods_withMethod, List.map_append, List.mem_append]
    rintro (hin | hin)
    · exact hno hin
    · exact hname (List.mem_singleton.mp hin).symm

theorem ownMethods_overriding (h : OwnMethods t above) (hkind : isNewMethod m = false)
    (hname : m.name ∉ t.methods.map (·.name)) (hnew : m.name = "new" → t.newMethod = none)
    (hid : idOf above m.name = some m.id) : OwnMethods (withMethod t m) above := by
  have hnews : newMethods (withMethod t m) = newMethods t := by
    rw [newMethods_withMethod, hkind]
    simp
  constructor
  · rw [hnews]
    exact h.numbered
  · rw [hnews]
    exact h.fresh
  · intro m' hm' hkind'
    rcases List.mem_append.mp hm' with hm' | hm'
    · exact h.overriding m' hm' hkind'
    · rw [List.mem_singleton.mp hm']
      exact hid
  · exact nodup_names_append h.distinct hname
  · intro m' hm'
    obtain ⟨hzero, hn, hno⟩ := h.constructed m' hm'
    refine ⟨hzero, hn, ?_⟩
    rw [methods_withMethod, List.map_append, List.mem_append]
    rintro (hin | hin)
    · exact hno hin
    · have hnone := hnew (List.mem_singleton.mp hin).symm
      rw [newMethod_withMethod, hnone] at hm'
      cases hm'

theorem ownMethods_constructed (h : OwnMethods t above)
    (hname : "new" ∉ t.methods.map (·.name)) (hid : m.id = 0) (hm : m.name = "new") :
    OwnMethods { t with newMethod := some m } above := by
  refine ⟨h.numbered, h.fresh, h.overriding, h.distinct, ?_⟩
  intro m' hm'
  obtain rfl : m = m' := Option.some.inj hm'
  exact ⟨hid, hm, hname⟩

/-! ## Types below the one that changes -/

/-- A line that still finds what it found, and whose next number and unknown names are the
same, so far as a type below it has methods of its own. -/
structure Grows (old new : List SootType) : Prop where
  keeps : ∀ name i, idOf old name = some i → idOf new name = some i
  next : nextIdOf new = nextIdOf old
  unknown : ∀ name, name ≠ "new" → idOf old name = none → idOf new name = none

theorem OwnMethods_of_grows {old new : List SootType} (h : OwnMethods u old)
    (hgrows : Grows old new) : OwnMethods u new := by
  constructor
  · rw [hgrows.next]
    exact h.numbered
  · intro m hm
    obtain ⟨hnone, hne⟩ := h.fresh m hm
    exact ⟨hgrows.unknown _ hne hnone, hne⟩
  · intro m hm hkind
    exact hgrows.keeps _ _ (h.overriding m hm hkind)
  · exact h.distinct
  · exact h.constructed

theorem OwnMethods_of_keeps {old new : List SootType} (h : OwnMethods u old)
    (hkeeps : ∀ name i, idOf old name = some i → idOf new name = some i)
    (hnone : newMethods u = []) : OwnMethods u new := by
  constructor
  · simp [hnone]
  · simp [hnone]
  · intro m hm hkind
    exact hkeeps _ _ (h.overriding m hm hkind)
  · exact h.distinct
  · exact h.constructed

theorem idOf_append (pre line : List SootType) (name : String) :
    idOf (pre ++ line) name = (idOf pre name).or (idOf line name) := by
  unfold idOf methodOf
  rw [List.findSome?_append]
  cases pre.findSome? (TypeSystem.ownMethod name) with
  | none => rfl
  | some m => rfl

theorem nextIdOf_append (pre : List SootType) {old new : List SootType}
    (h : nextIdOf new = nextIdOf old) : nextIdOf (pre ++ new) = nextIdOf (pre ++ old) := by
  induction pre with
  | nil => exact h
  | cons t pre ih => simp only [List.cons_append, nextIdOf, ih]

theorem keeps_append (pre : List SootType) {old new : List SootType}
    (h : ∀ name i, idOf old name = some i → idOf new name = some i) (name : String) (i : ℕ)
    (hid : idOf (pre ++ old) name = some i) : idOf (pre ++ new) name = some i := by
  rw [idOf_append] at hid ⊢
  cases hpre : idOf pre name with
  | some j =>
    rw [hpre] at hid
    simpa using hid
  | none =>
    rw [hpre, Option.none_or] at hid
    rw [Option.none_or, h name i hid]

theorem Grows_append (pre : List SootType) {old new : List SootType} (h : Grows old new) :
    Grows (pre ++ old) (pre ++ new) := by
  refine ⟨keeps_append pre h.keeps, nextIdOf_append pre h.next, ?_⟩
  intro name hne hnone
  rw [idOf_append, Option.or_eq_none_iff] at hnone ⊢
  exact ⟨hnone.1, h.unknown name hne hnone.2⟩

theorem grows_overriding (hkind : isNewMethod m = false) (hid : idOf above m.name = some m.id) :
    Grows (t :: above) (withMethod t m :: above) := by
  have hsame : ∀ name, idOf (withMethod t m :: above) name = idOf (t :: above) name := by
    intro name
    unfold idOf
    rw [methodOf_cons, methodOf_cons, ownMethod_withMethod]
    cases TypeSystem.ownMethod name t with
    | some m' => rfl
    | none =>
      rw [Option.none_or, Option.none_or]
      split
      · rename_i hname
        rw [Option.some_or, ← hname.2]
        exact hid.symm
      · rw [Option.none_or]
  refine ⟨fun name i h => (hsame name).trans h, ?_, fun name _ h => (hsame name).trans h⟩
  rw [nextIdOf, nextIdOf, getMyLastMethod_eq, getMyLastMethod_eq, newMethods_withMethod, hkind]
  simp

theorem grows_constructed (h : WellNumbered (t :: above)) (hid : m.id = 0) :
    Grows (t :: above) ({ t with newMethod := some m } :: above) := by
  have hsame : ∀ name, name ≠ "new" →
      idOf ({ t with newMethod := some m } :: above) name = idOf (t :: above) name := by
    intro name hname
    simp only [idOf, methodOf_cons, TypeSystem.ownMethod, SootType.getMyMethod, hname, if_false]
  refine ⟨?_, rfl, fun name hne hnone => (hsame name hne).trans hnone⟩
  intro name i hold
  by_cases hname : name = "new"
  · have hzero := (idOf_bounds h hold).2.mpr hname
    rw [hname, hzero, ← hid]
    exact idOf_cons_of_some (by simp [TypeSystem.ownMethod])
  · exact (hsame name hname).trans hold

theorem keeps_declared (hnone : methodOf (t :: above) m.name = none) (name : String) (i : ℕ)
    (hid : idOf (t :: above) name = some i) :
    idOf (withMethod t m :: above) name = some i := by
  have hne : m.name ≠ name := by
    rintro rfl
    simp [idOf, hnone] at hid
  rw [idOf, methodOf_cons, ownMethod_withMethod, if_neg (fun h => hne h.2), Option.or_none,
    ← methodOf_cons]
  exact hid

end Soot.Analysis
