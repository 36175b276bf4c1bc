import Soot.Analysis.FieldLayout
import Soot.Model.TypeQueries

/-!
# The search finds the paths there are

The size of an array is its length times the distance of its elements, so the quotient of an offset
inside it is the index of an element, and the remainder the offset in that element. From this, level
by level: what the search through one field finds are paths, and it finds something wherever a path
begins.
-/

set_option autoImplicit false

namespace Soot.Analysis

open Soot.Program Soot.Computation Soot.Model

variable {out : FieldReverseLookupOutput}

variable {ts : TypeSystem} {f : Field} {t u : SootType} {target size : ℤ}
  {path tail : List PathToken} {type : TypeSpec} {n : ℕ}
  {results : List FieldReverseLookupOutput}

/-! ## Sizes -/

theorem fieldType_of_size (hstatic : f.isDynamic = false) (hsize : ts.getSizeInType f = .ok size) :
    ∃ u, ts.fieldType f = .ok u := by
  unfold TypeSystem.getSizeInType at hsize
  rw [if_neg (by simp [hstatic])] at hsize
  cases hu : ts.fieldType f with
  | error e => simp [hu, bind, Except.bind] at hsize
  | ok u => exact ⟨u, rfl⟩

theorem size_of_array (hstatic : f.isDynamic = false) (harray : f.isArray = true)
    (hu : ts.fieldType f = .ok u) (hsize : ts.getSizeInType f = .ok size) :
    size = f.arraySize * elementStride u f := by
  unfold TypeSystem.getSizeInType at hsize
  rw [if_neg (by simp [hstatic])] at hsize
  simp only [hu, bind, Except.bind, harray, if_true] at hsize
  unfold elementStride
  split at hsize
  · rename_i hinline
    rw [if_pos hinline]
    exact (checkInt_eq_ok.mp hsize).2.symm
  · rename_i hinline
    rw [if_neg hinline]
    split at hsize
    · rename_i hreference
      rw [if_pos hreference]
      exact (checkInt_eq_ok.mp hsize).2.symm
    · rename_i hreference
      rw [if_neg hreference]
      exact (checkInt_eq_ok.mp hsize).2.symm

theorem size_of_inline (hstatic : f.isDynamic = false) (hsingle : f.isArray = false)
    (hinline : f.isInline = true) (hu : ts.fieldType f = .ok u)
    (hsize : ts.getSizeInType f = .ok size) : size = u.desc.sizeInMemory := by
  unfold TypeSystem.getSizeInType at hsize
  rw [if_neg (by simp [hstatic])] at hsize
  simp only [hu, bind, Except.bind, hsingle, hinline, if_true, Bool.false_eq_true,
    if_false] at hsize
  exact (Except.ok.inj hsize).symm

theorem lookup_of_fieldType (hu : ts.fieldType f = .ok u) :
    ts.lookupTypeAllowPartialDef f.type.baseType = some u := by
  unfold TypeSystem.fieldType at hu
  split at hu
  · cases hu
  · rename_i v hv
    split at hu
    · cases hu
    · rw [hv, Except.ok.inj hu]

/-! ## Elements -/

theorem elementSize_eq (hstatic : f.isDynamic = false) (harray : f.isArray = true)
    (hu : ts.fieldType f = .ok u) (hsize : ts.getSizeInType f = .ok size) (hpos : 0 < size) :
    ts.elementSize f size = .ok (elementStride u f : ℤ) ∧ 0 < (elementStride u f : ℤ) ∧
      0 < f.arraySize := by
  have heq := size_of_array hstatic harray hu hsize
  have hstride : 0 < (elementStride u f : ℤ) := by
    rcases Nat.eq_zero_or_pos (elementStride u f) with hzero | hpos'
    · rw [heq, hzero] at hpos
      simp at hpos
    · exact_mod_cast hpos'
  have hlength : 0 < f.arraySize := by
    rw [heq] at hpos
    exact Int.pos_of_mul_pos_left hpos hstride
  refine ⟨?_, hstride, hlength⟩
  unfold TypeSystem.elementSize
  by_cases hinline : f.isInline = true
  · simp [hinline, hu, elementStride, bind, Except.bind, pure, Except.pure]
  · rw [if_neg hinline, heq, Int.mul_ediv_cancel_left _ hlength.ne']

theorem element_at (hpos : 0 < (elementStride u f : ℤ)) (hlow : f.offset ≤ target)
    (hhigh : target < f.offset + f.arraySize * elementStride u f) :
    HasElement f ((target - f.offset) / elementStride u f) ∧
      (0 ≤ (target - f.offset) % elementStride u f ∧
        (target - f.offset) % elementStride u f < elementStride u f) ∧
      target = f.offset + (target - f.offset) / elementStride u f * elementStride u f +
        (target - f.offset) % elementStride u f := by
  have hsum := Int.ediv_mul_add_emod (target - f.offset) (elementStride u f)
  refine ⟨⟨Int.ediv_nonneg (by omega) hpos.le, fun _ => ?_⟩,
    ⟨Int.emod_nonneg _ hpos.ne', Int.emod_lt_of_pos _ hpos⟩, by omega⟩
  exact Int.ediv_lt_of_lt_mul hpos (by omega)

theorem element_index {k r : ℤ} (hr : 0 ≤ r ∧ r < elementStride u f) :
    (f.offset + k * elementStride u f + r - f.offset) / elementStride u f = k ∧
      (f.offset + k * elementStride u f + r - f.offset) % elementStride u f = r := by
  have hsum : f.offset + k * elementStride u f + r - f.offset = r + elementStride u f * k := by
    rw [Int.mul_comm]
    omega
  rw [hsum]
  constructor
  · rw [Int.add_mul_ediv_left _ _ (by omega), Int.ediv_eq_zero_of_lt hr.1 hr.2, Int.zero_add]
  · rw [Int.add_mul_emod_self_left, Int.emod_eq_of_lt hr.1 hr.2]

theorem element_inside {k r : ℤ} (hk : HasElement f k) (hstatic : f.isDynamic = false)
    (hr : 0 ≤ r ∧ r < elementStride u f) :
    f.offset ≤ f.offset + k * elementStride u f + r ∧
      f.offset + k * elementStride u f + r < f.offset + f.arraySize * elementStride u f := by
  have hlow : 0 ≤ k * elementStride u f := Int.mul_nonneg hk.1 (by omega)
  have hnext : (k + 1) * elementStride u f ≤ f.arraySize * elementStride u f :=
    Int.mul_le_mul_of_nonneg_right (hk.2 hstatic) (by omega)
  rw [Int.add_mul, Int.one_mul] at hnext
  omega

/-! ## The search is sound -/

/-- A search finds paths that reach its offset. -/
def Sound (ts : TypeSystem) (n : ℕ) (inner : PathSearch) : Prop :=
  ∀ t target path results, inner t target path = .ok results → ∀ out ∈ results,
    out.success = true ∧ ∃ tail, out.tokens = path ++ tail ∧
      PathReaches ts .searched n t tail target out.resultType

variable {inner : PathSearch}

theorem sound_nested (hinner : Sound ts n inner) {o : ℤ} {nested : List PathToken}
    (h : inner u o (path ++ nested) = .ok results)
    (hout : out ∈ results) : out.success = true ∧ ∃ tail, out.tokens = path ++ (nested ++ tail) ∧
      PathReaches ts .searched n u tail o out.resultType := by
  obtain ⟨hsuccess, tail, htokens, hpath⟩ := hinner _ _ _ _ h out hout
  exact ⟨hsuccess, tail, by rw [htokens, List.append_assoc], hpath⟩

theorem sound_elementPaths (hinner : Sound ts n inner) {fields : List Field}
    (hfields : t.fields = some fields) (hf : f ∈ fields) (harray : f.isArray = true)
    (hstatic : f.isDynamic = false) (hsize : ts.getSizeInType f = .ok size)
    (hlow : f.offset ≤ target) (hhigh : target < f.offset + size)
    (h : ts.elementPaths inner target path f size = .ok results) (hout : out ∈ results) :
    out.success = true ∧ ∃ tail, out.tokens = path ++ tail ∧
      PathReaches ts .searched (n + 1) t tail target out.resultType := by
  obtain ⟨u, hu⟩ := fieldType_of_size hstatic hsize
  obtain ⟨helement, hpos, -⟩ := elementSize_eq hstatic harray hu hsize (by omega)
  rw [size_of_array hstatic harray hu hsize] at hhigh
  obtain ⟨hk, hr, htarget⟩ := element_at hpos hlow hhigh
  have hdynamic : f.isDynamic = true → PathRules.searched.dynamic = true := by simp [hstatic]
  unfold TypeSystem.elementPaths at h
  rw [helement] at h
  simp only [bind, Except.bind] at h
  split at h
  · rename_i hnested
    rw [lookup_of_fieldType hu] at h
    simp only [orThrow] at h
    split at h
    · rename_i hstructure
      obtain ⟨hsuccess, tail, htokens, hpath⟩ := sound_nested hinner h hout
      have hstride : (elementStride u f : ℤ) = u.desc.sizeInMemory := by
        simp [elementStride, hnested.1]
      have hreaches := PathReaches.insideElement hfields hf harray hdynamic hnested.1 hu hk
        hstructure hpath (by rw [← hstride]; exact hr)
      rw [← hstride, ← htarget] at hreaches
      exact ⟨hsuccess, _, htokens, hreaches⟩
    · obtain rfl := Except.ok.inj h
      simp at hout
  · rename_i hlast
    obtain rfl := Except.ok.inj h
    obtain rfl := List.mem_singleton.mp hout
    have hbyte : (target - f.offset) % elementStride u f = 0 ∨
        PathRules.searched.everyByte = true ∧ f.isInline = false := by
      by_cases hinline : f.isInline = true
      · have hnot : ¬ 0 < (target - f.offset) % elementStride u f := fun h => hlast ⟨hinline, h⟩
        exact .inl (by omega)
      · exact .inr ⟨rfl, by simpa using hinline⟩
    have hreaches := PathReaches.element (n := n) hfields hf harray hdynamic hu hk hr hbyte
    rw [← htarget] at hreaches
    exact ⟨rfl, _, rfl, hreaches⟩

theorem sound_inlinePaths (hinner : Sound ts n inner) {fields : List Field}
    (hfields : t.fields = some fields) (hf : f ∈ fields) (hsingle : f.isArray = false)
    (hinline : f.isInline = true) (hsize : ts.getSizeInType f = .ok size)
    (h : ts.inlinePaths inner target path f size = .ok results) (hout : out ∈ results) :
    out.success = true ∧ ∃ tail, out.tokens = path ++ tail ∧
      PathReaches ts .searched (n + 1) t tail target out.resultType := by
  unfold TypeSystem.inlinePaths at h
  cases hv : ts.lookupTypeAllowPartialDef f.type.baseType with
  | none => simp [hv, orThrow, bind, Except.bind] at h
  | some v =>
    simp only [hv, orThrow, bind, Except.bind] at h
    split at h
    · rename_i hrange
      have hstatic : f.isDynamic = false := by
        by_contra hdynamic
        unfold TypeSystem.getSizeInType at hsize
        rw [if_pos (by simpa using hdynamic)] at hsize
        obtain rfl := Except.ok.inj hsize
        omega
      obtain ⟨u, hu⟩ := fieldType_of_size hstatic hsize
      obtain rfl := Option.some.inj (hv.symm.trans (lookup_of_fieldType hu))
      rw [size_of_inline hstatic hsingle hinline hu hsize] at hrange
      obtain ⟨hsuccess, tail, htokens, hpath⟩ := sound_nested hinner h hout
      have hreaches := PathReaches.inside hfields hf ⟨hsingle, hstatic⟩ hinline hu hrange.1 hpath
        (by omega)
      have htarget : f.offset + (target - f.offset) = target := by omega
      rw [htarget] at hreaches
      exact ⟨hsuccess, _, htokens, hreaches⟩
    · obtain rfl := Except.ok.inj h
      simp at hout

theorem sound_fieldAccessPaths (hinner : Sound ts n inner) {fields : List Field}
    (hfields : t.fields = some fields) (hf : f ∈ fields)
    (h : ts.fieldAccessPaths inner target path f = .ok results) (hout : out ∈ results) :
    out.success = true ∧ ∃ tail, out.tokens = path ++ tail ∧
      PathReaches ts .searched (n + 1) t tail target out.resultType := by
  unfold TypeSystem.fieldAccessPaths at h
  cases hsize : ts.getSizeInType f with
  | error e => simp [hsize, bind, Except.bind] at h
  | ok size =>
    simp only [hsize, bind, Except.bind] at h
    have hnone : ¬ out ∈ ([] : List FieldReverseLookupOutput) := List.not_mem_nil
    split at h
    · rename_i harray
      split at h
      · rename_i hrange
        exact sound_elementPaths hinner hfields hf harray hrange.1 hsize hrange.2.1 hrange.2.2 h
          hout
      · obtain rfl := Except.ok.inj h
        exact absurd hout hnone
    · rename_i hsingle
      have hsingle : f.isArray = false := by simpa using hsingle
      split at h
      · rename_i hoffset
        obtain rfl := Except.ok.inj h
        obtain rfl := List.mem_singleton.mp hout
        have hreaches : PathReaches ts .searched (n + 1) t [.field f.name] f.offset f.type :=
          .field hfields hf hsingle
        rw [hoffset] at hreaches
        exact ⟨rfl, _, rfl, hreaches⟩
      · split at h
        · rename_i hinline
          exact sound_inlinePaths hinner hfields hf hsingle hinline hsize h hout
        · obtain rfl := Except.ok.inj h
          exact absurd hout hnone

theorem findFieldAccessPaths_ok
    (h : ts.findFieldAccessPaths (n + 1) t target path = .ok results) :
    ∃ own, collect (ts.fieldAccessPaths (ts.findFieldAccessPaths n) target path)
        (t.fields.getD []) = .ok own ∧
      ((results = own ∧ ∀ p, t.hasParent = true → ts.lookupTypeAllowPartialDef t.parent = some p →
          p.fields.isSome = false) ∨
        ∃ p rest, t.hasParent = true ∧ ts.lookupTypeAllowPartialDef t.parent = some p ∧
          p.fields.isSome = true ∧ ts.findFieldAccessPaths n p target path = .ok rest ∧
          results = own ++ rest) := by
  unfold TypeSystem.findFieldAccessPaths at h
  cases hown : collect (ts.fieldAccessPaths (ts.findFieldAccessPaths n) target path)
      (t.fields.getD []) with
  | error e => simp [hown, bind, Except.bind] at h
  | ok own =>
    refine ⟨own, rfl, ?_⟩
    simp only [hown, bind, Except.bind] at h
    by_cases hparent : t.hasParent = true
    · rw [if_pos hparent] at h
      cases hp : ts.lookupTypeAllowPartialDef t.parent with
      | none => simp [hp, orThrow] at h
      | some p =>
        simp only [hp, orThrow] at h
        by_cases hfields : p.fields.isSome = true
        · rw [if_pos hfields] at h
          cases hrest : ts.findFieldAccessPaths n p target path with
          | error e => simp [hrest] at h
          | ok rest =>
            rw [hrest] at h
            exact .inr ⟨p, rest, hparent, rfl, hfields, hrest, (Except.ok.inj h).symm⟩
        · rw [if_neg hfields] at h
          refine .inl ⟨(Except.ok.inj h).symm, fun q _ hq => ?_⟩
          rw [← Option.some.inj hq]
          simpa using hfields
    · rw [if_neg hparent] at h
      exact .inl ⟨(Except.ok.inj h).symm, fun q hq => absurd hq hparent⟩

theorem sound_findFieldAccessPaths (ts : TypeSystem) (n : ℕ) :
    Sound ts n (ts.findFieldAccessPaths n) := by
  induction n with
  | zero =>
    intro t target path results h out hout
    obtain rfl := Except.ok.inj h
    simp at hout
  | succ n ih =>
    intro t target path results h out hout
    obtain ⟨own, hown, hresults⟩ := findFieldAccessPaths_ok h
    have hmine (hmem : out ∈ own) : out.success = true ∧ ∃ tail, out.tokens = path ++ tail ∧
        PathReaches ts .searched (n + 1) t tail target out.resultType := by
      obtain ⟨f, hf, found, hfound, hin⟩ := exists_of_mem_collect hown hmem
      cases hfields : t.fields with
      | none => simp [hfields] at hf
      | some fields =>
        rw [hfields, Option.getD_some] at hf
        exact sound_fieldAccessPaths ih hfields hf hfound hin
    obtain ⟨rfl, -⟩ | ⟨p, rest, hparent, hp, hstructure, hrest, rfl⟩ := hresults
    · exact hmine hout
    · rcases List.mem_append.mp hout with hout | hout
      · exact hmine hout
      · obtain ⟨hsuccess, tail, htokens, hpath⟩ := ih p target path rest hrest out hout
        exact ⟨hsuccess, tail, htokens, .inherited hparent hp hstructure hpath⟩

/-! ## The search is complete -/

theorem own_ne_nil {fields : List Field} (hfields : t.fields = some fields) (hf : f ∈ fields)
    (h : ts.findFieldAccessPaths (n + 1) t target path = .ok results)
    (hfound : ∀ found, ts.fieldAccessPaths (ts.findFieldAccessPaths n) target path f = .ok found →
      found ≠ []) : results ≠ [] := by
  obtain ⟨own, hown, hresults⟩ := findFieldAccessPaths_ok h
  rw [hfields, Option.getD_some] at hown
  obtain ⟨found, hok, hsub⟩ := subset_collect hown hf
  have hown' : own ≠ [] := by
    rintro rfl
    exact hfound found hok (List.subset_nil.mp hsub)
  obtain ⟨rfl, -⟩ | ⟨p, rest, -, -, -, -, rfl⟩ := hresults
  · exact hown'
  · exact List.append_ne_nil_of_left_ne_nil hown' rest

theorem size_of_paths (h : ts.fieldAccessPaths inner target path f = .ok results) :
    ∃ size, ts.getSizeInType f = .ok size := by
  unfold TypeSystem.fieldAccessPaths at h
  cases hsize : ts.getSizeInType f with
  | error e => simp [hsize, bind, Except.bind] at h
  | ok size => exact ⟨size, rfl⟩

theorem paths_of_single (hsingle : f.isArray = false)
    (h : ts.fieldAccessPaths inner f.offset path f = .ok results) : results ≠ [] := by
  obtain ⟨size, hsize⟩ := size_of_paths h
  unfold TypeSystem.fieldAccessPaths at h
  simp only [hsize, bind, Except.bind, hsingle, Bool.false_eq_true, if_false, if_true] at h
  rw [← Except.ok.inj h]
  simp

theorem paths_of_element (harray : f.isArray = true) (hstatic : f.isDynamic = false)
    (hu : ts.fieldType f = .ok u) {k r : ℤ} (hk : HasElement f k)
    (hr : 0 ≤ r ∧ r < elementStride u f)
    (h : ts.fieldAccessPaths inner (f.offset + k * elementStride u f + r) path f = .ok results) :
    (if f.isInline = true ∧ 0 < r then
      if u.fields.isSome = true then inner u r (path ++ [PathToken.field f.name, .constantIdx k])
      else .ok []
    else .ok [.found f.type (path ++ [PathToken.field f.name, .constantIdx k])]) = .ok results := by
  obtain ⟨size, hsize⟩ := size_of_paths h
  have heq := size_of_array hstatic harray hu hsize
  have hrange := element_inside hk hstatic hr
  rw [← heq] at hrange
  obtain ⟨helement, -, -⟩ := elementSize_eq hstatic harray hu hsize (by omega)
  obtain ⟨hindex, hremainder⟩ := element_index (f := f) (k := k) hr
  unfold TypeSystem.fieldAccessPaths TypeSystem.elementPaths at h
  simp only [hsize, bind, Except.bind, harray, if_true, if_pos (And.intro hstatic hrange), helement,
    hindex, hremainder, lookup_of_fieldType hu, orThrow] at h
  exact h

theorem paths_of_inline (hsingle : f.isArray = false) (hinline : f.isInline = true)
    (hstatic : f.isDynamic = false) (hu : ts.fieldType f = .ok u)
    (hstructure : u.fields.isSome = true) {o : ℤ} (ho : 0 ≤ o ∧ o < u.desc.sizeInMemory)
    (hne : o ≠ 0) (h : ts.fieldAccessPaths inner (f.offset + o) path f = .ok results) :
    inner u o (path ++ [PathToken.field f.name]) = .ok results := by
  obtain ⟨size, hsize⟩ := size_of_paths h
  have heq := size_of_inline hstatic hsingle hinline hu hsize
  have hother : ¬ f.offset = f.offset + o := by omega
  have hrange : u.fields.isSome = true ∧ f.offset ≤ f.offset + o ∧ f.offset + o < f.offset + size :=
    ⟨hstructure, by omega, by omega⟩
  have hdiff : f.offset + o - f.offset = o := by omega
  unfold TypeSystem.fieldAccessPaths TypeSystem.inlinePaths at h
  simp only [hsize, bind, Except.bind, hsingle, Bool.false_eq_true, if_false, if_neg hother,
    hinline, if_true, lookup_of_fieldType hu, orThrow, if_pos hrange, hdiff] at h
  exact h

theorem static_of_searched (h : f.isDynamic = true → PathRules.searched.dynamic = true) :
    f.isDynamic = false := by
  by_contra hdynamic
  have hsearched := h (by simpa using hdynamic)
  simp [PathRules.searched] at hsearched

theorem complete_findFieldAccessPaths (h : PathReaches ts .searched n t tail target type) :
    ∀ path results, ts.findFieldAccessPaths n t target path = .ok results → results ≠ [] := by
  induction h with
  | field hfields hf hsingle =>
    intro path results h
    exact own_ne_nil hfields hf h fun found => paths_of_single hsingle
  | @element _ _ _ _ f _ r hfields hf harray hdynamic hu hk hr hbyte =>
    intro path results h
    have hstatic := static_of_searched hdynamic
    have hlast : ¬ (f.isInline = true ∧ 0 < r) := by
      rintro ⟨hinline, hpos⟩
      rcases hbyte with hzero | ⟨-, hnot⟩
      · omega
      · simp [hinline] at hnot
    apply own_ne_nil hfields hf h
    intro found hfound
    have hpaths := paths_of_element harray hstatic hu hk hr hfound
    rw [if_neg hlast] at hpaths
    rw [← Except.ok.inj hpaths]
    simp
  | @inside _ _ u _ f tail o _ hfields hf hsingle hinline hu hstructure hpath ho ih =>
    intro path results h
    apply own_ne_nil hfields hf h
    intro found hfound
    by_cases hzero : o = 0
    · rw [hzero, Int.add_zero] at hfound
      exact paths_of_single hsingle.1 hfound
    · exact ih _ _ (paths_of_inline hsingle.1 hinline hsingle.2 hu hstructure ho hzero hfound)
  | @insideElement _ _ u _ f tail k o _ hfields hf harray hdynamic hinline hu hk hstructure hpath ho
      ih =>
    intro path results h
    have hstride : (elementStride u f : ℤ) = u.desc.sizeInMemory := by simp [elementStride, hinline]
    rw [← hstride] at ho h
    apply own_ne_nil hfields hf h
    intro found hfound
    have hpaths := paths_of_element harray (static_of_searched hdynamic) hu hk ho hfound
    rw [if_pos hstructure] at hpaths
    split at hpaths
    · exact ih _ _ hpaths
    · rw [← Except.ok.inj hpaths]
      simp
  | inherited hparent hp hstructure hpath ih =>
    intro path results h
    obtain ⟨own, -, hresults⟩ := findFieldAccessPaths_ok h
    obtain ⟨-, hnone⟩ | ⟨p, rest, -, hp', -, hrest, rfl⟩ := hresults
    · rw [hnone _ hparent hp] at hstructure
      cases hstructure
    · obtain rfl := Option.some.inj (hp.symm.trans hp')
      exact List.append_ne_nil_of_right_ne_nil own (ih path rest hrest)

/-! ## The search throws only where a type is not known -/

theorem lookup_isSome {name : String} (h : (ts.lookupTypeAllowPartialDef name).isSome = true) :
    ∃ u, ts.lookupTypeAllowPartialDef name = some u := Option.isSome_iff_exists.mp h

/-- A search that does not throw on structures of the table. -/
def Total (ts : TypeSystem) (inner : PathSearch) : Prop :=
  ∀ name u, ts.lookupTypeAllowPartialDef name = some u →
    ∀ target path, ∃ results, inner u target path = .ok results

theorem total_fieldAccessPaths (hinner : Total ts inner) (hsize : ts.getSizeInType f = .ok size)
    (hu : ts.lookupTypeAllowPartialDef f.type.baseType = some u) (target : ℤ)
    (path : List PathToken) : ∃ results, ts.fieldAccessPaths inner target path f = .ok results := by
  unfold TypeSystem.fieldAccessPaths
  simp only [hsize, bind, Except.bind]
  split
  · rename_i harray
    split
    · rename_i hrange
      obtain ⟨v, hv⟩ := fieldType_of_size hrange.1 hsize
      obtain ⟨helement, -, -⟩ := elementSize_eq hrange.1 harray hv hsize (by omega)
      unfold TypeSystem.elementPaths
      simp only [helement, bind, Except.bind, hu, orThrow]
      split
      · split
        · exact hinner _ u hu _ _
        · exact ⟨_, rfl⟩
      · exact ⟨_, rfl⟩
    · exact ⟨_, rfl⟩
  · split
    · exact ⟨_, rfl⟩
    · split
      · unfold TypeSystem.inlinePaths
        simp only [bind, Except.bind, hu, orThrow]
        split
        · exact hinner _ u hu _ _
        · exact ⟨_, rfl⟩
      · exact ⟨_, rfl⟩

theorem total_findFieldAccessPaths (hknown : FieldsKnown ts) (n : ℕ) :
    Total ts (ts.findFieldAccessPaths n) := by
  induction n with
  | zero => exact fun _ _ _ _ _ => ⟨[], rfl⟩
  | succ n ih =>
    intro name t ht target path
    obtain ⟨hfields, hparent⟩ := hknown name t ht
    have hcollect : ∀ f ∈ t.fields.getD [], ∃ found,
        ts.fieldAccessPaths (ts.findFieldAccessPaths n) target path f = .ok found := by
      intro f hf
      obtain ⟨⟨size, hsize⟩, htype⟩ := hfields f hf
      obtain ⟨u, hu⟩ := lookup_isSome htype
      exact total_fieldAccessPaths ih hsize hu target path
    obtain ⟨own, hown⟩ := collect_ok hcollect
    unfold TypeSystem.findFieldAccessPaths
    simp only [hown, bind, Except.bind]
    split
    · rename_i hhas
      obtain ⟨p, hp⟩ := lookup_isSome (hparent hhas)
      obtain ⟨rest, hrest⟩ := ih _ p hp target path
      simp only [hp, orThrow, hrest]
      split <;> exact ⟨_, rfl⟩
    · exact ⟨own, rfl⟩

/-! ## The lookup -/

section Lookup

variable {bitFields : SootType → Option (List BitField)} {input : FieldReverseLookupInput}
  {base : SootType}

theorem returns_iff (hbase : StructureBase ts input base) :
    Returns ts bitFields input out ↔ ∃ results,
      ts.findFieldAccessPaths TypeSystem.searchLevels base input.offset [] = .ok results ∧
        out = results.headD .failed := by
  unfold Returns TypeSystem.reverseFieldLookup
  simp only [hbase.1, orThrow, bind, Except.bind, if_pos hbase.2]
  cases ts.findFieldAccessPaths TypeSystem.searchLevels base input.offset [] with
  | error e => simp
  | ok results => simp [pure, Except.pure, eq_comm]

end Lookup

/-- INTERNAL: The lookup in a structure succeeds exactly if there is a path of at most as many
levels as are searched, and returns such a path. -/
theorem lookupSearches (ts : TypeSystem) (bitFields : SootType → Option (List BitField))
    (input : FieldReverseLookupInput) (base : SootType) (hbase : StructureBase ts input base) :
    LookupSearches ts bitFields input base where
  sound := by
    intro out hreturns hsuccess
    obtain ⟨results, hresults, rfl⟩ := (returns_iff hbase).mp hreturns
    cases results with
    | nil => simp [FieldReverseLookupOutput.failed] at hsuccess
    | cons best rest =>
      obtain ⟨-, tail, htokens, hpath⟩ :=
        sound_findFieldAccessPaths ts _ _ _ _ _ hresults best (by simp)
      rw [List.nil_append] at htokens
      simpa [htokens] using hpath
  complete := by
    intro out path type hreturns hpath
    obtain ⟨results, hresults, rfl⟩ := (returns_iff hbase).mp hreturns
    cases results with
    | nil => exact absurd rfl (complete_findFieldAccessPaths hpath [] [] hresults)
    | cons best rest =>
      exact (sound_findFieldAccessPaths ts _ _ _ _ _ hresults best (by simp)).1
  returns := by
    intro hknown
    obtain ⟨results, hresults⟩ :=
      total_findFieldAccessPaths hknown TypeSystem.searchLevels _ base hbase.1 input.offset []
    exact ⟨_, (returns_iff hbase).mpr ⟨results, hresults, rfl⟩⟩

/-- Ten integers, and integers without end behind them. -/
def numbers : SootType :=
  { SootType.structureType "" "numbers" with
    fields := some [⟨"data", .ofName "int32", 0, false, false, true, 10, 4⟩,
      ⟨"more", .ofName "int32", 40, false, true, true, 0, 4⟩] }

/-- The types of that structure. -/
def numberTypes : TypeSystem :=
  ⟨[("int32", .valueType "" "int32" 4 true false), ("numbers", numbers)], []⟩

/-- A request for an integer of the structure, or for its address. -/
def numberAt (offset : ℤ) (load : Bool) : FieldReverseLookupInput :=
  ⟨if load then some ⟨false, 4, true, .GPR_64⟩ else none, offset, 0, .ofName "numbers"⟩

theorem numberAt_base (offset : ℤ) (load : Bool) :
    StructureBase numberTypes (numberAt offset load) numbers := ⟨rfl, rfl⟩

/-- The fifth integer is found. -/
theorem lookupSearches_numbers :
    LookupSearches numberTypes (fun _ => none) (numberAt 20 true) numbers :=
  lookupSearches numberTypes (fun _ => none) (numberAt 20 true) numbers (numberAt_base 20 true)

theorem offset_of_data {n : ℕ} {path : List PathToken} {o : ℤ} {type : TypeSpec}
    (h : PathReaches numberTypes .exact n numbers path o type)
    (hpath : path = [.field "data", .constantIdx 0]) : o = 0 := by
  have hfield {fields : List Field} {f : Field} (hfields : numbers.fields = some fields)
      (hf : f ∈ fields) : (f.name = "data" ∧ f.offset = 0 ∨ f.name = "more") ∧
        f.isArray = true ∧ f.isInline = false := by
    obtain rfl := Option.some.inj hfields
    simp only [List.mem_cons, List.not_mem_nil, or_false] at hf
    rcases hf with rfl | rfl <;> simp
  cases h with
  | field hfields hf hsingle =>
    rw [(hfield hfields hf).2.1] at hsingle
    cases hsingle
  | element hfields hf harray hdynamic hu hk hr hbyte =>
    simp only [List.cons.injEq, PathToken.field.injEq, PathToken.constantIdx.injEq, and_true]
      at hpath
    obtain ⟨hname, rfl⟩ := hpath
    have hoffset := (hfield hfields hf).1
    simp only [hname, true_and, String.reduceEq, or_false] at hoffset
    rcases hbyte with rfl | ⟨hevery, -⟩
    · simpa using hoffset
    · cases hevery
  | inside hfields hf hsingle hinline hu hstructure hnested ho =>
    rw [(hfield hfields hf).2.2] at hinline
    cases hinline
  | insideElement hfields hf harray hdynamic hinline hu hk hstructure hnested ho =>
    rw [(hfield hfields hf).2.2] at hinline
    cases hinline
  | inherited hparent hp hstructure hnested => cases hparent

theorem more_reaches : PathReaches numberTypes .exact 1 numbers [.field "more", .constantIdx 1] 44
    (.ofName "int32") :=
  .element (f := ⟨"more", .ofName "int32", 40, false, true, true, 0, 4⟩)
    (u := .valueType "" "int32" 4 true false) (r := 0) rfl (by simp) rfl (fun _ => rfl) rfl
    ⟨by decide, nofun⟩ (by decide) (.inl rfl)

/-- A path that is returned can stop short of the offset, whatever access is requested, and an
element of a dynamic array is not found. -/
theorem not_reverseLookup :
    (¬ ∀ ts bitFields input base, StructureBase ts input base →
      ReachesOffset ts bitFields input base) ∧
    (¬ ∀ ts bitFields input base, StructureBase ts input base →
      RespectsKind ts bitFields input) ∧
    ¬ ∀ ts bitFields input base, StructureBase ts input base →
      FindsPath ts bitFields input base := by
  refine ⟨fun h => ?_, fun h => ?_, fun h => ?_⟩
  · have hdata : Returns numberTypes (fun _ => none) (numberAt 2 true)
        (.found (.ofName "int32") [.field "data", .constantIdx 0]) := rfl
    obtain ⟨n, hpath⟩ := h _ _ _ _ (numberAt_base 2 true) _ hdata rfl
    exact absurd (offset_of_data hpath rfl) (by decide)
  · have hdata : Returns numberTypes (fun _ => none) (numberAt 0 false)
        (.found (.ofName "int32") [.field "data", .constantIdx 0]) := rfl
    have hkind := h _ _ _ _ (numberAt_base 0 false) _ hdata rfl
    cases hkind
  · have hkind : HasKind numberTypes (numberAt 44 true).deref (numberAt 44 true).deref.isNone
        (.ofName "int32") := ⟨rfl, _, rfl, rfl, rfl, by decide⟩
    obtain ⟨out, hreturns, hsuccess⟩ :=
      h numberTypes (fun _ => none) _ _ (numberAt_base 44 true) 1 _ _ more_reaches hkind
    have hnone : Returns numberTypes (fun _ => none) (numberAt 44 true) .failed := rfl
    obtain rfl := Except.ok.inj (hreturns.symm.trans hnone)
    cases hsuccess

end Soot.Analysis
