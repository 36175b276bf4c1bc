import Mathlib.Data.List.Infix
import Soot.Computation.Ancestry

/-!
# Common ancestors

In a forest given by a partial step upwards, an element is at or above another if it is on its
line. Two lines that end at the same root have a last common element, counted from the root; what
is at or above both elements is at or above that one, and nothing else is.
-/

set_option autoImplicit false

namespace Soot.Computation

variable {α : Type}

/-! ## The longest common prefix -/

section Prefix

variable [DecidableEq α]

def commonPrefix : List α → List α → List α
  | a :: as, b :: bs => if a = b then a :: commonPrefix as bs else []
  | _, _ => []

theorem isPrefix_commonPrefix_iff {p as bs : List α} :
    p <+: commonPrefix as bs ↔ p <+: as ∧ p <+: bs := by
  induction as generalizing p bs with
  | nil =>
    simp only [commonPrefix, List.prefix_nil, iff_self_and]
    rintro rfl
    exact List.nil_prefix
  | cons a as ih =>
    cases bs with
    | nil =>
      simp only [commonPrefix, List.prefix_nil, iff_and_self]
      rintro rfl
      exact List.nil_prefix
    | cons b bs =>
      cases p with
      | nil => simp
      | cons c p =>
        by_cases hab : a = b
        · subst hab
          simp only [commonPrefix, if_true, List.cons_prefix_cons, ih]
          constructor
          · rintro ⟨hc, ha, hb⟩
            exact ⟨⟨hc, ha⟩, hc, hb⟩
          · rintro ⟨⟨hc, ha⟩, _, hb⟩
            exact ⟨hc, ha, hb⟩
        · simp only [commonPrefix, if_neg hab, List.cons_prefix_cons, List.prefix_nil,
            reduceCtorEq, false_iff]
          rintro ⟨⟨rfl, _⟩, rfl, _⟩
          exact hab rfl

/-- The last element that two lists have in common from their start on. -/
def lastCommon (fallback : α) : List α → List α → α
  | a :: as, b :: bs => if a = b then lastCommon a as bs else fallback
  | _, _ => fallback

theorem lastCommon_eq (fallback : α) (as bs : List α) :
    lastCommon fallback as bs = (commonPrefix as bs).getLastD fallback := by
  induction as generalizing fallback bs with
  | nil => cases bs <;> rfl
  | cons a as ih =>
    cases bs with
    | nil => rfl
    | cons b bs =>
      by_cases hab : a = b
      · rw [lastCommon, commonPrefix, if_pos hab, if_pos hab, ih, List.getLastD_cons]
      · rw [lastCommon, commonPrefix, if_neg hab, if_neg hab]
        rfl

theorem lastCommon_comm (fallback : α) (as bs : List α) :
    lastCommon fallback as bs = lastCommon fallback bs as := by
  induction as generalizing fallback bs with
  | nil => cases bs <;> rfl
  | cons a as ih =>
    cases bs with
    | nil => rfl
    | cons b bs =>
      by_cases hab : a = b
      · rw [lastCommon, lastCommon, if_pos hab, if_pos hab.symm, ih, hab]
      · rw [lastCommon, lastCommon, if_neg hab, if_neg (Ne.symm hab)]

theorem lastCommon_singleton {root a : α} {bs : List α} (ha : a ∉ bs) :
    lastCommon root [a] bs = root := by
  cases bs with
  | nil => rfl
  | cons b bs => exact if_neg (List.ne_of_not_mem_cons ha)

end Prefix

/-! ## Elements above another -/

/-- The first element is the second or above it, on a line that ends. -/
def AtOrAbove (next : α → Option α) (u a : α) : Prop :=
  ∃ above, Ancestry next a above ∧ u ∈ a :: above

namespace AtOrAbove

variable {next : α → Option α} {a b c u : α} {above : List α}

theorem of_line (h : Ancestry next a above) : AtOrAbove next u a ↔ u ∈ a :: above := by
  constructor
  · rintro ⟨above', h', hu⟩
    rwa [h.unique h']
  · exact fun hu => ⟨above, h, hu⟩

theorem refl (h : Ancestry next a above) : AtOrAbove next a a :=
  ⟨above, h, List.mem_cons_self⟩

theorem line (h : Ancestry next a above) (hu : u ∈ a :: above) :
    ∃ rest, Ancestry next u rest ∧ (u :: rest) <:+ (a :: above) := by
  rcases List.mem_cons.mp hu with rfl | hu
  · exact ⟨above, h, List.suffix_refl _⟩
  · obtain ⟨rest, hrest, hsuffix⟩ := h.of_mem hu
    exact ⟨rest, hrest, List.IsSuffix.trans hsuffix (List.suffix_cons _ _)⟩

theorem trans (h : AtOrAbove next u b) (h' : AtOrAbove next b a) : AtOrAbove next u a := by
  obtain ⟨above, hline, hb⟩ := h'
  obtain ⟨rest, hrest, hsuffix⟩ := line hline hb
  exact ⟨above, hline, hsuffix.subset ((of_line hrest).mp h)⟩

theorem antisymm (h : AtOrAbove next a b) (h' : AtOrAbove next b a) : a = b := by
  obtain ⟨above, hline, hb⟩ := h'
  rcases List.mem_cons.mp hb with rfl | hb
  · rfl
  · obtain ⟨rest, hrest, hsuffix⟩ := hline.of_mem hb
    have ha : a ∈ above := hsuffix.subset ((of_line hrest).mp h)
    exact absurd ha hline.not_mem

theorem child (hnext : next a = some b) (h : AtOrAbove next u b) : AtOrAbove next u a := by
  obtain ⟨above, hline, hu⟩ := h
  exact ⟨b :: above, .child hnext hline, List.mem_cons_of_mem _ hu⟩

theorem cases_next (h : AtOrAbove next u a) :
    u = a ∨ ∃ b, next a = some b ∧ AtOrAbove next u b := by
  obtain ⟨above, hline, hu⟩ := h
  rcases List.mem_cons.mp hu with rfl | hu
  · exact .inl rfl
  · cases hline with
    | root _ => simp at hu
    | child hnext hrest => exact .inr ⟨_, hnext, _, hrest, hu⟩

end AtOrAbove

/-! ## The last common element -/

section Common

variable {next : α → Option α} {a b u : α} {as bs us : List α}

theorem suffix_line_iff (hu : Ancestry next u us) (ha : Ancestry next a as) :
    (u :: us) <:+ (a :: as) ↔ u ∈ a :: as := by
  constructor
  · exact fun h => h.subset List.mem_cons_self
  · intro h
    obtain ⟨rest, hrest, hsuffix⟩ := AtOrAbove.line ha h
    rwa [hu.unique hrest]

theorem Ancestry.of_suffix (ha : Ancestry next a as) (h : (u :: us) <:+ (a :: as)) :
    Ancestry next u us := by
  induction ha with
  | root hnone =>
    rcases List.suffix_cons_iff.mp h with heq | h
    · obtain ⟨rfl, rfl⟩ := List.cons.inj heq
      exact .root hnone
    · simp at h
  | child hnext hrest ih =>
    rcases List.suffix_cons_iff.mp h with heq | h
    · obtain ⟨rfl, rfl⟩ := List.cons.inj heq
      exact .child hnext hrest
    · exact ih h

variable [DecidableEq α]

/-- **The last common element of two lines is their meet**: if both end at the root, exactly what
is at or above both of their elements is at or above it. -/
theorem atOrAbove_lastCommon_iff {root : α} (ha : Ancestry next a as) (hb : Ancestry next b bs)
    (haroot : (a :: as).getLast (List.cons_ne_nil _ _) = root)
    (hbroot : (b :: bs).getLast (List.cons_ne_nil _ _) = root) (u : α) :
    AtOrAbove next u (lastCommon root (a :: as).reverse (b :: bs).reverse) ↔
      AtOrAbove next u a ∧ AtOrAbove next u b := by
  have hstart : ∀ p, p <+: commonPrefix (a :: as).reverse (b :: bs).reverse ↔
      p.reverse <:+ (a :: as) ∧ p.reverse <:+ (b :: bs) := by
    intro p
    rw [isPrefix_commonPrefix_iff, ← List.reverse_suffix, ← List.reverse_suffix,
      List.reverse_reverse, List.reverse_reverse]
  have hlast : ∀ (c : α) (cs : List α), (c :: cs).getLast (List.cons_ne_nil _ _) = root →
      [root].reverse <:+ (c :: cs) := by
    rintro c cs rfl
    exact ⟨(c :: cs).dropLast, List.dropLast_append_getLast (List.cons_ne_nil _ _)⟩
  rw [lastCommon_eq]
  generalize commonPrefix (a :: as).reverse (b :: bs).reverse = common at hstart ⊢
  have hroot : [root] <+: common := (hstart _).mpr ⟨hlast a as haroot, hlast b bs hbroot⟩
  obtain ⟨hca, hcb⟩ := (hstart common).mp (List.prefix_refl _)
  -- from its last element down the common prefix is the line of that element
  obtain ⟨m, ms, hm⟩ : ∃ m ms, common.reverse = m :: ms := by
    apply List.exists_cons_of_ne_nil
    rintro hnil
    rw [List.reverse_eq_nil_iff.mp hnil] at hroot
    simp at hroot
  have hmeet : common.getLastD root = m := by
    rw [List.reverse_eq_cons_iff.mp hm, List.getLastD_concat]
  rw [hm] at hca hcb
  rw [hmeet, AtOrAbove.of_line (ha.of_suffix hca), AtOrAbove.of_line ha, AtOrAbove.of_line hb]
  constructor
  · exact fun hu => ⟨hca.subset hu, hcb.subset hu⟩
  · rintro ⟨hua, hub⟩
    obtain ⟨us, hus, hsuffix⟩ := AtOrAbove.line ha hua
    have hcommon : (u :: us).reverse <+: common := by
      rw [hstart, List.reverse_reverse]
      exact ⟨hsuffix, (suffix_line_iff hus hb).mpr hub⟩
    rw [← List.reverse_suffix, List.reverse_reverse, hm] at hcommon
    exact hcommon.subset List.mem_cons_self

end Common

end Soot.Computation
