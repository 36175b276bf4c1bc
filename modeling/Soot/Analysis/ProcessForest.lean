import Mathlib.Data.Finset.Card
import Soot.Model.ProcessForest

/-!
# RespectsForest operations keep the forest of processes

Each operation on the links is described by what it leaves in them, and then shown to take one
forest to another. A kill is followed down the forest: the children of a process without a parent
are taken from it and killed one after another, until the process has none and is deleted.
-/

set_option autoImplicit false

namespace Soot.Analysis

open Soot.Program Soot.Model

variable {t t' : ProcessTree} {children : ℕ → List ℕ} {p c : ℕ}

/-! ## Lists of brothers -/

theorem brothers_head {l : List ℕ} (hl : Brothers t (some c) l) : ∃ r, l = c :: r := by
  cases l with
  | nil => cases hl
  | cons d l =>
    obtain ⟨hstart, -⟩ := hl
    cases hstart
    exact ⟨l, rfl⟩

theorem brothers_congr {start : Option ℕ} {l : List ℕ}
    (h : ∀ c ∈ l, (t'.links c).brother = (t.links c).brother) (hl : Brothers t start l) :
    Brothers t' start l := by
  induction l generalizing start with
  | nil => exact hl
  | cons c l ih =>
    obtain ⟨hstart, hrest⟩ := hl
    refine ⟨hstart, ?_⟩
    rw [h c List.mem_cons_self]
    exact ih (fun d hd => h d (.tail _ hd)) hrest

theorem seekChild_found {start : Option ℕ} {before after : List ℕ}
    (hl : Brothers t start (before ++ c :: after)) (hnew : c ∉ before)
    (hall : ∀ d ∈ before, d ∈ t.all) {n : ℕ} (hn : before.length < n) (prev : Option ℕ) :
    t.seekChild c n prev start = some (before.getLast?.or prev) := by
  induction before generalizing start n prev with
  | nil =>
    obtain ⟨rfl, -⟩ := hl
    obtain ⟨m, rfl⟩ := Nat.exists_eq_add_of_lt hn
    rw [List.length_nil, Nat.zero_add, ProcessTree.seekChild, if_pos rfl]
    rfl
  | cons d before ih =>
    obtain ⟨rfl, hrest⟩ := hl
    rw [List.mem_cons, not_or] at hnew
    obtain ⟨m, rfl⟩ := Nat.exists_eq_add_of_lt hn
    rw [ProcessTree.seekChild, if_neg (Ne.symm hnew.1), ProcessTree.get,
      if_pos (hall d List.mem_cons_self)]
    change t.seekChild c _ (some d) (t.links d).brother = _
    rw [ih hrest hnew.2 (fun e he => hall e (.tail _ he)) (by rw [List.length_cons]; omega),
      List.getLast?_cons]
    cases before.getLast? <;> rfl

theorem seekChild_absent {start : Option ℕ} {l : List ℕ} (hl : Brothers t start l) (hnew : c ∉ l)
    (hall : ∀ d ∈ l, d ∈ t.all) {n : ℕ} (hn : l.length < n) (prev : Option ℕ) :
    t.seekChild c n prev start = some none := by
  induction l generalizing start n prev with
  | nil =>
    obtain rfl : start = none := hl
    obtain ⟨m, rfl⟩ := Nat.exists_eq_add_of_lt hn
    rfl
  | cons d l ih =>
    obtain ⟨rfl, hrest⟩ := hl
    rw [List.mem_cons, not_or] at hnew
    obtain ⟨m, rfl⟩ := Nat.exists_eq_add_of_lt hn
    rw [ProcessTree.seekChild, if_neg (Ne.symm hnew.1), ProcessTree.get,
      if_pos (hall d List.mem_cons_self)]
    exact ih hrest hnew.2 (fun e he => hall e (.tail _ he)) (by rw [List.length_cons]; omega) _

theorem brothers_unlink {start : Option ℕ} {before after : List ℕ} {v : ℕ}
    (hl : Brothers t start (before ++ v :: c :: after))
    (hv : (t'.links v).brother = (t.links c).brother)
    (hother : ∀ d ∈ before ++ after, (t'.links d).brother = (t.links d).brother) :
    Brothers t' start (before ++ v :: after) := by
  induction before generalizing start with
  | nil =>
    obtain ⟨hstart, -, hafter⟩ := hl
    refine ⟨hstart, ?_⟩
    rw [hv]
    exact brothers_congr hother hafter
  | cons d before ih =>
    obtain ⟨hstart, hrest⟩ := hl
    refine ⟨hstart, ?_⟩
    rw [hother d List.mem_cons_self]
    exact ih hrest fun e he => hother e (.tail _ he)

/-! ## Order -/

theorem below_total {q a b : ℕ} (ha : Descends t q a) (hb : Descends t q b) :
    Descends t a b ∨ Descends t b a :=
  Relation.ReflTransGen.total_of_right_unique
    (fun _ _ _ hy hz => Option.some.inj (hy.symm.trans hz))
    ha hb

theorem transGen_mono {S : ℕ → Prop} {x y : ℕ} (hx : S x)
    (h : ∀ q, S q → ∀ r, ChildOf t' q r → S r ∧ ChildOf t q r)
    (hxy : Relation.TransGen (ChildOf t') x y) : Relation.TransGen (ChildOf t) x y ∧ S y := by
  induction hxy with
  | single hstep => exact ⟨.single (h x hx _ hstep).2, (h x hx _ hstep).1⟩
  | tail _ hstep ih =>
    obtain ⟨hold, hS⟩ := ih
    exact ⟨hold.tail (h _ hS _ hstep).2, (h _ hS _ hstep).1⟩

theorem below_mono {S : ℕ → Prop} {x y : ℕ} (hx : S x)
    (h : ∀ q, S q → ∀ r, ChildOf t' q r → S r ∧ ChildOf t q r) (hxy : Descends t' x y) :
    Descends t x y ∧ S y := by
  induction hxy with
  | refl => exact ⟨.refl, hx⟩
  | tail _ hstep ih =>
    obtain ⟨hold, hS⟩ := ih
    exact ⟨hold.tail (h _ hS _ hstep).2, (h _ hS _ hstep).1⟩

theorem below_root {x y : ℕ} (hx : (t.links x).parent = none) (h : Descends t x y) : y = x := by
  rcases h.cases_head with rfl | ⟨_, hstep, -⟩
  · rfl
  · rw [ChildOf, hx] at hstep
    cases hstep

end Soot.Analysis

namespace Soot.Model

open Soot.Program Soot.Analysis

variable {t : ProcessTree} {children : ℕ → List ℕ} {p : ℕ}

namespace Describes

theorem below_mem (h : Describes t children) {x y : ℕ} (hx : x ∈ t.all) (hxy : Descends t x y) :
    y ∈ t.all :=
  (below_mono (S := (· ∈ t.all)) hx (fun q hq r hr => ⟨h.parent_mem q hq r hr, hr⟩) hxy).2

theorem mem_all (h : Describes t children) (hp : p ∈ t.all) {d : ℕ} (hd : d ∈ children p) :
    d ∈ t.all := ((h.mem_children p hp d).mp hd).1

theorem childOf (h : Describes t children) (hp : p ∈ t.all) {d : ℕ} (hd : d ∈ children p) :
    ChildOf t d p := ((h.mem_children p hp d).mp hd).2

theorem length_children (h : Describes t children) (hp : p ∈ t.all) :
    (children p).length ≤ t.all.length :=
  ((h.nodup_children p hp).subperm fun _ hd => h.mem_all hp hd).length_le

theorem children_eq_nil (h : Describes t children) (hp : p ∈ t.all)
    (hchild : (t.links p).child = none) : children p = [] := by
  have hl := h.brothers p hp
  rw [hchild] at hl
  cases hc : children p with
  | nil => rfl
  | cons c cs =>
    rw [hc] at hl
    cases hl.1

theorem not_mem_children (h : Describes t children) {q : ℕ} (hp : p ∈ t.all) (hq : q ∈ t.all)
    (hpq : q ≠ p) {d : ℕ} (hd : d ∈ children p) : d ∉ children q := by
  intro hd'
  have hparent := (h.childOf hp hd).symm.trans (h.childOf hq hd')
  exact hpq (Option.some.inj hparent).symm

end Describes

end Soot.Model

namespace Soot.Analysis

open Soot.Program Soot.Model

variable {t t' : ProcessTree} {children : ℕ → List ℕ} {p c : ℕ}

/-! ## Adding a child -/

theorem addChild_links (hp : p ∈ t.all) (hc : c ∈ t.all) (hne : p ≠ c) :
    ∃ t', t.addChild p c = some t' ∧ t'.all = t.all ∧
      t'.links c = ⟨some p, (t.links c).child, (t.links p).child⟩ ∧
      t'.links p = { t.links p with child := some c } ∧
      ∀ q, q ≠ c → q ≠ p → t'.links q = t.links q := by
  refine ⟨{ t with links := Function.update (Function.update t.links c
    ⟨some p, (t.links c).child, (t.links p).child⟩) p { t.links p with child := some c } },
    ?_, rfl, ?_, ?_, ?_⟩
  · simp only [ProcessTree.addChild, ProcessTree.update, ProcessTree.get, hp, hc, if_true, bind,
      Option.bind, Function.update_of_ne hne, Function.update_self, Function.update_idem]
  · exact (Function.update_of_ne hne.symm _ _).trans (Function.update_self _ _ _)
  · exact Function.update_self _ _ _
  · intro q hqc hqp
    exact (Function.update_of_ne hqp _ _).trans (Function.update_of_ne hqc _ _)

theorem transGen_link {x y : ℕ} (hnew : ∀ q r, ChildOf t' q r → ChildOf t q r ∨ q = c ∧ r = p)
    (hpc : ¬Descends t p c) (h : Relation.TransGen (ChildOf t') x y) :
    Relation.TransGen (ChildOf t) x y ∨ Descends t x c ∧ Descends t p y := by
  induction h with
  | single hstep =>
    obtain hold | ⟨rfl, rfl⟩ := hnew _ _ hstep
    · exact .inl (.single hold)
    · exact .inr ⟨.refl, .refl⟩
  | tail _ hstep ih =>
    obtain hold | ⟨rfl, rfl⟩ := hnew _ _ hstep
    · obtain hpath | ⟨hx, hy⟩ := ih
      · exact .inl (hpath.tail hold)
      · exact .inr ⟨hx, hy.tail hold⟩
    · obtain hpath | ⟨-, hy⟩ := ih
      · exact .inr ⟨hpath.to_reflTransGen, .refl⟩
      · exact absurd hy hpc

theorem addChild_isForest (h : IsForest t) (hp : p ∈ t.all) (hc : c ∈ t.all)
    (hroot : (t.links c).parent = none) (hpc : ¬Descends t p c) :
    ∃ t', t.addChild p c = some t' ∧ IsForest t' := by
  obtain ⟨children, h⟩ := h
  have hne : p ≠ c := by
    rintro rfl
    exact hpc .refl
  obtain ⟨t', hadd, hall, hlinkC, hlinkP, hlink⟩ := addChild_links hp hc hne
  have hparent : ∀ q, q ≠ c → (t'.links q).parent = (t.links q).parent := by
    intro q hq
    by_cases hqp : q = p
    · rw [hqp, hlinkP]
    · rw [hlink q hq hqp]
  have hbrother : ∀ q, q ≠ c → (t'.links q).brother = (t.links q).brother := by
    intro q hq
    by_cases hqp : q = p
    · rw [hqp, hlinkP]
    · rw [hlink q hq hqp]
  have hout : ∀ q ∈ t.all, c ∉ children q := by
    intro q hq hmem
    have hchild := h.childOf hq hmem
    rw [ChildOf, hroot] at hchild
    cases hchild
  have hold : ∀ q ∈ t.all, ∀ start, Brothers t start (children q) →
      Brothers t' start (children q) := by
    intro q hq start
    refine brothers_congr fun d hd => hbrother d ?_
    rintro rfl
    exact hout q hq hd
  have hchildOf : ∀ q r, ChildOf t' q r ↔ ChildOf t q r ∨ q = c ∧ r = p := by
    intro q r
    by_cases hq : q = c
    · subst hq
      simp only [ChildOf, hlinkC, hroot, Option.some.injEq, reduceCtorEq, false_or, true_and]
      exact eq_comm
    · simp only [ChildOf, hparent q hq, hq, false_and, or_false]
  refine ⟨t', hadd, Function.update children p (c :: children p), ?_⟩
  constructor
  · rw [hall]
    exact h.nodup_all
  · intro q hq
    rw [hall] at hq
    by_cases hqp : q = p
    · subst hqp
      rw [Function.update_self, hlinkP]
      refine ⟨rfl, ?_⟩
      rw [hlinkC]
      exact hold q hq _ (h.brothers q hq)
    · rw [Function.update_of_ne hqp]
      have hchild : (t'.links q).child = (t.links q).child := by
        by_cases hqc : q = c
        · rw [hqc, hlinkC]
        · rw [hlink q hqc hqp]
      rw [hchild]
      exact hold q hq _ (h.brothers q hq)
  · intro q hq d
    rw [hall] at hq ⊢
    rw [hchildOf]
    by_cases hqp : q = p
    · subst hqp
      rw [Function.update_self, List.mem_cons, h.mem_children q hq]
      constructor
      · rintro (rfl | ⟨hd, hchild⟩)
        · exact ⟨hc, .inr ⟨rfl, rfl⟩⟩
        · exact ⟨hd, .inl hchild⟩
      · rintro ⟨hd, hchild | ⟨rfl, -⟩⟩
        · exact .inr ⟨hd, hchild⟩
        · exact .inl rfl
    · rw [Function.update_of_ne hqp, h.mem_children q hq]
      simp [hqp]
  · intro q hq
    rw [hall] at hq
    by_cases hqp : q = p
    · subst hqp
      rw [Function.update_self]
      exact List.nodup_cons.mpr ⟨hout q hq, h.nodup_children q hq⟩
    · rw [Function.update_of_ne hqp]
      exact h.nodup_children q hq
  · intro q hq r hchild
    rw [hall] at hq ⊢
    obtain hold | ⟨-, rfl⟩ := (hchildOf q r).mp hchild
    · exact h.parent_mem q hq r hold
    · exact hp
  · intro q hq hnone
    rw [hall] at hq
    by_cases hqc : q = c
    · rw [hqc, hlinkC] at hnone
      cases hnone
    · rw [hparent q hqc] at hnone
      rw [hbrother q hqc]
      exact h.root q hq hnone
  · intro q hq hcycle
    rw [hall] at hq
    obtain hold | ⟨hqc, hpq⟩ := transGen_link (fun q r => (hchildOf q r).mp) hpc hcycle
    · exact h.acyclic q hq hold
    · exact hpc (hpq.trans hqc)

/-! ## Removing a child -/

theorem removeChild_root (h : Describes t children) (hp : p ∈ t.all) (hc : c ∈ t.all)
    (hroot : (t.links c).parent = none) : t.removeChild p c = some t := by
  have hout : c ∉ children p := by
    intro hmem
    have hchild := h.childOf hp hmem
    rw [ChildOf, hroot] at hchild
    cases hchild
  have hfirst : (t.links p).child ≠ some c := by
    intro hfirst
    have hl := h.brothers p hp
    rw [hfirst] at hl
    obtain ⟨l, hchildren⟩ := brothers_head hl
    apply hout
    rw [hchildren]
    exact List.mem_cons_self
  have hseek := seekChild_absent (h.brothers p hp) hout (fun d hd => h.mem_all hp hd)
    (Nat.lt_succ_of_le (h.length_children hp)) none
  have hlinks : (⟨none, (t.links c).child, none⟩ : ProcessLinks) = t.links c := by
    cases hlinks : t.links c with
    | mk parent child brother =>
      have hbrother := h.root c hc hroot
      rw [hlinks] at hroot hbrother
      cases hroot
      cases hbrother
      rfl
  simp only [ProcessTree.removeChild, ProcessTree.update, ProcessTree.get, hp, hc, if_true, bind,
    Option.bind, if_neg hfirst, hseek, hlinks, Function.update_eq_self]

theorem removeChild_links {before after : List ℕ} (h : Describes t children) (hp : p ∈ t.all)
    (hchildren : children p = before ++ c :: after) :
    ∃ t', t.removeChild p c = some t' ∧ t'.all = t.all ∧
      (t'.links c).parent = none ∧ (t'.links c).brother = none ∧
      (∀ q, q ≠ c → (t'.links q).parent = (t.links q).parent) ∧
      (∀ q, q ≠ p → (t'.links q).child = (t.links q).child) ∧
      (∀ q, q ≠ c → q ∉ children p → (t'.links q).brother = (t.links q).brother) ∧
      Brothers t' (t'.links p).child (before ++ after) := by
  have hmem : c ∈ children p := by simp [hchildren]
  have hc := h.mem_all hp hmem
  have hne : p ≠ c := by
    rintro rfl
    exact h.acyclic p hp (.single (h.childOf hp hmem))
  have hnodup := h.nodup_children p hp
  have hl := h.brothers p hp
  rw [hchildren] at hnodup hl
  have hnew : c ∉ before := fun hcb =>
    List.disjoint_of_nodup_append hnodup hcb List.mem_cons_self
  have hnewAfter : c ∉ after := (List.nodup_cons.mp hnodup.of_append_right).1
  rcases List.eq_nil_or_concat' before with rfl | ⟨front, v, rfl⟩
  · obtain ⟨hfirst, hafter⟩ := hl
    refine ⟨{ t with links := Function.update (Function.update t.links p
      { t.links p with child := (t.links c).brother }) c ⟨none, (t.links c).child, none⟩ },
      ?_, rfl, ?_, ?_, ?_, ?_, ?_, ?_⟩
    · simp only [ProcessTree.removeChild, ProcessTree.update, ProcessTree.get, hp, hc, if_true,
        bind, Option.bind, hfirst, Function.update_of_ne hne.symm]
    · simp
    · simp
    · intro q hq
      by_cases hqp : q = p <;> simp [hq, hqp, hne]
    · intro q hq
      by_cases hqc : q = c <;> simp [hq, hqc]
    · intro q hq hout
      by_cases hqp : q = p <;> simp [hq, hqp, hne]
    · simp only [Function.update_of_ne hne, Function.update_self, List.nil_append]
      refine brothers_congr (fun d hd => ?_) hafter
      have hdc : d ≠ c := by
        rintro rfl
        exact hnewAfter hd
      by_cases hdp : d = p <;> simp [hdc, hdp, hne]
  · have hfirst : (t.links p).child ≠ some c := by
      intro hfirst
      rw [hfirst] at hl
      obtain ⟨l, hfront⟩ := brothers_head hl
      apply hnew
      cases front with
      | nil =>
        obtain ⟨rfl, -⟩ := List.cons.inj hfront
        exact List.mem_cons_self
      | cons e front =>
        obtain ⟨rfl, -⟩ := List.cons.inj hfront
        exact List.mem_cons_self
    have hv : v ∈ children p := by simp [hchildren]
    have hvAll := h.mem_all hp hv
    have hvc : v ≠ c := by
      rintro rfl
      exact hnew (by simp)
    have hseek : t.seekChild c (t.all.length + 1) none (t.links p).child = some (some v) := by
      have hlen := h.length_children hp
      rw [hchildren] at hlen
      rw [seekChild_found hl hnew (fun d hd => h.mem_all hp (by
        rw [hchildren]
        exact List.mem_append_left _ hd)) (by
        simp only [List.length_append, List.length_cons, List.length_nil] at hlen ⊢
        omega)]
      simp
    refine ⟨{ t with links := Function.update (Function.update t.links v
      { t.links v with brother := (t.links c).brother }) c ⟨none, (t.links c).child, none⟩ },
      ?_, rfl, ?_, ?_, ?_, ?_, ?_, ?_⟩
    · simp only [ProcessTree.removeChild, ProcessTree.update, ProcessTree.get, hp, hc, hvAll,
        if_true, bind, Option.bind, if_neg hfirst, hseek, Function.update_of_ne hvc.symm]
    · simp
    · simp
    · intro q hq
      by_cases hqv : q = v <;> simp [hq, hqv, hvc]
    · intro q hq
      by_cases hqc : q = c
      · simp [hqc]
      · by_cases hqv : q = v <;> simp [hqc, hqv, hvc]
    · intro q hq hout
      have hqv : q ≠ v := by
        rintro rfl
        exact hout hv
      simp [hq, hqv]
    · have hchild : (Function.update (Function.update t.links v
          { t.links v with brother := (t.links c).brother }) c
          ⟨none, (t.links c).child, none⟩ p).child = (t.links p).child := by
        by_cases hpv : p = v <;> simp [hne, hpv, hvc]
      rw [List.append_assoc] at hl hnodup ⊢
      rw [hchild]
      refine brothers_unlink hl ?_ ?_
      · simp [hvc]
      · intro d hd
        have hdc : d ≠ c := by
          rintro rfl
          rcases List.mem_append.mp hd with hd | hd
          · exact hnew (by simp [hd])
          · exact hnewAfter hd
        have hdv : d ≠ v := by
          rintro rfl
          simp only [List.singleton_append, List.nodup_append, List.nodup_cons, List.mem_cons,
            not_or] at hnodup
          rcases List.mem_append.mp hd with hd | hd
          · exact hnodup.2.2 d hd d (.inl rfl) rfl
          · exact hnodup.2.1.1.2 hd
        simp [hdc, hdv]

theorem removeChild_isForest (h : IsForest t) (hp : p ∈ t.all) (hc : c ∈ t.all)
    (hchild : ChildOf t c p) :
    ∃ t', t.removeChild p c = some t' ∧ IsForest t' ∧ t'.all = t.all ∧
      (t'.links c).parent = none ∧
      ∀ q, q ≠ c → (t'.links q).parent = (t.links q).parent := by
  obtain ⟨children, h⟩ := h
  have hmem : c ∈ children p := (h.mem_children p hp c).mpr ⟨hc, hchild⟩
  obtain ⟨before, after, hchildren⟩ := List.append_of_mem hmem
  obtain ⟨t', hremove, hall, hparentC, hbrotherC, hparent, hfirst, hbrother, hl⟩ :=
    removeChild_links h hp hchildren
  have hnodup := h.nodup_children p hp
  rw [hchildren] at hnodup
  have hsub : (before ++ after).Sublist (children p) := by
    rw [hchildren]
    exact (List.Sublist.refl _).append (List.sublist_cons_self _ _)
  have hnew : c ∉ before ++ after := by
    have hmiddle := List.nodup_middle.mp hnodup
    exact (List.nodup_cons.mp hmiddle).1
  have hchildOf : ∀ q r, ChildOf t' q r ↔ q ≠ c ∧ ChildOf t q r := by
    intro q r
    by_cases hqc : q = c
    · subst hqc
      simp [ChildOf, hparentC]
    · simp [ChildOf, hparent q hqc, hqc]
  refine ⟨t', hremove, ⟨Function.update children p (before ++ after), ?_⟩, hall, hparentC,
    hparent⟩
  constructor
  · rw [hall]
    exact h.nodup_all
  · intro q hq
    rw [hall] at hq
    by_cases hqp : q = p
    · subst hqp
      rw [Function.update_self]
      exact hl
    · rw [Function.update_of_ne hqp, hfirst q hqp]
      refine brothers_congr (fun d hd => ?_) (h.brothers q hq)
      apply hbrother
      · rintro rfl
        exact h.not_mem_children hp hq hqp hmem hd
      · exact h.not_mem_children hq hp (Ne.symm hqp) hd
  · intro q hq d
    rw [hall] at hq ⊢
    rw [hchildOf]
    by_cases hqp : q = p
    · subst hqp
      rw [Function.update_self]
      have hsplit : d ∈ children q ↔ d = c ∨ d ∈ before ++ after := by
        simp only [hchildren, List.mem_append, List.mem_cons]
        tauto
      constructor
      · intro hd
        have hdc : d ≠ c := by
          rintro rfl
          exact hnew hd
        obtain ⟨hdAll, hdChild⟩ := (h.mem_children q hq d).mp (hsplit.mpr (.inr hd))
        exact ⟨hdAll, hdc, hdChild⟩
      · rintro ⟨hdAll, hdc, hdChild⟩
        exact (hsplit.mp ((h.mem_children q hq d).mpr ⟨hdAll, hdChild⟩)).resolve_left hdc
    · rw [Function.update_of_ne hqp, h.mem_children q hq]
      constructor
      · rintro ⟨hd, hdChild⟩
        refine ⟨hd, ?_, hdChild⟩
        rintro rfl
        exact hqp (Option.some.inj (hdChild.symm.trans hchild))
      · rintro ⟨hd, -, hdChild⟩
        exact ⟨hd, hdChild⟩
  · intro q hq
    rw [hall] at hq
    by_cases hqp : q = p
    · subst hqp
      rw [Function.update_self]
      exact hsub.nodup (h.nodup_children q hq)
    · rw [Function.update_of_ne hqp]
      exact h.nodup_children q hq
  · intro q hq r hr
    rw [hall] at hq ⊢
    exact h.parent_mem q hq r ((hchildOf q r).mp hr).2
  · intro q hq hnone
    rw [hall] at hq
    by_cases hqc : q = c
    · rw [hqc, hbrotherC]
    · rw [hparent q hqc] at hnone
      have hout : q ∉ children p := by
        intro hmem
        have hq' := h.childOf hp hmem
        rw [ChildOf, hnone] at hq'
        cases hq'
      rw [hbrother q hqc hout]
      exact h.root q hq hnone
  · intro q hq hcycle
    rw [hall] at hq
    apply h.acyclic q hq
    exact Relation.TransGen.mono (fun x y hxy => ((hchildOf x y).mp hxy).2) _ _ hcycle

/-! ## New and deleted processes -/

theorem spawn_isForest (h : IsForest t) (hp : p ∉ t.all) :
    ∃ t', t.spawn p = some t' ∧ IsForest t' := by
  obtain ⟨children, h⟩ := h
  refine ⟨_, rfl, Function.update children p [], ?_⟩
  have hne : ∀ q ∈ t.all, q ≠ p := by
    rintro q hq rfl
    exact hp hq
  have hmem : ∀ q, q ∈ t.all ++ [p] ↔ q ∈ t.all ∨ q = p := by simp
  have hnone : ∀ r, ¬ChildOf ⟨t.all ++ [p], Function.update t.links p {}⟩ p r := by
    intro r hr
    simp [ChildOf] at hr
  have hchildOf : ∀ q ∈ t.all, ∀ r,
      ChildOf ⟨t.all ++ [p], Function.update t.links p {}⟩ q r ↔ ChildOf t q r := by
    intro q hq r
    simp [ChildOf, hne q hq]
  constructor
  · apply List.nodup_append.mpr
    exact ⟨h.nodup_all, List.nodup_singleton _, by
      intro q hq r hr
      rw [List.mem_singleton.mp hr]
      exact hne q hq⟩
  · intro q hq
    obtain hq | rfl := (hmem q).mp hq
    · simp only [Function.update_of_ne (hne q hq)]
      refine brothers_congr (fun d hd => ?_) (h.brothers q hq)
      simp [hne d (h.mem_all hq hd)]
    · simp only [Function.update_self]
      rfl
  · intro q hq d
    change d ∈ _ ↔ d ∈ t.all ++ [p] ∧ _
    rw [hmem]
    obtain hq | rfl := (hmem q).mp hq
    · rw [Function.update_of_ne (hne q hq), h.mem_children q hq]
      constructor
      · rintro ⟨hd, hchild⟩
        exact ⟨.inl hd, (hchildOf d hd q).mpr hchild⟩
      · rintro ⟨hd | rfl, hchild⟩
        · exact ⟨hd, (hchildOf d hd q).mp hchild⟩
        · exact absurd hchild (hnone q)
    · rw [Function.update_self]
      refine ⟨nofun, ?_⟩
      rintro ⟨hd | rfl, hchild⟩
      · exact absurd (h.parent_mem d hd q ((hchildOf d hd q).mp hchild)) hp
      · exact absurd hchild (hnone d)
  · intro q hq
    obtain hq | rfl := (hmem q).mp hq
    · rw [Function.update_of_ne (hne q hq)]
      exact h.nodup_children q hq
    · rw [Function.update_self]
      exact List.nodup_nil
  · intro q hq r hr
    apply (hmem r).mpr
    obtain hq | rfl := (hmem q).mp hq
    · exact .inl (h.parent_mem q hq r ((hchildOf q hq r).mp hr))
    · exact absurd hr (hnone r)
  · intro q hq hroot
    obtain hq | rfl := (hmem q).mp hq
    · simp only [Function.update_of_ne (hne q hq)] at hroot ⊢
      exact h.root q hq hroot
    · simp only [Function.update_self]
  · intro q hq hcycle
    obtain hq | rfl := (hmem q).mp hq
    · apply h.acyclic q hq
      refine (transGen_mono (S := (· ∈ t.all)) hq (fun x hx y hxy => ?_) hcycle).1
      have hold := (hchildOf x hx y).mp hxy
      exact ⟨h.parent_mem x hx y hold, hold⟩
    · obtain ⟨r, hr, -⟩ := Relation.TransGen.head'_iff.mp hcycle
      exact hnone r hr

theorem erase_isForest (h : IsForest t) (hp : p ∈ t.all) (hroot : (t.links p).parent = none)
    (hleaf : (t.links p).child = none) : IsForest { t with all := t.all.erase p } := by
  obtain ⟨children, h⟩ := h
  have hmem : ∀ q, q ∈ t.all.erase p ↔ q ≠ p ∧ q ∈ t.all := by
    intro q
    exact h.nodup_all.mem_erase_iff
  have hempty := h.children_eq_nil hp hleaf
  have hparent : ∀ q ∈ t.all, ∀ r, ChildOf t q r → r ≠ p := by
    rintro q hq r hr rfl
    have hq' := (h.mem_children r hp q).mpr ⟨hq, hr⟩
    rw [hempty] at hq'
    cases hq'
  refine ⟨children, ?_⟩
  constructor
  · exact h.nodup_all.erase p
  · intro q hq
    exact brothers_congr (t := t) (fun _ _ => rfl) (h.brothers q ((hmem q).mp hq).2)
  · intro q hq d
    have hqAll := ((hmem q).mp hq).2
    change _ ↔ d ∈ t.all.erase p ∧ ChildOf t d q
    rw [h.mem_children q hqAll, hmem]
    constructor
    · rintro ⟨hd, hchild⟩
      refine ⟨⟨?_, hd⟩, hchild⟩
      rintro rfl
      rw [ChildOf, hroot] at hchild
      cases hchild
    · rintro ⟨⟨-, hd⟩, hchild⟩
      exact ⟨hd, hchild⟩
  · intro q hq
    exact h.nodup_children q ((hmem q).mp hq).2
  · intro q hq r hr
    have hqAll := ((hmem q).mp hq).2
    exact (hmem r).mpr ⟨hparent q hqAll r hr, h.parent_mem q hqAll r hr⟩
  · intro q hq
    exact h.root q ((hmem q).mp hq).2
  · intro q hq
    exact h.acyclic q ((hmem q).mp hq).2

/-! ## Killing -/

open Classical in
/-- The live processes that are a process or are below it. -/
noncomputable def subtree (t : ProcessTree) (p : ℕ) : Finset ℕ :=
  t.all.toFinset.filter fun q => Descends t q p

theorem mem_subtree {q : ℕ} : q ∈ subtree t p ↔ q ∈ t.all ∧ Descends t q p := by
  simp [subtree]

theorem below_leaf (h : IsForest t) (hp : p ∈ t.all) (hleaf : (t.links p).child = none) {q : ℕ}
    (hq : q ∈ t.all) (hqp : Descends t q p) : q = p := by
  obtain ⟨children, h⟩ := h
  obtain rfl | ⟨r, hqr, hrp⟩ := hqp.cases_tail
  · rfl
  · have hr := (h.mem_children p hp r).mpr ⟨h.below_mem hq hqr, hrp⟩
    rw [h.children_eq_nil hp hleaf] at hr
    cases hr

theorem below_removed (hchild : ChildOf t c p) (hroot : (t'.links c).parent = none)
    (hparent : ∀ q, q ≠ c → (t'.links q).parent = (t.links q).parent) {q : ℕ} :
    Descends t q p ↔ Descends t' q p ∨ Descends t' q c := by
  have hold : ∀ {x y}, Descends t' x y → Descends t x y := by
    intro x y hxy
    refine Relation.ReflTransGen.mono (fun a b hab => ?_) _ _ hxy
    have hac : a ≠ c := by
      rintro rfl
      rw [ChildOf, hroot] at hab
      cases hab
    exact (hparent a hac).symm.trans hab
  constructor
  · intro hqp
    induction hqp using Relation.ReflTransGen.head_induction_on with
    | refl => exact .inl .refl
    | @head x y hxy _ ih =>
      by_cases hxc : x = c
      · rw [hxc]
        exact .inr .refl
      · have hnew : ChildOf t' x y := (hparent x hxc).trans hxy
        obtain ih | ih := ih
        · exact .inl (ih.head hnew)
        · exact .inr (ih.head hnew)
  · rintro (h | h)
    · exact hold h
    · exact (hold h).tail hchild

theorem below_survivor (h : IsForest t') (hparent : ∀ q ∈ t'.all,
    (t'.links q).parent = (t.links q).parent) {x y : ℕ} (hx : x ∈ t'.all) :
    Descends t' x y ↔ Descends t x y := by
  obtain ⟨children, h⟩ := h
  have hsteps : ∀ q ∈ t'.all, ∀ r, ChildOf t' q r ↔ ChildOf t q r := by
    intro q hq r
    rw [ChildOf, ChildOf, hparent q hq]
  constructor
  · intro hxy
    refine (below_mono (S := (· ∈ t'.all)) hx (fun q hq r hr => ?_) hxy).1
    exact ⟨h.parent_mem q hq r hr, (hsteps q hq r).mp hr⟩
  · intro hxy
    refine (below_mono (S := (· ∈ t'.all)) hx (fun q hq r hr => ?_) hxy).1
    have hnew := (hsteps q hq r).mpr hr
    exact ⟨h.parent_mem q hq r hnew, hnew⟩

/-- What is left of a forest after some of it is deleted. -/
structure Remains (t t' : ProcessTree) (deleted : ℕ → Prop) : Prop where
  forest : IsForest t'
  mem_all : ∀ q, q ∈ t'.all ↔ q ∈ t.all ∧ ¬deleted q
  parent : ∀ q ∈ t'.all, (t'.links q).parent = (t.links q).parent

/-- A process without a parent is killed with all that is below it, and before that all
its children are. By induction on the depth of the calls, which the size of what is below the
process bounds. -/
theorem killRecursive_remains (n : ℕ) :
    (∀ (t : ProcessTree) (p : ℕ), IsForest t → p ∈ t.all → (t.links p).parent = none →
      2 * (subtree t p).card ≤ n →
        ∃ t', t.killRecursive n p = some t' ∧ Remains t t' (Descends t · p)) ∧
    ∀ (t : ProcessTree) (p : ℕ), IsForest t → p ∈ t.all → (t.links p).parent = none →
      2 * (subtree t p).card ≤ n + 1 →
        ∃ t', t.killChildren n p = some t' ∧ (t'.links p).child = none ∧
          Remains t t' fun q => q ≠ p ∧ Descends t q p := by
  have hpos : ∀ (t : ProcessTree) (p : ℕ), p ∈ t.all → 0 < (subtree t p).card := by
    intro t p hp
    exact Finset.card_pos.mpr ⟨p, mem_subtree.mpr ⟨hp, .refl⟩⟩
  induction n with
  | zero =>
    constructor
    · intro t p _ hp _ hn
      have := hpos t p hp
      omega
    · intro t p _ hp _ hn
      have := hpos t p hp
      omega
  | succ n ih =>
    obtain ⟨ihKill, ihChildren⟩ := ih
    constructor
    · intro t p h hp hroot hn
      obtain ⟨t', hkill, hleaf, hforest, hall, hparent⟩ := ihChildren t p h hp hroot hn
      have hp' : p ∈ t'.all := (hall p).mpr ⟨hp, fun hne => hne.1 rfl⟩
      have hnodup : t'.all.Nodup := by
        obtain ⟨children, hdescribes⟩ := hforest
        exact hdescribes.nodup_all
      refine ⟨{ t' with all := t'.all.erase p }, ?_, ?_, ?_, ?_⟩
      · rw [ProcessTree.killRecursive, hkill]
        rfl
      · exact erase_isForest hforest hp' ((hparent p hp').trans hroot) hleaf
      · intro q
        change q ∈ t'.all.erase p ↔ _
        rw [hnodup.mem_erase_iff, hall]
        constructor
        · rintro ⟨hqp, hq, hout⟩
          exact ⟨hq, fun hbelow => hout ⟨hqp, hbelow⟩⟩
        · rintro ⟨hq, hout⟩
          refine ⟨?_, hq, fun hbelow => hout hbelow.2⟩
          rintro rfl
          exact hout .refl
      · intro q hq
        exact hparent q (List.mem_of_mem_erase hq)
    · intro t p h hp hroot hn
      rw [ProcessTree.killChildren]
      simp only [ProcessTree.get, hp, if_true]
      cases hchild : (t.links p).child with
      | none =>
        refine ⟨t, ?_, hchild, h, ?_, fun _ _ => rfl⟩
        · simp [hchild]
        · intro q
          constructor
          · intro hq
            exact ⟨hq, fun hbelow => hbelow.1 (below_leaf h hp hchild hq hbelow.2)⟩
          · exact And.left
      | some c =>
        obtain ⟨hc, hcp⟩ : c ∈ t.all ∧ ChildOf t c p := by
          obtain ⟨children, h⟩ := h
          have hl := h.brothers p hp
          rw [hchild] at hl
          obtain ⟨l, hchildren⟩ := brothers_head hl
          apply (h.mem_children p hp c).mp
          rw [hchildren]
          exact List.mem_cons_self
        have hne : p ≠ c := by
          rintro rfl
          rw [ChildOf, hroot] at hcp
          cases hcp
        obtain ⟨t₁, hremove, hforest₁, hall₁, hrootC, hparent₁⟩ := removeChild_isForest h hp hc hcp
        have hrootP : (t₁.links p).parent = none := (hparent₁ p hne).trans hroot
        have hsplit : ∀ q, Descends t q p ↔ Descends t₁ q p ∨ Descends t₁ q c := fun q =>
          below_removed hcp hrootC hparent₁
        have hdisjoint : ∀ q, ¬(Descends t₁ q p ∧ Descends t₁ q c) := by
          rintro q ⟨hqp, hqc⟩
          obtain hpc | hcp := below_total hqp hqc
          · exact hne (below_root hrootP hpc).symm
          · exact hne (below_root hrootC hcp)
        have hsize : (subtree t p).card = (subtree t₁ p).card + (subtree t₁ c).card := by
          rw [← Finset.card_union_of_disjoint]
          · congr 1
            ext q
            simp only [Finset.mem_union, mem_subtree, hall₁, hsplit]
            tauto
          · apply Finset.disjoint_left.mpr
            intro q hqp hqc
            exact hdisjoint q ⟨(mem_subtree.mp hqp).2, (mem_subtree.mp hqc).2⟩
        have hc₁ : c ∈ t₁.all := hall₁ ▸ hc
        have hp₁ : p ∈ t₁.all := hall₁ ▸ hp
        have hposC := hpos t₁ c hc₁
        have hposP := hpos t₁ p hp₁
        obtain ⟨t₂, hkill, hforest₂, hall₂, hparent₂⟩ :=
          ihKill t₁ c hforest₁ hc₁ hrootC (by omega)
        have hp₂ : p ∈ t₂.all := (hall₂ p).mpr ⟨hp₁, fun hpc => hdisjoint p ⟨.refl, hpc⟩⟩
        have hbelow₂ : ∀ q ∈ t₂.all, Descends t₂ q p ↔ Descends t₁ q p := fun q hq =>
          below_survivor hforest₂ hparent₂ hq
        have hsize₂ : (subtree t₂ p).card ≤ (subtree t₁ p).card := by
          apply Finset.card_le_card
          intro q hq
          obtain ⟨hq, hqp⟩ := mem_subtree.mp hq
          exact mem_subtree.mpr ⟨((hall₂ q).mp hq).1, (hbelow₂ q hq).mp hqp⟩
        obtain ⟨t₃, hrest, hleaf, hforest₃, hall₃, hparent₃⟩ :=
          ihChildren t₂ p hforest₂ hp₂ ((hparent₂ p hp₂).trans hrootP) (by omega)
        refine ⟨t₃, ?_, hleaf, hforest₃, ?_, ?_⟩
        · simp only [hchild, hremove, hkill, hrest, bind, Option.bind]
        · intro q
          rw [hall₃, hall₂, hall₁, hsplit]
          constructor
          · rintro ⟨⟨hq, hqc⟩, hout⟩
            refine ⟨hq, ?_⟩
            rintro ⟨hqp, hbelow | hbelow⟩
            · have hq₂ : q ∈ t₂.all := (hall₂ q).mpr ⟨hall₁.symm ▸ hq, hqc⟩
              exact hout ⟨hqp, (hbelow₂ q hq₂).mpr hbelow⟩
            · exact hqc hbelow
          · rintro ⟨hq, hout⟩
            have hqc : ¬Descends t₁ q c := by
              intro hbelow
              apply hout
              refine ⟨?_, .inr hbelow⟩
              rintro rfl
              exact hdisjoint q ⟨.refl, hbelow⟩
            refine ⟨⟨hq, hqc⟩, ?_⟩
            rintro ⟨hqp, hbelow⟩
            have hq₂ : q ∈ t₂.all := (hall₂ q).mpr ⟨hall₁.symm ▸ hq, hqc⟩
            exact hout ⟨hqp, .inl ((hbelow₂ q hq₂).mp hbelow)⟩
        · intro q hq
          have hq₂ := ((hall₃ q).mp hq).1
          have hqc : q ≠ c := by
            rintro rfl
            exact ((hall₂ q).mp hq₂).2 .refl
          rw [hparent₃ q hq, hparent₂ q hq₂, hparent₁ q hqc]

theorem kill_remains (h : IsForest t) (hroot : p ∈ t.all → (t.links p).parent = none) :
    ∃ t', t.kill p = some t' ∧ Remains t t' fun q => p ∈ t.all ∧ Descends t q p := by
  rw [ProcessTree.kill]
  by_cases hp : p ∈ t.all
  · have hsize : (subtree t p).card ≤ t.all.length := by
      refine (Finset.card_le_card fun q hq => ?_).trans (List.toFinset_card_le t.all)
      exact List.mem_toFinset.mpr (mem_subtree.mp hq).1
    obtain ⟨t', hkill, hforest, hall, hparent⟩ :=
      (killRecursive_remains (2 * t.all.length)).1 t p h hp (hroot hp) (by omega)
    refine ⟨t', ?_, hforest, ?_, hparent⟩
    · rw [if_pos hp, hkill]
    · intro q
      rw [hall]
      simp only [hp, true_and]
  · refine ⟨t, if_neg hp, h, ?_, fun _ _ => rfl⟩
    intro q
    simp only [hp, false_and, not_false_eq_true, and_true]

/-! ## Runs -/

theorem treeAfter_keeps {op : TreeOperation} (h : IsForest t) (hrespects : RespectsForest t op) :
    ∃ t', treeAfter t op = some t' ∧ IsForest t' ∧ DeletesExactly t t' op := by
  cases op with
  | spawn p =>
    obtain ⟨t', hspawn, hforest⟩ := spawn_isForest h hrespects
    exact ⟨t', hspawn, hforest, trivial⟩
  | addChild p child =>
    obtain ⟨hp, hc, hroot, hpc⟩ := hrespects
    obtain ⟨t', hadd, hforest⟩ := addChild_isForest h hp hc hroot hpc
    exact ⟨t', hadd, hforest, trivial⟩
  | removeChild p child =>
    obtain ⟨hp, hc, hroot | hchild⟩ := hrespects
    · obtain ⟨children, hdescribes⟩ := h
      exact ⟨t, removeChild_root hdescribes hp hc hroot, ⟨children, hdescribes⟩, trivial⟩
    · obtain ⟨t', hremove, hforest, -⟩ := removeChild_isForest h hp hc hchild
      exact ⟨t', hremove, hforest, trivial⟩
  | kill p =>
    obtain ⟨t', hkill, hforest, hall, -⟩ := kill_remains h hrespects
    exact ⟨t', hkill, hforest, hall⟩
  | dies p =>
    refine ⟨_, rfl, ?_, trivial⟩
    by_cases hp : p ∈ t.all
    · obtain ⟨hroot, hleaf⟩ := hrespects hp
      exact erase_isForest h hp hroot hleaf
    · rw [List.erase_of_not_mem hp]
      exact h

/-- In every run whose changes respect the forest they find, the links describe a forest in every
tree reached, and every kill deletes a process and what is below it. -/
theorem keepsForest_of_respects (ops : List TreeOperation) (h : IsForest t)
    (hrespects : RespectfulRun t ops) : KeepsForest t ops := by
  induction ops generalizing t with
  | nil => trivial
  | cons op ops ih =>
    obtain ⟨hop, hops⟩ := hrespects
    obtain ⟨t', hafter, hforest, hdeletes⟩ := treeAfter_keeps h hop
    exact ⟨t', hafter, hforest, hdeletes, ih hforest (hops t' hafter)⟩

theorem isForest_empty : IsForest {} :=
  ⟨fun _ => [], .nil, nofun, nofun, nofun, nofun, nofun, nofun⟩

/-- A process is created, becomes a child, is taken away and put back, and dies with its parent. -/
theorem keepsForest_family : KeepsForest {}
    [.spawn 1, .spawn 2, .addChild 1 2, .removeChild 1 2, .addChild 1 2, .kill 1] := by
  apply keepsForest_of_respects _ isForest_empty
  have hadd : ∀ t : ProcessTree, (t.links 1).parent = none → ¬Descends t 1 2 :=
    fun t hroot hbelow => absurd (below_root hroot hbelow) (by decide)
  refine ⟨List.not_mem_nil, ?_⟩
  rintro _ ⟨⟩
  refine ⟨show 2 ∉ [1] by decide, ?_⟩
  rintro _ ⟨⟩
  refine ⟨⟨by decide, by decide, rfl, hadd _ rfl⟩, ?_⟩
  rintro _ ⟨⟩
  refine ⟨⟨by decide, by decide, .inr rfl⟩, ?_⟩
  rintro _ ⟨⟩
  refine ⟨⟨by decide, by decide, rfl, hadd _ rfl⟩, ?_⟩
  rintro _ ⟨⟩
  refine ⟨fun _ => rfl, ?_⟩
  intro _ _
  trivial

/-- INTERNAL: a child that is killed is still the first child of its parent.
SRCLINE: Scheduler.cpp:117-148 -/
theorem not_keepsForest : ¬∀ (t : ProcessTree) (ops : List TreeOperation), IsForest t →
    KeepsForest t ops := by
  intro hkeeps
  obtain ⟨_, ⟨⟩, -, -, _, ⟨⟩, -, -, _, ⟨⟩, -, -, t', hkill, hforest, -⟩ :=
    hkeeps {} [.spawn 1, .spawn 2, .addChild 1 2, .kill 2] isForest_empty
  obtain ⟨children, h⟩ := hforest
  obtain ⟨hall, hchild⟩ : t'.all = [1] ∧ (t'.links 1).child = some 2 := by
    cases hkill
    exact ⟨rfl, rfl⟩
  have hmem : 1 ∈ t'.all := by simp [hall]
  have hl := h.brothers 1 hmem
  rw [hchild] at hl
  obtain ⟨l, hchildren⟩ := brothers_head hl
  have hdeleted := h.mem_all hmem (hchildren ▸ List.mem_cons_self)
  rw [hall] at hdeleted
  exact absurd hdeleted (by decide)

end Soot.Analysis
