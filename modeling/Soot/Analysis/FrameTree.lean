import Soot.Model.FrameTree

/-!
# Calls that keep the forest of stack frames

Attaching and detaching edit one list at its end, at its head or between two siblings, and what
`free_children` clears is what was below the frame, one list after another. A frame that is attached
while it is in a list stays in it: then it is in two lists, or the end of its list is linked to
itself.
-/

set_option autoImplicit false

namespace Soot.Analysis

open Soot.Computation Soot.Program Soot.Model

variable {s s' : FrameTree} {children : ℕ → List ℕ} {made : ℕ → Option ℕ} {c p : ℕ}

/-! ## Turns -/

section Turns

theorem lastSibling_succ {turns cursor last : ℕ}
    (h : s.lastSibling turns cursor = some last) :
    s.lastSibling (turns + 1) cursor = some last := by
  induction turns generalizing cursor with
  | zero => cases h
  | succ turns ih =>
    rw [FrameTree.lastSibling] at h ⊢
    cases hnext : (s cursor).nextSibling with
    | none =>
      rw [hnext] at h
      exact h
    | some next =>
      rw [hnext] at h
      exact ih h

theorem seekBefore_succ {turns : ℕ} {cursor before : Option ℕ}
    (h : s.seekBefore c turns cursor = some before) :
    s.seekBefore c (turns + 1) cursor = some before := by
  induction turns generalizing cursor with
  | zero => cases h
  | succ turns ih =>
    cases cursor with
    | none => exact h
    | some cursor =>
      rw [FrameTree.seekBefore] at h ⊢
      by_cases hnext : (s cursor).nextSibling = some c
      · rw [if_pos hnext] at h ⊢
        exact h
      · rw [if_neg hnext] at h ⊢
        exact ih h

theorem freeSiblings_some (turns child : ℕ) (s : FrameTree) :
    FrameTree.freeSiblings (turns + 1) (some child) s =
      (FrameTree.freeChildren turns child (s.modify child FrameTree.unlink)).bind fun below =>
        (FrameTree.freeSiblings turns (s child).nextSibling below.1).map fun rest =>
          (rest.1, below.2 ++ child :: rest.2) := by
  rw [FrameTree.freeSiblings]
  cases FrameTree.freeChildren turns child (s.modify child FrameTree.unlink) with
  | none => rfl
  | some below =>
    simp only [Option.bind_some, bind]
    cases FrameTree.freeSiblings turns (s child).nextSibling below.1 <;> rfl

theorem free_succ (turns : ℕ) :
    (∀ frame s result, FrameTree.freeChildren turns frame s = some result →
      FrameTree.freeChildren (turns + 1) frame s = some result) ∧
    ∀ start s result, FrameTree.freeSiblings turns start s = some result →
      FrameTree.freeSiblings (turns + 1) start s = some result := by
  induction turns with
  | zero =>
    refine ⟨fun frame s result h => ?_, fun start s result h => ?_⟩
    · cases h
    · cases h
  | succ turns ih =>
    obtain ⟨ihChildren, ihSiblings⟩ := ih
    refine ⟨fun frame s result h => ?_, fun start s result h => ?_⟩
    · rw [FrameTree.freeChildren] at h ⊢
      exact ihSiblings _ _ _ h
    · cases start with
      | none => exact h
      | some child =>
        rw [freeSiblings_some, Option.bind_eq_some_iff] at h ⊢
        obtain ⟨below, hbelow, h⟩ := h
        obtain ⟨rest, hrest, rfl⟩ := Option.map_eq_some_iff.mp h
        refine ⟨below, ihChildren _ _ _ hbelow, ?_⟩
        rw [ihSiblings _ _ _ hrest]
        rfl

theorem run_succ {turns : ℕ} {call : FrameCall} {result : FrameTree × List ℕ}
    (h : call.run turns s = some result) : call.run (turns + 1) s = some result := by
  cases call with
  | free frame => exact (free_succ turns).1 _ _ _ h
  | attach frame child =>
    cases child with
    | none => exact h
    | some child =>
      obtain ⟨t, ht, rfl⟩ := Option.map_eq_some_iff.mp h
      rw [FrameCall.run, FrameTree.attachChild]
      rw [FrameTree.attachChild] at ht
      split at ht
      · exact Option.map_eq_some_iff.mpr ⟨t, ht, rfl⟩
      · obtain ⟨cursor, hcursor, ht⟩ := Option.bind_eq_some_iff.mp ht
        apply Option.map_eq_some_iff.mpr
        exact ⟨t, Option.bind_eq_some_iff.mpr ⟨cursor, lastSibling_succ hcursor, ht⟩, rfl⟩
  | detach frame child =>
    cases child with
    | none => exact h
    | some child =>
      obtain ⟨t, ht, rfl⟩ := Option.map_eq_some_iff.mp h
      rw [FrameCall.run, FrameTree.detachChild, Option.map_eq_some_iff]
      rw [FrameTree.detachChild] at ht
      refine ⟨t, ?_, rfl⟩
      by_cases hfirst : (s frame).firstChild = some child
      · rw [if_pos hfirst] at ht ⊢
        exact ht
      · rw [if_neg hfirst] at ht ⊢
        obtain ⟨before, hbefore, ht⟩ := Option.bind_eq_some_iff.mp ht
        exact Option.bind_eq_some_iff.mpr ⟨before, seekBefore_succ hbefore, ht⟩

theorem run_mono {turns turns' : ℕ} {call : FrameCall} {result : FrameTree × List ℕ}
    (h : call.run turns s = some result) (hle : turns ≤ turns') :
    call.run turns' s = some result := by
  induction hle with
  | refl => exact h
  | step _ ih => exact run_succ ih

theorem frameStep_unique {call : FrameCall} {t t' : FrameTree} {exited exited' : List ℕ}
    (h : FrameStep s call t exited) (h' : FrameStep s call t' exited') :
    t = t' ∧ exited = exited' := by
  obtain ⟨turns, h⟩ := h
  obtain ⟨turns', h'⟩ := h'
  have hsome := (run_mono h (Nat.le_max_left turns turns')).symm.trans
    (run_mono h' (Nat.le_max_right turns turns'))
  exact Prod.mk.inj (Option.some.inj hsome)

theorem freeChildren_mono {turns turns' frame : ℕ} {result : FrameTree × List ℕ}
    (h : FrameTree.freeChildren turns frame s = some result) (hle : turns ≤ turns') :
    FrameTree.freeChildren turns' frame s = some result :=
  run_mono (show FrameCall.run turns s (.free frame) = some result from h) hle

theorem freeSiblings_mono {turns turns' : ℕ} {start : Option ℕ} {result : FrameTree × List ℕ}
    (h : FrameTree.freeSiblings turns start s = some result) (hle : turns ≤ turns') :
    FrameTree.freeSiblings turns' start s = some result := by
  induction hle with
  | refl => exact h
  | step _ ih => exact (free_succ _).2 _ _ _ ih

end Turns

/-! ## Lists of children -/

/-- The link of a frame to its next sibling. -/
def siblingOf (s : FrameTree) (c : ℕ) : Option ℕ := (s c).nextSibling

/-- The lists of children, which a call keeps in order while it works. -/
structure LinkedFrames (s : FrameTree) (children : ℕ → List ℕ) : Prop where
  threads : ∀ p, Threads (siblingOf s) (s p).firstChild (children p)
  nodup : ∀ p, (children p).Nodup
  parent : ∀ p, ∀ c ∈ children p, (s c).parent = some p

theorem modify_apply (s : FrameTree) (a : ℕ) (f : FrameLinks → FrameLinks) (q : ℕ) :
    s.modify a f q = if q = a then f (s a) else s q := Function.update_apply s a (f (s a)) q

section Assignments

variable (s : FrameTree) (a q : ℕ) (x : Option ℕ)

theorem setFirstChild_apply :
    ((s.modify a fun links => { links with firstChild := x }) q).parent = (s q).parent ∧
      siblingOf (s.modify a fun links => { links with firstChild := x }) q = siblingOf s q ∧
      ((s.modify a fun links => { links with firstChild := x }) q).firstChild =
        if q = a then x else (s q).firstChild := by
  rw [siblingOf, modify_apply]
  by_cases h : q = a
  · rw [if_pos h, if_pos h, h]
    exact ⟨rfl, rfl, rfl⟩
  · rw [if_neg h, if_neg h]
    exact ⟨rfl, rfl, rfl⟩

theorem setNextSibling_apply :
    ((s.modify a fun links => { links with nextSibling := x }) q).parent = (s q).parent ∧
      siblingOf (s.modify a fun links => { links with nextSibling := x }) q =
        (if q = a then x else siblingOf s q) ∧
      ((s.modify a fun links => { links with nextSibling := x }) q).firstChild =
        (s q).firstChild := by
  rw [siblingOf, modify_apply]
  by_cases h : q = a
  · rw [if_pos h, if_pos h, h]
    exact ⟨rfl, rfl, rfl⟩
  · rw [if_neg h, if_neg h]
    exact ⟨rfl, rfl, rfl⟩

theorem unlink_apply :
    (s.modify a FrameTree.unlink q).parent = (if q = a then none else (s q).parent) ∧
      siblingOf (s.modify a FrameTree.unlink) q = (if q = a then none else siblingOf s q) ∧
      (s.modify a FrameTree.unlink q).firstChild = (s q).firstChild := by
  rw [siblingOf, modify_apply]
  by_cases h : q = a
  · rw [if_pos h, if_pos h, if_pos h, h]
    exact ⟨rfl, rfl, rfl⟩
  · rw [if_neg h, if_neg h, if_neg h]
    exact ⟨rfl, rfl, rfl⟩

end Assignments

namespace LinkedFrames

theorem owned (h : LinkedFrames s children) : InOneList children := by
  intro p q c hp hq
  exact Option.some.inj ((h.parent p c hp).symm.trans (h.parent q c hq))

theorem congr_links (h : LinkedFrames s children)
    (hfirst : ∀ q, (s' q).firstChild = (s q).firstChild)
    (hlisted : ∀ q, ∀ d ∈ children q,
      siblingOf s' d = siblingOf s d ∧ (s' d).parent = (s d).parent) :
    LinkedFrames s' children where
  threads q := by
    rw [hfirst]
    exact threads_congr (fun d hd => (hlisted q d hd).1) (h.threads q)
  nodup := h.nodup
  parent q d hd := (hlisted q d hd).2.trans (h.parent q d hd)

theorem modify_loose (h : LinkedFrames s children) (hc : Loose children c)
    {f : FrameLinks → FrameLinks} (hf : ∀ links, (f links).firstChild = links.firstChild) :
    LinkedFrames (s.modify c f) children := by
  apply h.congr_links
  · intro q
    rw [modify_apply]
    by_cases hq : q = c
    · rw [if_pos hq, hf, hq]
    · rw [if_neg hq]
  · intro q d hd
    have hdc : d ≠ c := fun heq => hc q (heq ▸ hd)
    rw [siblingOf, siblingOf, modify_apply, if_neg hdc]
    exact ⟨rfl, rfl⟩

theorem emptied (h : LinkedFrames s children) (gone : List ℕ)
    (hgone : ∀ q ∈ gone, (s' q).firstChild = none)
    (hkept : ∀ q, q ∉ gone → (s' q).firstChild = (s q).firstChild ∧
      ∀ d ∈ children q, siblingOf s' d = siblingOf s d ∧ (s' d).parent = (s d).parent) :
    LinkedFrames s' fun q => if q ∈ gone then [] else children q where
  threads q := by
    by_cases hq : q ∈ gone
    · rw [if_pos hq]
      exact hgone q hq
    · rw [if_neg hq, (hkept q hq).1]
      exact threads_congr (fun d hd => ((hkept q hq).2 d hd).1) (h.threads q)
  nodup q := by
    by_cases hq : q ∈ gone
    · rw [if_pos hq]
      exact List.nodup_nil
    · rw [if_neg hq]
      exact h.nodup q
  parent q d hd := by
    by_cases hq : q ∈ gone
    · rw [if_pos hq] at hd
      cases hd
    · rw [if_neg hq] at hd
      exact ((hkept q hq).2 d hd).2.trans (h.parent q d hd)

theorem edited (h : LinkedFrames s children) {l : List ℕ}
    (hthreads : Threads (siblingOf s') (s' p).firstChild l) (hnodup : l.Nodup)
    (hparent : ∀ d ∈ l, (s' d).parent = some p)
    (hkept : ∀ q, q ≠ p → (s' q).firstChild = (s q).firstChild ∧
      ∀ d ∈ children q, siblingOf s' d = siblingOf s d ∧ (s' d).parent = (s d).parent) :
    LinkedFrames s' (Function.update children p l) where
  threads q := by
    by_cases hq : q = p
    · subst hq
      rw [Function.update_self]
      exact hthreads
    · rw [Function.update_of_ne hq, (hkept q hq).1]
      exact threads_congr (fun d hd => ((hkept q hq).2 d hd).1) (h.threads q)
  nodup q := by
    by_cases hq : q = p
    · subst hq
      rw [Function.update_self]
      exact hnodup
    · rw [Function.update_of_ne hq]
      exact h.nodup q
  parent q d hd := by
    by_cases hq : q = p
    · subst hq
      rw [Function.update_self] at hd
      exact hparent d hd
    · rw [Function.update_of_ne hq] at hd
      exact ((hkept q hq).2 d hd).2.trans (h.parent q d hd)

end LinkedFrames

/-! ## Attaching -/

theorem lastSibling_spec {l : List ℕ} {first : ℕ} (h : Threads (siblingOf s) (some first) l) :
    ∃ before last, l = before ++ [last] ∧ s.lastSibling l.length first = some last := by
  induction l generalizing first with
  | nil => exact absurd h (Option.some_ne_none first)
  | cons a l ih =>
    obtain rfl : first = a := Option.some.inj h.1
    cases l with
    | nil =>
      have hlast : (s first).nextSibling = none := h.2
      refine ⟨[], first, rfl, ?_⟩
      rw [List.length_singleton, FrameTree.lastSibling, hlast]
    | cons b l =>
      have hnext : (s first).nextSibling = some b := h.2.1
      have hrest : Threads (siblingOf s) (some b) (b :: l) := ⟨rfl, h.2.2⟩
      obtain ⟨before, last, hl, hwalk⟩ := ih hrest
      refine ⟨first :: before, last, by rw [hl, List.cons_append], ?_⟩
      rw [List.length_cons, FrameTree.lastSibling, hnext]
      exact hwalk

theorem attachChild_spec (h : LinkedFrames s children) (hc : Loose children c) (p : ℕ) :
    ∃ turns s', s.attachChild turns p (some c) = some s' ∧
      LinkedFrames s' (Function.update children p (children p ++ [c])) ∧
      (s' c).parent = some p ∧
      ∀ q, q ≠ c → (s' q).parent = (s q).parent ∧
        (Loose children q → (s' q).nextSibling = (s q).nextSibling) := by
  set s₁ := s.modify c fun links => { links with parent := some p, nextSibling := none } with hs₁
  have h₁ : LinkedFrames s₁ children := h.modify_loose hc fun _ => rfl
  have hchild : (s₁ c).parent = some p ∧ (s₁ c).nextSibling = none := by
    rw [hs₁, modify_apply, if_pos rfl]
    exact ⟨rfl, rfl⟩
  have hother : ∀ q, q ≠ c → s₁ q = s q := fun q hq => by rw [hs₁, modify_apply, if_neg hq]
  have hnodup : (children p ++ [c]).Nodup :=
    List.nodup_append.mpr ⟨h.nodup p, List.nodup_singleton c, fun a ha b hb => by
      rw [List.mem_singleton.mp hb]
      exact fun heq => hc p (heq ▸ ha)⟩
  have hparent : ∀ d ∈ children p ++ [c], (s₁ d).parent = some p := by
    intro d hd
    rcases List.mem_append.mp hd with hd | hd
    · exact h₁.parent p d hd
    · rw [List.mem_singleton.mp hd]
      exact hchild.1
  cases hfirst : (s₁ p).firstChild with
  | none =>
    have hnil : children p = [] := by
      have hthreads := h₁.threads p
      rw [hfirst] at hthreads
      exact threads_none hthreads
    have hsame := fun q => setFirstChild_apply s₁ p q (some c)
    refine ⟨0, s₁.modify p fun links => { links with firstChild := some c }, ?_, ?_, ?_, ?_⟩
    · rw [FrameTree.attachChild, ← hs₁, hfirst]
    · apply h₁.edited _ hnodup
      · intro d hd
        rw [(hsame d).1]
        exact hparent d hd
      · intro q hq
        refine ⟨?_, fun d _ => ⟨(hsame d).2.1, (hsame d).1⟩⟩
        rw [(hsame q).2.2, if_neg hq]
      · rw [(hsame p).2.2, if_pos rfl, hnil]
        exact ⟨rfl, (hsame c).2.1.trans hchild.2⟩
    · exact (hsame c).1.trans hchild.1
    · intro q hq
      have hsibling := (hsame q).2.1
      rw [siblingOf, siblingOf, hother q hq] at hsibling
      refine ⟨?_, fun _ => hsibling⟩
      rw [(hsame q).1, hother q hq]
  | some first =>
    have hthreads := h₁.threads p
    rw [hfirst] at hthreads
    obtain ⟨before, last, hl, hwalk⟩ := lastSibling_spec hthreads
    have hlast : last ∈ children p := by
      rw [hl]
      exact List.mem_append_right before List.mem_cons_self
    have hcl : c ≠ last := fun heq => hc p (heq ▸ hlast)
    have hsame := fun q => setNextSibling_apply s₁ last q (some c)
    refine ⟨(children p).length, s₁.modify last fun links => { links with nextSibling := some c },
      ?_, ?_, ?_, ?_⟩
    · rw [FrameTree.attachChild, ← hs₁, hfirst]
      exact Option.bind_eq_some_iff.mpr ⟨last, hwalk, rfl⟩
    · apply h₁.edited _ hnodup
      · intro d hd
        rw [(hsame d).1]
        exact hparent d hd
      · intro q hq
        refine ⟨(hsame q).2.2, fun d hd => ⟨?_, (hsame d).1⟩⟩
        have hne : d ≠ last := fun heq => hq (h₁.owned q p last (heq ▸ hd) hlast)
        rw [(hsame d).2.1, if_neg hne]
      · rw [(hsame p).2.2, hfirst, hl, List.append_assoc]
        rw [hl] at hthreads
        apply threads_replace hthreads
        · intro d hd
          have hne : d ≠ last := by
            rintro rfl
            have hdisjoint := (List.nodup_append.mp (hl ▸ h.nodup p)).2.2
            exact hdisjoint d hd d List.mem_cons_self rfl
          rw [(hsame d).2.1, if_neg hne]
        · rw [(hsame last).2.1, if_pos rfl]
          refine ⟨rfl, ?_⟩
          rw [(hsame c).2.1, if_neg hcl]
          exact hchild.2
    · exact (hsame c).1.trans hchild.1
    · intro q hq
      refine ⟨by rw [(hsame q).1, hother q hq], fun hloose => ?_⟩
      have hne : q ≠ last := fun heq => hloose p (heq ▸ hlast)
      have hsibling := (hsame q).2.1
      rw [if_neg hne, siblingOf, siblingOf, hother q hq] at hsibling
      exact hsibling

/-! ## Detaching -/

theorem seekBefore_found {start : Option ℕ} {before after : List ℕ} {z : ℕ}
    (h : Threads (siblingOf s) start (before ++ z :: c :: after)) (hc : c ∉ before ++ [z]) :
    s.seekBefore c (before.length + 1) start = some (some z) := by
  induction before generalizing start with
  | nil =>
    obtain ⟨rfl, hnext, -⟩ := h
    rw [List.length_nil, FrameTree.seekBefore]
    exact if_pos hnext
  | cons d before ih =>
    obtain ⟨rfl, hrest⟩ := h
    rw [List.cons_append, List.mem_cons, not_or] at hc
    have hnext : (s d).nextSibling ≠ some c := by
      intro hnext
      cases before with
      | nil =>
        have hz := hrest.1
        rw [siblingOf, hnext] at hz
        exact hc.2 (by rw [Option.some.inj hz]; exact List.mem_cons_self)
      | cons e before =>
        have he := hrest.1
        rw [siblingOf, hnext] at he
        exact hc.2 (by rw [Option.some.inj he]; exact List.mem_cons_self)
    rw [List.length_cons, FrameTree.seekBefore, if_neg hnext]
    exact ih hrest hc.2

theorem seekBefore_absent {start : Option ℕ} {l : List ℕ} (h : Threads (siblingOf s) start l)
    (hc : c ∉ l) : s.seekBefore c (l.length + 1) start = some none := by
  induction l generalizing start with
  | nil =>
    obtain rfl : start = none := h
    rfl
  | cons d l ih =>
    obtain ⟨rfl, hrest⟩ := h
    rw [List.mem_cons, not_or] at hc
    have hnext : (s d).nextSibling ≠ some c := by
      intro hnext
      rw [siblingOf, hnext] at hrest
      obtain ⟨rest, rfl, -⟩ := threads_some hrest
      exact hc.2 List.mem_cons_self
    rw [List.length_cons, FrameTree.seekBefore, if_neg hnext]
    exact ih hrest hc.2

theorem detachChild_absent (h : LinkedFrames s children) (hc : c ∉ children p) :
    s.detachChild ((children p).length + 1) p (some c) = some s := by
  have hfirst : (s p).firstChild ≠ some c := by
    intro hfirst
    have hthreads := h.threads p
    rw [hfirst] at hthreads
    obtain ⟨rest, hl, -⟩ := threads_some hthreads
    exact hc (by rw [hl]; exact List.mem_cons_self)
  rw [FrameTree.detachChild, if_neg hfirst, seekBefore_absent (h.threads p) hc]
  rfl

theorem detachChild_spec (h : LinkedFrames s children) (hc : c ∈ children p) :
    ∃ turns s', s.detachChild turns p (some c) = some s' ∧
      LinkedFrames s' (Function.update children p ((children p).erase c)) ∧
      (s' c).parent = none ∧ (s' c).nextSibling = none ∧
      ∀ q, q ≠ c → (s' q).parent = (s q).parent ∧
        (Loose children q → (s' q).nextSibling = (s q).nextSibling) := by
  obtain ⟨before, after, hl⟩ := List.append_of_mem hc
  have hnodup := h.nodup p
  rw [hl, List.nodup_append] at hnodup
  obtain ⟨hbefore, hafter, hdisjoint⟩ := hnodup
  have hcb : c ∉ before := fun hmem => hdisjoint c hmem c List.mem_cons_self rfl
  have hca := (List.nodup_cons.mp hafter).1
  have herase : (children p).erase c = before ++ after := by
    rw [hl, List.erase_append_right _ hcb, List.erase_cons_head]
  have hkept : (before ++ after).Nodup := by
    rw [← herase]
    exact (h.nodup p).erase c
  have hmem : ∀ d ∈ before ++ after, d ∈ children p ∧ d ≠ c := by
    intro d hd
    rw [← herase] at hd
    exact ⟨List.mem_of_mem_erase hd, fun heq => (h.nodup p).not_mem_erase (heq ▸ hd)⟩
  have hnot : ∀ q, q ≠ p → c ∉ children q := fun q hq hd => hq (h.owned q p c hd hc)
  have hthreads := h.threads p
  rw [hl] at hthreads
  rw [herase]
  rcases List.eq_nil_or_concat before with rfl | ⟨before, z, rfl⟩
  · -- The child is the first one.
    have hfirst : (s p).firstChild = some c := hthreads.1
    set s₁ := s.modify p fun links => { links with firstChild := (s c).nextSibling }
    have hsame := fun q => setFirstChild_apply s p q (s c).nextSibling
    have hcut := fun q => unlink_apply s₁ c q
    refine ⟨0, s₁.modify c FrameTree.unlink, ?_, ?_, ?_, ?_, ?_⟩
    · rw [FrameTree.detachChild, if_pos hfirst]
    · apply h.edited _ hkept
      · intro d hd
        rw [(hcut d).1, if_neg (hmem d hd).2, (hsame d).1]
        exact h.parent p d (hmem d hd).1
      · intro q hq
        refine ⟨?_, fun d hd => ?_⟩
        · rw [(hcut q).2.2, (hsame q).2.2, if_neg hq]
        · have hdc : d ≠ c := fun heq => hnot q hq (heq ▸ hd)
          rw [(hcut d).1, (hcut d).2.1, if_neg hdc, if_neg hdc]
          exact ⟨(hsame d).2.1, (hsame d).1⟩
      · rw [(hcut p).2.2, (hsame p).2.2, if_pos rfl]
        apply threads_congr _ hthreads.2
        intro d hd
        rw [(hcut d).2.1, if_neg (hmem d hd).2]
        exact (hsame d).2.1
    · rw [(hcut c).1, if_pos rfl]
    · exact (hcut c).2.1.trans (if_pos rfl)
    · intro q hq
      have hsibling := (hcut q).2.1.trans (if_neg hq)
      refine ⟨?_, fun _ => hsibling.trans (hsame q).2.1⟩
      rw [(hcut q).1, if_neg hq, (hsame q).1]
  · -- A sibling stands before the child.
    rw [List.concat_eq_append] at *
    rw [List.append_assoc] at hthreads hl
    have hz : z ∈ children p := by
      rw [hl]
      exact List.mem_append_right before List.mem_cons_self
    have hzc : z ≠ c := fun heq => hcb (heq ▸ List.mem_append_right before List.mem_cons_self)
    have hfirst : (s p).firstChild ≠ some c := by
      intro hfirst
      cases before with
      | nil => exact hzc (Option.some.inj (hthreads.1.symm.trans hfirst))
      | cons d before =>
        have hd : d = c := Option.some.inj (hthreads.1.symm.trans hfirst)
        exact hcb (hd ▸ List.mem_cons_self)
    set s₁ := s.modify z fun links => { links with nextSibling := (s c).nextSibling }
    have hsame := fun q => setNextSibling_apply s z q (s c).nextSibling
    have hcut := fun q => unlink_apply s₁ c q
    refine ⟨before.length + 1, s₁.modify c FrameTree.unlink, ?_, ?_, ?_, ?_, ?_⟩
    · rw [FrameTree.detachChild, if_neg hfirst, seekBefore_found hthreads hcb]
      rfl
    · apply h.edited _ hkept
      · intro d hd
        rw [(hcut d).1, if_neg (hmem d hd).2, (hsame d).1]
        exact h.parent p d (hmem d hd).1
      · intro q hq
        refine ⟨?_, fun d hd => ?_⟩
        · rw [(hcut q).2.2, (hsame q).2.2]
        · have hdc : d ≠ c := fun heq => hnot q hq (heq ▸ hd)
          have hdz : d ≠ z := fun heq => hq (h.owned q p z (heq ▸ hd) hz)
          rw [(hcut d).1, (hcut d).2.1, if_neg hdc, if_neg hdc, (hsame d).2.1, if_neg hdz]
          exact ⟨rfl, (hsame d).1⟩
      · rw [(hcut p).2.2, (hsame p).2.2, List.append_assoc]
        apply threads_replace hthreads
        · intro d hd
          have hdz : d ≠ z := by
            rintro rfl
            exact (List.nodup_append.mp hbefore).2.2 d hd d List.mem_cons_self rfl
          have hdc : d ≠ c := fun heq => hcb (heq ▸ List.mem_append_left [z] hd)
          rw [(hcut d).2.1, if_neg hdc, (hsame d).2.1, if_neg hdz]
        · rw [(hcut z).2.1, if_neg hzc, (hsame z).2.1, if_pos rfl]
          apply threads_congr _ (threads_append hthreads).2
          intro d hd
          have hdz : d ≠ z := by
            rintro rfl
            exact hdisjoint d (List.mem_append_right before List.mem_cons_self) d
              (List.mem_cons_of_mem c hd) rfl
          have hdc : d ≠ c := fun heq => hca (heq ▸ hd)
          rw [(hcut d).2.1, if_neg hdc, (hsame d).2.1, if_neg hdz]
    · rw [(hcut c).1, if_pos rfl]
    · exact (hcut c).2.1.trans (if_pos rfl)
    · intro q hq
      have hsibling := (hcut q).2.1.trans (if_neg hq)
      refine ⟨?_, fun hloose => ?_⟩
      · rw [(hcut q).1, if_neg hq, (hsame q).1]
      · have hqz : q ≠ z := fun heq => hloose p (heq ▸ hz)
        exact hsibling.trans ((hsame q).2.1.trans (if_neg hqz))

/-! ## Freeing -/

/-- `free_children` ends, clears what is below a frame and calls `exit` there, once each. -/
def FreesBelow (s : FrameTree) (children : ℕ → List ℕ) (f : ℕ) : Prop :=
  ∃ turns s' exited, FrameTree.freeChildren turns f s = some (s', exited) ∧ exited.Nodup ∧
    (∀ g, g ∈ exited ↔ Beneath children f g) ∧
    ∀ g, s' g = if g ∈ exited then {} else
      if g = f then { s f with firstChild := none } else s g

/-- The lists of children that are left when some are emptied. -/
def emptiedChildren (children : ℕ → List ℕ) (gone : List ℕ) (q : ℕ) : List ℕ :=
  if q ∈ gone then [] else children q

theorem mem_emptiedChildren {gone : List ℕ} {q d : ℕ} :
    d ∈ emptiedChildren children gone q ↔ q ∉ gone ∧ d ∈ children q := by
  unfold emptiedChildren
  split_ifs with hq
  · exact ⟨fun h => absurd h List.not_mem_nil, fun h => absurd hq h.1⟩
  · exact ⟨fun h => ⟨hq, h⟩, fun h => h.2⟩

theorem freeSiblings_spec {frames : List ℕ}
    (hchild : ∀ s children f, LinkedFrames s children →
      (∀ p, children p ≠ [] → p ∈ frames) → FreesBelow s children f)
    {l : List ℕ} {start : Option ℕ} {s : FrameTree} {children : ℕ → List ℕ}
    (h : LinkedFrames s children) (hframes : ∀ p, children p ≠ [] → p ∈ frames)
    (hthreads : Threads (siblingOf s) start l) (hnodup : l.Nodup)
    (hloose : ∀ c ∈ l, Loose children c) :
    ∃ turns s' exited, FrameTree.freeSiblings turns start s = some (s', exited) ∧
      exited.Nodup ∧ (∀ g, g ∈ exited ↔ ∃ c ∈ l, Within children c g) ∧
      ∀ g, s' g = if g ∈ exited then {} else s g := by
  induction l generalizing start s children with
  | nil =>
    obtain rfl : start = none := hthreads
    refine ⟨1, s, [], rfl, List.nodup_nil, fun g => ?_, fun g => ?_⟩
    · simp only [List.not_mem_nil, false_and, exists_false]
    · rw [if_neg List.not_mem_nil]
  | cons c l ih =>
    obtain ⟨rfl, hthreads⟩ := hthreads
    rw [List.nodup_cons] at hnodup
    have hc : Loose children c := hloose c List.mem_cons_self
    obtain ⟨turns₁, s₂, below, hrun₁, hnodup₁, hbelow, hs₂⟩ :=
      hchild (s.modify c FrameTree.unlink) children c (h.modify_loose hc fun _ => rfl) hframes
    -- The child and what is below it are cleared, nothing else is touched.
    have hwithin : ∀ g, g ∈ c :: below ↔ Within children c g := fun g => by
      rw [List.mem_cons, hbelow, within_iff]
    have hcleared : ∀ g, s₂ g = if g ∈ c :: below then {} else s g := by
      intro g
      rw [hs₂]
      by_cases hg : g ∈ below
      · rw [if_pos hg, if_pos (List.mem_cons_of_mem c hg)]
      · rw [if_neg hg]
        by_cases hgc : g = c
        · subst hgc
          rw [if_pos rfl, if_pos List.mem_cons_self, modify_apply, if_pos rfl]
          rfl
        · rw [if_neg hgc, modify_apply, if_neg hgc, if_neg]
          rw [List.mem_cons, not_or]
          exact ⟨hgc, hg⟩
    have hlinked : LinkedFrames s₂ (emptiedChildren children (c :: below)) := by
      apply h.emptied (c :: below)
      · intro q hq
        rw [hcleared, if_pos hq]
      · intro q hq
        refine ⟨by rw [hcleared, if_neg hq], fun d hd => ?_⟩
        have hd' : d ∉ c :: below := by
          intro hmem
          rcases (within_iff.mp ((hwithin d).mp hmem)) with rfl | hmem
          · exact hc q hd
          · obtain ⟨p, hp, hstep⟩ := Relation.TransGen.tail'_iff.mp hmem
            obtain rfl := h.owned p q d hstep hd
            exact hq ((hwithin p).mpr hp)
        rw [siblingOf, siblingOf, hcleared, if_neg hd']
        exact ⟨rfl, rfl⟩
    have hrest : ∀ d ∈ l, ∀ g, Within children d g → g ∉ c :: below := by
      intro d hd g hg hmem
      have heq := eq_of_within h.owned hc (hloose d (List.mem_cons_of_mem c hd))
        ((hwithin g).mp hmem) hg
      exact hnodup.1 (heq ▸ hd)
    have hempty : ∀ p, emptiedChildren children (c :: below) p ≠ [] → p ∈ frames := by
      intro p hp
      apply hframes p
      intro hnil
      apply hp
      rw [emptiedChildren, hnil, ite_self]
    obtain ⟨turns₂, s', exited, hrun₂, hnodup₂, hexited, hs'⟩ :=
      ih hlinked hempty
        (threads_congr (fun d hd => by
          rw [siblingOf, hcleared, if_neg (hrest d hd d .refl)]
          rfl) hthreads)
        hnodup.2 fun d hd q hq =>
          hloose d (List.mem_cons_of_mem c hd) q (mem_emptiedChildren.mp hq).2
    have hexited' : ∀ g, g ∈ exited ↔ ∃ d ∈ l, Within children d g := by
      intro g
      rw [hexited]
      refine exists_congr fun d => and_congr_right fun hd => ?_
      apply within_congr
      · intro p hp
        rw [emptiedChildren, if_neg (hrest d hd p hp)]
      · exact fun p e he => (mem_emptiedChildren.mp he).2
    refine ⟨max turns₁ turns₂ + 1, s', below ++ c :: exited, ?_, ?_, fun g => ?_, fun g => ?_⟩
    · rw [freeSiblings_some, freeChildren_mono hrun₁ (Nat.le_max_left _ _), Option.bind_some,
        show (s c).nextSibling = siblingOf s c from rfl,
        freeSiblings_mono hrun₂ (Nat.le_max_right _ _)]
      rfl
    · have hfresh : ∀ g ∈ exited, g ∉ c :: below := fun g hg => by
        obtain ⟨d, hd, hdg⟩ := (hexited' g).mp hg
        exact hrest d hd g hdg
      rw [List.nodup_append, List.nodup_cons]
      refine ⟨hnodup₁, ⟨fun hmem => hfresh c hmem List.mem_cons_self, hnodup₂⟩, ?_⟩
      rintro g hg g' hg' rfl
      rcases List.mem_cons.mp hg' with rfl | hg'
      · exact not_beneath_of_loose hc ((hbelow g).mp hg)
      · exact hfresh g hg' (List.mem_cons_of_mem c hg)
    · rw [List.mem_append, List.mem_cons, hexited', hbelow]
      simp only [List.mem_cons, exists_eq_or_imp, within_iff]
      exact or_left_comm.trans or_assoc.symm
    · rw [hs', hcleared]
      have hiff : g ∈ below ++ c :: exited ↔ g ∈ exited ∨ g ∈ c :: below := by
        rw [List.mem_append, List.mem_cons, List.mem_cons, ← or_assoc, or_comm,
          or_comm (a := g ∈ below)]
      by_cases hg : g ∈ exited
      · rw [if_pos hg, if_pos (hiff.mpr (.inl hg))]
      · rw [if_neg hg]
        by_cases hgc : g ∈ c :: below
        · rw [if_pos hgc, if_pos (hiff.mpr (.inr hgc))]
        · rw [if_neg hgc, if_neg fun hmem => (hiff.mp hmem).elim hg hgc]

theorem beneath_iff_within_emptied {f g : ℕ} :
    Beneath children f g ↔
      ∃ c ∈ children f, Within (emptiedChildren children [f]) c g := by
  rw [beneath_iff]
  constructor
  · rintro ⟨c, hc, hwithin⟩
    induction hwithin with
    | refl => exact ⟨c, hc, .refl⟩
    | @tail p g _ hstep ih =>
      by_cases hp : p = f
      · subst hp
        exact ⟨g, hstep, .refl⟩
      · obtain ⟨d, hd, hdp⟩ := ih
        refine ⟨d, hd, hdp.tail (mem_emptiedChildren.mpr ⟨?_, hstep⟩)⟩
        exact fun hmem => hp (List.mem_singleton.mp hmem)
  · rintro ⟨c, hc, hwithin⟩
    exact ⟨c, hc, Relation.ReflTransGen.mono
      (fun _ _ hd => (mem_emptiedChildren.mp hd).2) c g hwithin⟩

theorem freesBelow_leaf (h : LinkedFrames s children) {f : ℕ} (hf : children f = []) :
    FreesBelow s children f := by
  have hfirst : (s f).firstChild = none := by
    have hthreads := h.threads f
    rw [hf] at hthreads
    exact hthreads
  refine ⟨2, s.modify f fun links => { links with firstChild := none }, [], ?_, List.nodup_nil,
    fun g => ?_, fun g => ?_⟩
  · rw [FrameTree.freeChildren, hfirst]
    rfl
  · rw [beneath_iff, hf]
    simp only [List.not_mem_nil, false_and, exists_false]
  · rw [if_neg List.not_mem_nil, modify_apply]

/-- `free_children` clears exactly what is below the frame. The induction is on the number
of frames that may have children, of which the frame is one less when its list is taken from it. -/
theorem freesBelow (n : ℕ) {frames : List ℕ} (hn : frames.length ≤ n)
    (h : LinkedFrames s children) (hframes : ∀ p, children p ≠ [] → p ∈ frames) (f : ℕ) :
    FreesBelow s children f := by
  induction n generalizing frames s children f with
  | zero =>
    apply freesBelow_leaf h
    by_contra hf
    have hmem := hframes f hf
    rw [List.length_eq_zero_iff.mp (Nat.le_zero.mp hn)] at hmem
    cases hmem
  | succ n ih =>
    by_cases hf : children f = []
    · exact freesBelow_leaf h hf
    · have hfewer : (frames.filter (· ≠ f)).length ≤ n := by
        have hlt := List.length_filter_lt_length_iff_exists (p := fun q => decide (q ≠ f)).mpr
          ⟨f, hframes f hf, by simp⟩
        omega
      set s₁ := s.modify f fun links => { links with firstChild := none } with hs₁
      have hsame := fun q => setFirstChild_apply s f q none
      have hlinked : LinkedFrames s₁ (emptiedChildren children [f]) := by
        apply h.emptied [f]
        · intro q hq
          rw [(hsame q).2.2, if_pos (List.mem_singleton.mp hq)]
        · intro q hq
          rw [(hsame q).2.2, if_neg fun heq => hq (List.mem_singleton.mpr heq)]
          exact ⟨rfl, fun d _ => ⟨(hsame d).2.1, (hsame d).1⟩⟩
      have hkept : ∀ p, emptiedChildren children [f] p ≠ [] → p ∈ frames.filter (· ≠ f) := by
        intro p hp
        have hpf : p ≠ f := by
          rintro rfl
          exact hp (if_pos List.mem_cons_self)
        rw [List.mem_filter]
        refine ⟨hframes p fun hnil => hp ?_, decide_eq_true hpf⟩
        rw [emptiedChildren, hnil, ite_self]
      obtain ⟨turns, s', exited, hrun, hnodup, hexited, hs'⟩ :=
        freeSiblings_spec (fun s children f h hframes => ih hfewer h hframes f) hlinked hkept
          (threads_congr (fun d _ => (hsame d).2.1) (h.threads f)) (h.nodup f)
          (fun c hc q hq => by
            obtain ⟨hqf, hcq⟩ := mem_emptiedChildren.mp hq
            exact hqf (List.mem_singleton.mpr (h.owned q f c hcq hc)))
      refine ⟨turns + 1, s', exited, hrun, hnodup, fun g => ?_, fun g => ?_⟩
      · rw [hexited, beneath_iff_within_emptied]
      · rw [hs', hs₁, modify_apply]

/-! ## Calls -/

section Calls

variable {children' : ℕ → List ℕ} {exited : List ℕ}

theorem linkedFrames_of_describes (h : DescribesFrames made s children) :
    LinkedFrames s children := ⟨h.threads, h.nodup, h.parent⟩

theorem loose_of_attachesLoose (h : DescribesFrames made s children)
    (hcall : AttachesLoose s (.attach p (some c))) : Loose children c := by
  intro q hc
  obtain ⟨before, after, hl⟩ := List.append_of_mem hc
  have hthreads := h.threads q
  rw [hl] at hthreads
  rcases List.eq_nil_or_concat before with rfl | ⟨before, z, rfl⟩
  · exact (hcall q).1 hthreads.1
  · rw [List.concat_eq_append, List.append_assoc] at hthreads
    exact (hcall z).2 (next_eq_of_threads hthreads)

theorem attach_step (h : DescribesFrames made s children) (hc : Loose children c) (p : ℕ) :
    ∃ s' children', FrameStep s (.attach p (some c)) s' [] ∧ DescribesFrames made s' children' ∧
      ChangesChildren children children' [] (.attach p (some c)) := by
  obtain ⟨turns, s', hrun, hlinked, hparent, hother⟩ :=
    attachChild_spec (linkedFrames_of_describes h) hc p
  have hmem : ∀ q, Function.update children p (children p ++ [c]) q =
      if q = p then children p ++ [c] else children q :=
    fun q => Function.update_apply children p (children p ++ [c]) q
  have hold : ∀ q d, d ∈ children q →
      d ∈ Function.update children p (children p ++ [c]) q := by
    intro q d hd
    rw [hmem]
    by_cases hq : q = p
    · rw [if_pos hq]
      exact List.mem_append_left [c] (hq ▸ hd)
    · rw [if_neg hq]
      exact hd
  have hnew : c ∈ Function.update children p (children p ++ [c]) p := by
    rw [hmem, if_pos rfl]
    exact List.mem_append_right _ List.mem_cons_self
  refine ⟨s', _, ⟨turns, by rw [FrameCall.run, hrun]; rfl⟩, ?_, rfl⟩
  refine ⟨hlinked.threads, hlinked.nodup, hlinked.parent, fun d r hd => ?_, fun d hd => ?_, ?_⟩
  · by_cases hdc : d = c
    · subst hdc
      obtain rfl := Option.some.inj (hparent.symm.trans hd)
      exact .inl hnew
    · rw [(hother d hdc).1] at hd
      refine (h.listed d r hd).imp (hold r d) fun ⟨hloose, hmade⟩ => ⟨fun q hq => ?_, hmade⟩
      rw [hmem] at hq
      by_cases hqp : q = p
      · rw [if_pos hqp] at hq
        rcases List.mem_append.mp hq with hq | hq
        · exact hloose p hq
        · exact hdc (List.mem_singleton.mp hq)
      · rw [if_neg hqp] at hq
        exact hloose q hq
  · have hdc : d ≠ c := fun heq => hd p (heq ▸ hnew)
    have hloose : Loose children d := fun q hq => hd q (hold q d hq)
    exact ((hother d hdc).2 hloose).trans (h.unlinked d hloose)
  · obtain ⟨frames, hframes⟩ := h.finite
    refine ⟨p :: frames, fun q hq => ?_⟩
    rw [hmem] at hq
    by_cases hqp : q = p
    · rw [hqp]
      exact List.mem_cons_self
    · rw [if_neg hqp] at hq
      exact List.mem_cons_of_mem p (hframes q hq)

theorem detach_step (h : DescribesFrames made s children) (p c : ℕ) :
    ∃ s' children', FrameStep s (.detach p (some c)) s' [] ∧ DescribesFrames made s' children' ∧
      ChangesChildren children children' [] (.detach p (some c)) := by
  by_cases hc : c ∈ children p
  · obtain ⟨turns, s', hrun, hlinked, hparent, hsibling, hother⟩ :=
      detachChild_spec (linkedFrames_of_describes h) hc
    have hmem : ∀ q d, d ≠ c →
        (d ∈ Function.update children p ((children p).erase c) q ↔ d ∈ children q) := by
      intro q d hdc
      rw [Function.update_apply]
      by_cases hq : q = p
      · rw [if_pos hq, List.mem_erase_of_ne hdc, hq]
      · rw [if_neg hq]
    refine ⟨s', _, ⟨turns, by rw [FrameCall.run, hrun]; rfl⟩, ?_, rfl⟩
    refine ⟨hlinked.threads, hlinked.nodup, hlinked.parent, fun d r hd => ?_, fun d hd => ?_, ?_⟩
    · by_cases hdc : d = c
      · subst hdc
        exact absurd (hparent.symm.trans hd) (Option.some_ne_none r).symm
      · rw [(hother d hdc).1] at hd
        exact (h.listed d r hd).imp (hmem r d hdc).mpr fun ⟨hloose, hmade⟩ =>
          ⟨fun q hq => hloose q ((hmem q d hdc).mp hq), hmade⟩
    · by_cases hdc : d = c
      · rw [hdc]
        exact hsibling
      · have hloose : Loose children d := fun q hq => hd q ((hmem q d hdc).mpr hq)
        exact ((hother d hdc).2 hloose).trans (h.unlinked d hloose)
    · obtain ⟨frames, hframes⟩ := h.finite
      refine ⟨frames, fun q hq => hframes q fun hnil => hq ?_⟩
      rw [Function.update_apply]
      by_cases hqp : q = p
      · rw [if_pos hqp, ← hqp, hnil]
        rfl
      · rw [if_neg hqp, hnil]
  · refine ⟨s, children, ⟨(children p).length + 1, ?_⟩, h, ?_⟩
    · rw [FrameCall.run, detachChild_absent (linkedFrames_of_describes h) hc]
      rfl
    · rw [ChangesChildren, List.erase_of_not_mem hc, Function.update_eq_self]

theorem free_step (h : DescribesFrames made s children) (p : ℕ) :
    ∃ s' exited children', FrameStep s (.free p) s' exited ∧ DescribesFrames made s' children' ∧
      ChangesChildren children children' exited (.free p) := by
  obtain ⟨frames, hframes⟩ := h.finite
  have hlinks := linkedFrames_of_describes h
  obtain ⟨turns, s', exited, hrun, hnodup, hexited, hs'⟩ :=
    freesBelow frames.length (Nat.le_refl _) hlinks hframes p
  -- What is in a list that is emptied is cleared itself.
  have hgone : ∀ q ∈ p :: exited, ∀ d ∈ children q, d ∈ exited := by
    intro q hq d hd
    rw [hexited]
    rcases List.mem_cons.mp hq with rfl | hq
    · exact .single hd
    · exact ((hexited q).mp hq).tail hd
  have hback : ∀ q, q ∉ p :: exited → ∀ d ∈ children q, d ∉ exited := by
    intro q hq d hd hmem
    obtain ⟨r, hr, hstep⟩ := Relation.TransGen.tail'_iff.mp ((hexited d).mp hmem)
    obtain rfl := hlinks.owned r q d hstep hd
    apply hq
    rw [List.mem_cons, hexited]
    exact within_iff.mp hr
  have hkept : ∀ d, d ∉ exited → (s' d).parent = (s d).parent ∧ siblingOf s' d = siblingOf s d := by
    intro d hd
    rw [siblingOf, hs', if_neg hd]
    by_cases hdp : d = p
    · rw [if_pos hdp, hdp]
      exact ⟨rfl, rfl⟩
    · rw [if_neg hdp]
      exact ⟨rfl, rfl⟩
  have hlinked : LinkedFrames s' (emptiedChildren children (p :: exited)) := by
    apply hlinks.emptied (p :: exited)
    · intro q hq
      rw [hs']
      by_cases hqe : q ∈ exited
      · rw [if_pos hqe]
      · rw [if_neg hqe, if_pos ((List.mem_cons.mp hq).resolve_right hqe)]
    · intro q hq
      refine ⟨?_, fun d hd => (hkept d (hback q hq d hd)).symm⟩
      rw [List.mem_cons, not_or] at hq
      rw [hs', if_neg hq.2, if_neg hq.1]
  refine ⟨s', exited, emptiedChildren children (p :: exited), ⟨turns, hrun⟩, ?_, hnodup, hexited,
    ?_, ?_⟩
  · refine ⟨hlinked.threads, hlinked.nodup, hlinked.parent, fun d r hd => ?_, fun d hd => ?_, ?_⟩
    · have hde : d ∉ exited := by
        intro hde
        rw [hs', if_pos hde] at hd
        cases hd
      rw [(hkept d hde).1] at hd
      refine (h.listed d r hd).imp (fun hmem => ?_) fun ⟨hloose, hmade⟩ =>
        ⟨fun q hq => hloose q (mem_emptiedChildren.mp hq).2, hmade⟩
      exact mem_emptiedChildren.mpr ⟨fun hr => hde (hgone r hr d hmem), hmem⟩
    · by_cases hde : d ∈ exited
      · rw [hs', if_pos hde]
      · apply (hkept d hde).2.trans
        apply h.unlinked d
        intro q hq
        exact hd q (mem_emptiedChildren.mpr ⟨fun hmem => hde (hgone q hmem d hq), hq⟩)
    · refine ⟨frames, fun q hq => hframes q fun hnil => hq ?_⟩
      rw [emptiedChildren, hnil, ite_self]
  · intro q hq
    exact if_pos (List.mem_cons.mpr hq)
  · intro q hqp hqe
    exact if_neg fun hmem => (List.mem_cons.mp hmem).elim hqp hqe

theorem step_of_attachesLoose (h : DescribesFrames made s children) {call : FrameCall}
    (hcall : AttachesLoose s call) :
    ∃ s' exited children', FrameStep s call s' exited ∧ DescribesFrames made s' children' ∧
      ChangesChildren children children' exited call := by
  cases call with
  | free p => exact free_step h p
  | attach p child =>
    cases child with
    | none => exact ⟨s, [], children, ⟨0, rfl⟩, h, rfl⟩
    | some c =>
      obtain ⟨s', children', hstep⟩ := attach_step h (loose_of_attachesLoose h hcall) p
      exact ⟨s', [], children', hstep⟩
  | detach p child =>
    cases child with
    | none => exact ⟨s, [], children, ⟨0, rfl⟩, h, rfl⟩
    | some c =>
      obtain ⟨s', children', hstep⟩ := detach_step h p c
      exact ⟨s', [], children', hstep⟩

theorem lastSibling_mono {turns turns' cursor last : ℕ}
    (h : s.lastSibling turns cursor = some last) (hle : turns ≤ turns') :
    s.lastSibling turns' cursor = some last := by
  induction hle with
  | refl => exact h
  | step _ ih => exact lastSibling_succ ih

theorem nextSibling_of_lastSibling {turns cursor last : ℕ}
    (h : s.lastSibling turns cursor = some last) : siblingOf s last = none := by
  induction turns generalizing cursor with
  | zero => cases h
  | succ turns ih =>
    rw [FrameTree.lastSibling] at h
    cases hnext : (s cursor).nextSibling with
    | none =>
      rw [hnext] at h
      obtain rfl := Option.some.inj h
      exact hnext
    | some next =>
      rw [hnext] at h
      exact ih h

theorem exists_mem_of_linked (h : DescribesFrames made s children) {q : ℕ}
    (hlinked : (s q).firstChild = some c ∨ (s q).nextSibling = some c) :
    ∃ p, c ∈ children p := by
  rcases hlinked with hfirst | hnext
  · have hthreads := h.threads q
    rw [hfirst] at hthreads
    obtain ⟨rest, hl, -⟩ := threads_some hthreads
    exact ⟨q, by rw [hl]; exact List.mem_cons_self⟩
  · by_contra hnone
    have hq : ¬ Loose children q := fun hloose =>
      Option.some_ne_none c (hnext.symm.trans (h.unlinked q hloose))
    simp only [Loose, not_forall, not_not] at hq
    obtain ⟨p, hp⟩ := hq
    obtain ⟨before, after, hl⟩ := List.append_of_mem hp
    have hthreads := h.threads p
    rw [hl] at hthreads
    have hafter := threads_append hthreads
    rw [hnext] at hafter
    obtain ⟨rest, rfl, -⟩ := threads_some hafter
    refine hnone ⟨p, ?_⟩
    rw [hl]
    exact List.mem_append_right before (List.mem_cons_of_mem q List.mem_cons_self)

/-- A frame that is attached was in no list if the links describe a forest afterwards. Its
list goes on to it, so it is the list that it is attached to; and then it is the last frame there,
which is linked to itself. -/
theorem loose_of_attach_forest (h : DescribesFrames made s children)
    (h' : DescribesFrames made s' children')
    (hstep : FrameStep s (.attach p (some c)) s' exited) : Loose children c := by
  intro q hc
  obtain ⟨before, after, hl⟩ := List.append_of_mem hc
  have hthreads := h.threads q
  rw [hl] at hthreads
  have hcb : ∀ d ∈ before, d ≠ c := fun d hd heq =>
    (List.nodup_append.mp (hl ▸ h.nodup q)).2.2 d hd c List.mem_cons_self heq
  obtain ⟨turns, hstep⟩ := hstep
  obtain ⟨t, hrun, heq⟩ := Option.map_eq_some_iff.mp hstep
  obtain ⟨rfl, -⟩ := Prod.mk.inj heq
  rw [FrameTree.attachChild] at hrun
  set s₁ := s.modify c fun links => { links with parent := some p, nextSibling := none } with hs₁
  have hchild : (s₁ c).parent = some p ∧ siblingOf s₁ c = none := by
    rw [siblingOf, hs₁, modify_apply, if_pos rfl]
    exact ⟨rfl, rfl⟩
  have hfirst : ∀ r, (s₁ r).firstChild = (s r).firstChild := fun r => by
    rw [hs₁, modify_apply]
    by_cases hr : r = c
    · rw [if_pos hr, hr]
    · rw [if_neg hr]
  have hsibling : ∀ d ∈ before, siblingOf s₁ d = siblingOf s d := fun d hd => by
    rw [siblingOf, siblingOf, hs₁, modify_apply, if_neg (hcb d hd)]
  -- With the child's own link reset, its list ends with it.
  have hcut : Threads (siblingOf s₁) (s q).firstChild (before ++ [c]) :=
    threads_replace hthreads hsibling hchild.2
  have hkept : ∀ d ∈ before, siblingOf s₁ d ≠ none := by
    intro d hd
    obtain ⟨l, l', rfl⟩ := List.append_of_mem hd
    rw [List.append_assoc, List.cons_append] at hcut
    have hnext := threads_append hcut
    intro hnone
    rw [hnone] at hnext
    exact List.append_ne_nil_of_right_ne_nil l' (List.cons_ne_nil c []) (threads_none hnext)
  cases hp : (s₁ p).firstChild with
  | none =>
    rw [hp] at hrun
    obtain rfl := Option.some.inj hrun
    have hsame := fun r => setFirstChild_apply s₁ p r (some c)
    have hqp : q ≠ p := by
      rintro rfl
      rw [hfirst] at hp
      rw [hp] at hcut
      exact List.append_ne_nil_of_right_ne_nil before (List.cons_ne_nil c []) (threads_none hcut)
    have hthreads' := h'.threads q
    rw [(hsame q).2.2, if_neg hqp, hfirst] at hthreads'
    obtain ⟨rest, hrest⟩ := threads_common hcut (fun d _ => (hsame d).2.1) hthreads'
    have hmem : c ∈ children' q := by
      rw [hrest]
      exact List.mem_append_right before List.mem_cons_self
    have hparent := (hsame c).1.symm.trans (h'.parent q c hmem)
    exact hqp (Option.some.inj (hchild.1.symm.trans hparent)).symm
  | some first =>
    rw [hp] at hrun
    obtain ⟨last, hwalk, hrun⟩ := Option.bind_eq_some_iff.mp hrun
    obtain rfl := Option.some.inj hrun
    have hsame := fun r => setNextSibling_apply s₁ last r (some c)
    have hlast := nextSibling_of_lastSibling hwalk
    have hthreads' := h'.threads q
    rw [(hsame q).2.2, hfirst] at hthreads'
    obtain ⟨rest, hrest⟩ := threads_common hcut (fun d hd => by
      have hne : d ≠ last := fun heq => hkept d hd (heq ▸ hlast)
      exact (hsame d).2.1.trans (if_neg hne)) hthreads'
    have hmem : c ∈ children' q := by
      rw [hrest]
      exact List.mem_append_right before List.mem_cons_self
    have hparent := (hsame c).1.symm.trans (h'.parent q c hmem)
    obtain rfl := Option.some.inj (hchild.1.symm.trans hparent)
    -- The walk over the list of the child comes to the child itself.
    rw [hfirst] at hp
    rw [hp] at hcut
    obtain ⟨before', last', hl', hwalk'⟩ := lastSibling_spec hcut
    have hc' := (List.append_inj' hl' rfl).2
    have hlc : last = c := Option.some.inj
      ((lastSibling_mono hwalk (Nat.le_max_left _ _)).symm.trans
        ((lastSibling_mono hwalk' (Nat.le_max_right _ _)).trans
          (congrArg some (List.cons.inj hc').1.symm)))
    subst hlc
    rw [hrest] at hthreads'
    have hloop : Threads (siblingOf _) (siblingOf _ last) rest := threads_append hthreads'
    rw [(hsame last).2.1, if_pos rfl] at hloop
    obtain ⟨rest', rfl, -⟩ := threads_some hloop
    have hnodup := h'.nodup p
    rw [hrest, List.nodup_append] at hnodup
    exact (List.nodup_cons.mp hnodup.2.1).1 List.mem_cons_self

end Calls

/-! ## Runs -/

theorem describesFrames_empty : DescribesFrames (fun _ => none) (fun _ => {}) fun _ => [] where
  threads _ := rfl
  nodup _ := List.nodup_nil
  parent _ _ hc := absurd hc List.not_mem_nil
  listed _ _ hparent := absurd hparent.symm (Option.some_ne_none _)
  unlinked _ _ := rfl
  finite := ⟨[], fun _ hp => absurd rfl hp⟩

/-- The forest is kept by every call of a run exactly when every frame that is attached is in no
list then: `attach_child` resets the sibling of the child but does not take it out of the list that
it is in. SRCLINE: StackFrame.cpp:24-76 -/
theorem keepsFrames_iff (made : ℕ → Option ℕ) (s : FrameTree) (calls : List FrameCall)
    (h : IsFrameForest made s) : KeepsFrames made s calls ↔ LooseRun s calls := by
  induction calls generalizing s with
  | nil => exact Iff.rfl
  | cons call calls ih =>
    obtain ⟨children, h⟩ := h
    constructor
    · rintro ⟨⟨s', exited, hstep⟩, hall⟩
      refine ⟨?_, fun t exited ht => ?_⟩
      · obtain ⟨⟨_, children', -, h', -⟩, -⟩ := hall s' exited hstep
        cases call with
        | attach p child =>
          cases child with
          | none => exact trivial
          | some c =>
            have hloose := loose_of_attach_forest h h' hstep
            intro q
            rw [← not_or]
            intro hlinked
            obtain ⟨r, hr⟩ := exists_mem_of_linked h hlinked
            exact hloose r hr
        | detach p child => exact trivial
        | free p => exact trivial
      · obtain ⟨⟨_, children', -, h', -⟩, hrest⟩ := hall t exited ht
        exact (ih t ⟨children', h'⟩).mp hrest
    · rintro ⟨hcall, hall⟩
      obtain ⟨s', exited, children', hstep, h', hchanges⟩ := step_of_attachesLoose h hcall
      refine ⟨⟨s', exited, hstep⟩, fun t exited' ht => ?_⟩
      obtain ⟨rfl, rfl⟩ := frameStep_unique hstep ht
      exact ⟨⟨children, children', h, h', hchanges⟩,
        (ih s' ⟨children', h'⟩).mpr (hall s' exited hstep)⟩

theorem keepsFrames_attach_free :
    KeepsFrames (fun _ => none) (fun _ => {}) [.attach 1 (some 2), .free 1] :=
  (keepsFrames_iff _ _ _ ⟨_, describesFrames_empty⟩).mpr
    ⟨fun _ => ⟨(Option.some_ne_none 2).symm, (Option.some_ne_none 2).symm⟩,
      fun _ _ _ => ⟨trivial, fun _ _ _ => trivial⟩⟩

/-- Both frames 1 and 2 are given the child 3. SRCLINE: StackFrame.cpp:24-38 -/
theorem not_keepsFrames_two_parents :
    ¬ ∀ (made : ℕ → Option ℕ) (s : FrameTree) (calls : List FrameCall),
      IsFrameForest made s → KeepsFrames made s calls := by
  intro h
  obtain ⟨-, hfirst⟩ := h (fun _ => none) (fun _ => {}) [.attach 1 (some 3), .attach 2 (some 3)]
    ⟨_, describesFrames_empty⟩
  obtain ⟨-, -, hsecond⟩ := hfirst _ [] ⟨0, rfl⟩
  obtain ⟨⟨children, children', hone, htwo, -⟩, -⟩ := hsecond _ [] ⟨0, rfl⟩
  have hloose : Loose children 3 := loose_of_attach_forest (p := 2) hone htwo ⟨0, rfl⟩
  obtain ⟨rest, hl, -⟩ := threads_some (hone.threads 1)
  apply hloose 1
  rw [hl]
  exact List.mem_cons_self

end Soot.Analysis
