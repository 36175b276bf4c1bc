import Mathlib.Data.List.Basic

/-!
# Collecting results

A loop over a list that appends what each element gives to one list of results, and ends with the
first failure.
-/

set_option autoImplicit false

namespace Soot.Computation

variable {α β ε : Type*}

/-- What a function gives for the elements of a list, one after another. -/
def collect (g : α → Except ε (List β)) : List α → Except ε (List β)
  | [] => .ok []
  | a :: as =>
    match g a with
    | .error e => .error e
    | .ok bs =>
      match collect g as with
      | .error e => .error e
      | .ok cs => .ok (bs ++ cs)

variable {g : α → Except ε (List β)} {as : List α} {results : List β}

theorem collect_cons_ok {a : α} (h : collect g (a :: as) = .ok results) :
    ∃ bs cs, g a = .ok bs ∧ collect g as = .ok cs ∧ results = bs ++ cs := by
  unfold collect at h
  cases ha : g a with
  | error e => simp [ha] at h
  | ok bs =>
    cases has : collect g as with
    | error e => simp [ha, has] at h
    | ok cs => exact ⟨bs, cs, rfl, rfl, by simpa [ha, has, eq_comm] using h⟩

theorem exists_of_mem_collect (h : collect g as = .ok results) {b : β} (hb : b ∈ results) :
    ∃ a ∈ as, ∃ bs, g a = .ok bs ∧ b ∈ bs := by
  induction as generalizing results with
  | nil =>
    obtain rfl := Except.ok.inj h
    simp at hb
  | cons a as ih =>
    obtain ⟨bs, cs, ha, has, rfl⟩ := collect_cons_ok h
    rcases List.mem_append.mp hb with hb | hb
    · exact ⟨a, by simp, bs, ha, hb⟩
    · obtain ⟨a', ha', hrest⟩ := ih has hb
      exact ⟨a', by simp [ha'], hrest⟩

theorem subset_collect (h : collect g as = .ok results) {a : α} (ha : a ∈ as) :
    ∃ bs, g a = .ok bs ∧ bs ⊆ results := by
  induction as generalizing results with
  | nil => simp at ha
  | cons a' as ih =>
    obtain ⟨bs, cs, hfirst, hrest, rfl⟩ := collect_cons_ok h
    rcases List.mem_cons.mp ha with rfl | ha
    · exact ⟨bs, hfirst, List.subset_append_left bs cs⟩
    · obtain ⟨bs', hbs', hsub⟩ := ih hrest ha
      exact ⟨bs', hbs', fun b hb => List.mem_append_right bs (hsub hb)⟩

theorem collect_ok (h : ∀ a ∈ as, ∃ bs, g a = .ok bs) : ∃ results, collect g as = .ok results := by
  induction as with
  | nil => exact ⟨[], rfl⟩
  | cons a as ih =>
    obtain ⟨bs, ha⟩ := h a (by simp)
    obtain ⟨cs, has⟩ := ih fun a' ha' => h a' (by simp [ha'])
    exact ⟨bs ++ cs, by simp [collect, ha, has]⟩

end Soot.Computation
