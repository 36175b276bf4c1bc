import Mathlib.Tactic.Common

/-!
# Computations whose state survives an exception

Computations that read and write a state and may throw, where what was written before the
exception stays written: `ExceptT ε (StateM σ)`. A run has an outcome and a final state either
way. A relation between states is *respected* by a computation when every run, whether it
returns or throws, relates the state before to the state after; the rules lift a reflexive and
transitive relation from the primitives of a development to what is built from them.
-/

set_option autoImplicit false

namespace Soot.Computation

/-- A computation on a state that keeps its state when it throws. -/
abbrev StatefulExcept (σ ε α : Type) := ExceptT ε (StateM σ) α

namespace StatefulExcept

variable {σ ε α β : Type}

def runFrom (x : StatefulExcept σ ε α) (s : σ) : Except ε α × σ := x s

@[simp] theorem runFrom_pure (a : α) (s : σ) :
    runFrom (pure a : StatefulExcept σ ε α) s = (.ok a, s) := rfl

@[simp] theorem runFrom_throw (e : ε) (s : σ) :
    runFrom (throw e : StatefulExcept σ ε α) s = (.error e, s) := rfl

@[simp] theorem runFrom_get (s : σ) :
    runFrom (get : StatefulExcept σ ε σ) s = (.ok s, s) := rfl

@[simp] theorem runFrom_modify (f : σ → σ) (s : σ) :
    runFrom (modify f : StatefulExcept σ ε PUnit) s = (.ok ⟨⟩, f s) := rfl

@[simp] theorem runFrom_set (s t : σ) :
    runFrom (set t : StatefulExcept σ ε PUnit) s = (.ok ⟨⟩, t) := rfl

@[simp] theorem runFrom_ofExcept (x : Except ε α) (s : σ) :
    runFrom (ofExcept x : StatefulExcept σ ε α) s = (x, s) := by
  cases x with
  | error e => rfl
  | ok a => rfl

theorem runFrom_bind (x : StatefulExcept σ ε α) (f : α → StatefulExcept σ ε β) (s : σ) :
    runFrom (x >>= f) s =
      match runFrom x s with
      | (.ok a, t) => runFrom (f a) t
      | (.error e, t) => (.error e, t) := by
  have hbind : runFrom (x >>= f) s =
      (fun p : Except ε α × σ => (ExceptT.bindCont f p.1 : StateM σ (Except ε β)) p.2) (x s) := rfl
  rw [hbind]
  show _ = (match x s with
    | (.ok a, t) => runFrom (f a) t
    | (.error e, t) => (.error e, t))
  rcases x s with ⟨e | a, t⟩
  · rfl
  · rfl

@[simp] theorem runFrom_tryCatch (x : StatefulExcept σ ε α) (handler : ε → StatefulExcept σ ε α)
    (s : σ) : runFrom (tryCatch x handler) s =
      match runFrom x s with
      | (.ok a, t) => (.ok a, t)
      | (.error e, t) => runFrom (handler e) t := by
  unfold runFrom
  change ExceptT.tryCatch x handler s = _
  simp only [ExceptT.tryCatch, ExceptT.mk, bind, StateT.bind]
  rcases x s with ⟨e | a, t⟩
  · rfl
  · rfl

theorem runFrom_bind_ok {x : StatefulExcept σ ε α} {f : α → StatefulExcept σ ε β} {s u : σ}
    {b : β} :
    runFrom (x >>= f) s = (.ok b, u) ↔
      ∃ a t, runFrom x s = (.ok a, t) ∧ runFrom (f a) t = (.ok b, u) := by
  rw [runFrom_bind]
  rcases runFrom x s with ⟨e | a, t⟩
  · simp
  · simp

/-! ## What runs keep -/

variable {R : σ → σ → Prop}

/-- Every run that returns relates the state before to the state after. -/
def Achieves (R : σ → σ → Prop) (x : StatefulExcept σ ε α) : Prop :=
  ∀ s a t, runFrom x s = (.ok a, t) → R s t

/-- Every run relates the state before to the state after, also when it throws. -/
def Respects (R : σ → σ → Prop) (x : StatefulExcept σ ε α) : Prop := ∀ s, R s (runFrom x s).2

theorem Respects.achieves {x : StatefulExcept σ ε α} (h : Respects R x) : Achieves R x := by
  intro s a t hrun
  have hs := h s
  rwa [hrun] at hs

theorem respects_pure (hrefl : ∀ s, R s s) (a : α) :
    Respects R (pure a : StatefulExcept σ ε α) := hrefl

theorem respects_throw (hrefl : ∀ s, R s s) (e : ε) :
    Respects R (throw e : StatefulExcept σ ε α) := hrefl

theorem respects_get (hrefl : ∀ s, R s s) : Respects R (get : StatefulExcept σ ε σ) := hrefl

theorem respects_modify {f : σ → σ} (h : ∀ s, R s (f s)) :
    Respects R (modify f : StatefulExcept σ ε PUnit) := h

theorem respects_bind (htrans : ∀ s t u, R s t → R t u → R s u) {x : StatefulExcept σ ε α}
    {f : α → StatefulExcept σ ε β} (hx : Respects R x) (hf : ∀ a, Respects R (f a)) :
    Respects R (x >>= f) := by
  intro s
  have hs := hx s
  rw [runFrom_bind]
  rcases hrun : runFrom x s with ⟨e | a, t⟩
  · rw [hrun] at hs
    exact hs
  · rw [hrun] at hs
    exact htrans _ _ _ hs (hf a t)

theorem respects_foldlM (hrefl : ∀ s, R s s) (htrans : ∀ s t u, R s t → R t u → R s u)
    {f : β → α → StatefulExcept σ ε β} (hf : ∀ b a, Respects R (f b a)) (l : List α) (b : β) :
    Respects R (l.foldlM f b) := by
  induction l generalizing b with
  | nil => exact respects_pure hrefl b
  | cons a l ih =>
    rw [List.foldlM_cons]
    exact respects_bind htrans (hf b a) ih

theorem respects_forM (hrefl : ∀ s, R s s) (htrans : ∀ s t u, R s t → R t u → R s u)
    {f : α → StatefulExcept σ ε PUnit} (hf : ∀ a, Respects R (f a)) (l : List α) :
    Respects R (l.forM f) := by
  induction l with
  | nil => exact respects_pure hrefl _
  | cons a l ih =>
    change Respects R (f a >>= fun _ => l.forM f)
    exact respects_bind htrans (hf a) fun _ => ih

theorem achieves_pure (hrefl : ∀ s, R s s) (a : α) :
    Achieves R (pure a : StatefulExcept σ ε α) := (respects_pure hrefl a).achieves

theorem achieves_bind (htrans : ∀ s t u, R s t → R t u → R s u) {x : StatefulExcept σ ε α}
    {f : α → StatefulExcept σ ε β} (hx : Achieves R x) (hf : ∀ a, Achieves R (f a)) :
    Achieves R (x >>= f) := by
  intro s b u hrun
  obtain ⟨a, t, hrun, hrun'⟩ := runFrom_bind_ok.mp hrun
  exact htrans _ _ _ (hx s a t hrun) (hf a t b u hrun')

theorem achieves_foldlM (hrefl : ∀ s, R s s) (htrans : ∀ s t u, R s t → R t u → R s u)
    {f : β → α → StatefulExcept σ ε β} (hf : ∀ b a, Achieves R (f b a)) (l : List α) (b : β) :
    Achieves R (l.foldlM f b) := by
  induction l generalizing b with
  | nil => exact achieves_pure hrefl b
  | cons a l ih =>
    rw [List.foldlM_cons]
    exact achieves_bind htrans (hf b a) ih

theorem achieves_forM (hrefl : ∀ s, R s s) (htrans : ∀ s t u, R s t → R t u → R s u)
    {f : α → StatefulExcept σ ε PUnit} (hf : ∀ a, Achieves R (f a)) (l : List α) :
    Achieves R (l.forM f) := by
  induction l with
  | nil => exact achieves_pure hrefl _
  | cons a l ih =>
    change Achieves R (f a >>= fun _ => l.forM f)
    exact achieves_bind htrans (hf a) fun _ => ih

/-! ## What one run leaves -/

/-- Where a run from a state ends: at a result with a state, or at an exception with a state. -/
def Yields (x : StatefulExcept σ ε α) (s : σ) (Q : α → σ → Prop) (E : ε → σ → Prop) : Prop :=
  match runFrom x s with
  | (.ok a, t) => Q a t
  | (.error e, t) => E e t

/-- A condition is met before each round of a loop that is reached. -/
def Along (f : β → α → StatefulExcept σ ε β) (C : β → α → σ → Prop) : List α → β → σ → Prop
  | [], _, _ => True
  | a :: l, b, s => C b a s ∧ ∀ b' t, runFrom (f b a) s = (.ok b', t) → Along f C l b' t

variable {Q : α → σ → Prop} {E : ε → σ → Prop} {s : σ}

theorem yields_pure {a : α} (h : Q a s) : Yields (pure a : StatefulExcept σ ε α) s Q E := h

theorem yields_throw {e : ε} (h : E e s) : Yields (throw e : StatefulExcept σ ε α) s Q E := h

theorem yields_get {Q : σ → σ → Prop} (h : Q s s) :
    Yields (get : StatefulExcept σ ε σ) s Q E := h

theorem yields_modify {f : σ → σ} {Q : PUnit → σ → Prop} (h : Q ⟨⟩ (f s)) :
    Yields (modify f : StatefulExcept σ ε PUnit) s Q E := h

theorem yields_of_run {x : StatefulExcept σ ε α} {a : α} {t : σ} (hrun : runFrom x s = (.ok a, t))
    (h : Q a t) : Yields x s Q E := by
  unfold Yields
  rwa [hrun]

theorem Yields.error {x : StatefulExcept σ ε α} (h : Yields x s Q E) {e : ε} {t : σ}
    (hrun : runFrom x s = (.error e, t)) : E e t := by
  unfold Yields at h
  rwa [hrun] at h

theorem Yields.mono {Q' : α → σ → Prop} {x : StatefulExcept σ ε α} (h : Yields x s Q E)
    (hQ : ∀ a t, runFrom x s = (.ok a, t) → Q a t → Q' a t) : Yields x s Q' E := by
  unfold Yields at h ⊢
  rcases hrun : runFrom x s with ⟨e | a, t⟩
  · rw [hrun] at h
    exact h
  · rw [hrun] at h
    exact hQ a t hrun h

theorem yields_bind {x : StatefulExcept σ ε α} {f : α → StatefulExcept σ ε β}
    {Q : β → σ → Prop} (h : Yields x s (fun a t => Yields (f a) t Q E) E) :
    Yields (x >>= f) s Q E := by
  unfold Yields at h ⊢
  rw [runFrom_bind]
  rcases hrun : runFrom x s with ⟨e | a, t⟩
  · rw [hrun] at h
    exact h
  · rw [hrun] at h
    exact h

theorem yields_foldlM {f : β → α → StatefulExcept σ ε β} {C : β → α → σ → Prop}
    {I : β → σ → Prop} {E : ε → σ → Prop}
    (hstep : ∀ b a s, I b s → C b a s → Yields (f b a) s I E) (l : List α) {b : β} {s : σ}
    (hI : I b s) (hC : Along f C l b s) : Yields (l.foldlM f b) s I E := by
  induction l generalizing b s with
  | nil => exact yields_pure hI
  | cons a l ih =>
    rw [List.foldlM_cons]
    apply yields_bind
    apply (hstep b a s hI hC.1).mono
    intro b' t hrun hI'
    exact ih hI' (hC.2 b' t hrun)

theorem yields_forM {f : α → StatefulExcept σ ε PUnit} {C : α → σ → Prop} {I : σ → Prop}
    {E : ε → σ → Prop} (hstep : ∀ a s, I s → C a s → Yields (f a) s (fun _ => I) E) (l : List α)
    {s : σ} (hI : I s) (hC : Along (fun _ a => f a) (fun _ a => C a) l ⟨⟩ s) :
    Yields (l.forM f) s (fun _ => I) E := by
  induction l generalizing s with
  | nil => exact yields_pure hI
  | cons a l ih =>
    change Yields (f a >>= fun _ => l.forM f) s (fun _ => I) E
    apply yields_bind
    apply (hstep a s hI hC.1).mono
    intro b t hrun hI'
    exact ih hI' (hC.2 b t hrun)

end StatefulExcept

end Soot.Computation
