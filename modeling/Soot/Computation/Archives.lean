import Mathlib.Tactic.Common

/-!
# Reading back what was written

Computations that write bytes to a stretch of memory, or read them from it, at a position that they
advance. `Transfers w r a` says that `w` writes bytes, the same ones wherever there is room for
them, that `r` reads as `a` wherever they stand, and that both advance by their number. The rules
put a transfer together from the transfers of its parts, in the order in which both sides name
them.
-/

set_option autoImplicit false

namespace Soot.Computation

structure Cursor where
  memory : List UInt8
  position : ℕ

abbrev Archived (ε α : Type) := StateT Cursor (Except ε) α

namespace Archived

variable {ε α β : Type}

def times (r : Archived ε α) : ℕ → Archived ε (List α)
  | 0 => pure []
  | n + 1 => do
    let a ← r
    return a :: (← times r n)

def each (w : α → Archived ε Unit) : List α → Archived ε Unit
  | [] => pure ()
  | a :: as => do
    w a
    each w as

def Writes (w : Archived ε Unit) (bytes : List UInt8) : Prop :=
  ∀ before room after, room.length = bytes.length →
    w ⟨before ++ room ++ after, before.length⟩ =
      .ok ((), ⟨before ++ bytes ++ after, before.length + bytes.length⟩)

def Reads (r : Archived ε α) (bytes : List UInt8) (a : α) : Prop :=
  ∀ before after, r ⟨before ++ bytes ++ after, before.length⟩ =
    .ok (a, ⟨before ++ bytes ++ after, before.length + bytes.length⟩)

def Transfers (w : Archived ε Unit) (r : Archived ε α) (a : α) : Prop :=
  ∃ bytes, Writes w bytes ∧ Reads r bytes a

def Fails (x : Archived ε α) : Prop := ∀ c, ∃ e, x c = .error e

/-! ## Sequences -/

theorem bind_of_ok {x : Archived ε α} {f : α → Archived ε β} {c c' : Cursor} {a : α}
    (h : x c = .ok (a, c')) : (x >>= f) c = f a c' := by
  change (x c >>= fun p => f p.1 p.2) = _
  rw [h]
  rfl

theorem bind_of_error {x : Archived ε α} {f : α → Archived ε β} {c : Cursor} {e : ε}
    (h : x c = .error e) : (x >>= f) c = .error e := by
  change (x c >>= fun p => f p.1 p.2) = _
  rw [h]
  rfl

theorem Writes.bind {w v : Archived ε Unit} {bytes more : List UInt8} (hw : Writes w bytes)
    (hv : Writes v more) : Writes (w >>= fun _ => v) (bytes ++ more) := by
  intro before room after hroom
  rw [List.length_append] at hroom
  have htake : (room.take bytes.length).length = bytes.length := by
    rw [List.length_take]
    omega
  have hdrop : (room.drop bytes.length).length = more.length := by
    rw [List.length_drop]
    omega
  have hfirst := hw before (room.take bytes.length) (room.drop bytes.length ++ after) htake
  have hsecond := hv (before ++ bytes) (room.drop bytes.length) after hdrop
  rw [← List.append_assoc, List.append_assoc before, List.take_append_drop] at hfirst
  rw [bind_of_ok hfirst]
  rw [List.length_append, List.append_assoc (before ++ bytes)] at hsecond
  rw [hsecond]
  simp only [List.append_assoc, List.length_append, Nat.add_assoc]

theorem Reads.bind {r : Archived ε α} {f : α → Archived ε β} {bytes more : List UInt8} {a : α}
    {b : β} (hr : Reads r bytes a) (hf : Reads (f a) more b) :
    Reads (r >>= f) (bytes ++ more) b := by
  intro before after
  have hfirst := hr before (more ++ after)
  have hsecond := hf (before ++ bytes) after
  simp only [List.append_assoc, List.length_append] at hfirst hsecond ⊢
  rw [bind_of_ok hfirst, hsecond, Nat.add_assoc]

theorem Writes.unique {w : Archived ε Unit} {bytes bytes' : List UInt8} (h : Writes w bytes)
    (h' : Writes w bytes') : bytes = bytes' := by
  have hlength : ∀ {l l' : List UInt8}, Writes w l → Writes w l' → l.length ≤ l'.length →
      l = l' := by
    intro l l' hl hl' hle
    have hshort := hl [] (List.replicate l.length 0) (List.replicate (l'.length - l.length) 0)
      List.length_replicate
    have hlong := hl' [] (List.replicate l'.length 0) [] List.length_replicate
    rw [List.nil_append, List.replicate_append_replicate, Nat.add_sub_cancel' hle] at hshort
    rw [List.nil_append, List.append_nil, hshort] at hlong
    simp only [Except.ok.injEq, Prod.mk.injEq, Cursor.mk.injEq, List.nil_append,
      List.append_nil, true_and] at hlong
    obtain ⟨hmemory, hposition⟩ := hlong
    have hequal : l.length = l'.length := by simpa using hposition
    rwa [hequal, Nat.sub_self, List.replicate_zero, List.append_nil] at hmemory
  rcases Nat.le_total bytes.length bytes'.length with hle | hle
  · exact hlength h h' hle
  · exact (hlength h' h hle).symm

theorem Reads.prefix_free {r : Archived ε α} {bytes bytes' : List UInt8} {a a' : α}
    (h : Reads r bytes a) (h' : Reads r bytes' a') (hbegins : bytes <+: bytes') : a = a' := by
  obtain ⟨more, rfl⟩ := hbegins
  have hshort := h [] more
  have hlong := h' [] []
  rw [List.nil_append] at hshort
  rw [List.nil_append, List.append_nil, hshort] at hlong
  exact (Prod.mk.inj (Except.ok.inj hlong)).1

theorem Reads.pure (a : α) : Reads (pure a : Archived ε α) [] a := by
  intro before after
  rfl

theorem Writes.pure : Writes (pure () : Archived ε Unit) [] := by
  intro before room after hroom
  rw [List.length_eq_zero_iff.mp hroom]
  rfl

/-! ## Transfers -/

theorem Transfers.pure (a : α) :
    Transfers (pure () : Archived ε Unit) (pure a : Archived ε α) a :=
  ⟨[], .pure, .pure a⟩

theorem Transfers.bind {w v : Archived ε Unit} {r : Archived ε α} {f : α → Archived ε β} {a : α}
    {b : β} (hw : Transfers w r a) (hv : Transfers v (f a) b) :
    Transfers (w >>= fun _ => v) (r >>= f) b := by
  obtain ⟨bytes, hwrites, hreads⟩ := hw
  obtain ⟨more, hwrites', hreads'⟩ := hv
  exact ⟨bytes ++ more, hwrites.bind hwrites', hreads.bind hreads'⟩

theorem Transfers.last {w : Archived ε Unit} {r : Archived ε α} {f : α → Archived ε β} {a : α}
    {b : β} (hw : Transfers w r a) (hf : f a = Pure.pure b) : Transfers w (r >>= f) b := by
  obtain ⟨bytes, hwrites, hreads⟩ := hw
  have hmore : Reads (f a) [] b := by
    rw [hf]
    exact .pure b
  have hbind := hreads.bind hmore
  rw [List.append_nil] at hbind
  exact ⟨bytes, hwrites, hbind⟩

theorem Transfers.map {w : Archived ε Unit} {r : Archived ε α} {a : α} (hw : Transfers w r a)
    (f : α → β) : Transfers w (r >>= fun a => Pure.pure (f a)) (f a) :=
  hw.last rfl

theorem Transfers.each {w : α → Archived ε Unit} {r : Archived ε β} {f : α → β} (l : List α)
    (h : ∀ a ∈ l, Transfers (w a) r (f a)) :
    Transfers (Archived.each w l) (times r l.length) (l.map f) := by
  induction l with
  | nil => exact .pure []
  | cons a l ih =>
    have hrest := ih fun b hb => h b (.tail _ hb)
    exact (h a List.mem_cons_self).bind (hrest.map _)

/-! ## Failures -/

theorem Fails.bind {x : Archived ε α} (h : Fails x) (f : α → Archived ε β) :
    Fails (x >>= f) := by
  intro c
  obtain ⟨e, he⟩ := h c
  exact ⟨e, bind_of_error he⟩

theorem Fails.after (x : Archived ε α) {f : α → Archived ε β} (h : ∀ a, Fails (f a)) :
    Fails (x >>= f) := by
  intro c
  cases hx : x c with
  | error e => exact ⟨e, bind_of_error hx⟩
  | ok p =>
    obtain ⟨e, he⟩ := h p.1 p.2
    exact ⟨e, (bind_of_ok hx).trans he⟩

theorem Fails.each {w : α → Archived ε Unit} {l : List α} {a : α} (ha : a ∈ l)
    (h : Fails (w a)) : Fails (Archived.each w l) := by
  induction l with
  | nil => cases ha
  | cons b l ih =>
    obtain rfl | ha := List.mem_cons.mp ha
    · exact h.bind _
    · exact Fails.after (w b) fun _ => ih ha

end Archived

end Soot.Computation
