import Soot.Analysis.Script.EnvironmentMap

/-!
# Symbols are equal if their names are

A symbol table is read as a table of names whose values are the pointers to them. It stands for a
function from names to pointers if its slots hold the function's bindings, are probed well and are
not all used. Interning keeps the bindings that there are, and adds one for a new name, across all
resizes; so two calls return the same pointer exactly if their names are equal.
-/

set_option autoImplicit false

namespace Soot.Analysis.Script

open Soot.Computation Soot.Program.Script Soot.Program.Script.InternedPtrMap Soot.Model.Script

variable {hash : Text → ℕ} {e : SymbolTable.Entry}

/-! ## The table of names -/

/-- A slot with its name in place of the pointer's target. -/
def namedEntry (names : List Text) (e : SymbolTable.Entry) : Entry Text ℕ :=
  match e.2 with
  | none => empty
  | some name => ⟨names[name]?, name⟩

/-- The table of names that a list of slots is. -/
abbrev namedEntries (names : List Text) (entries : List SymbolTable.Entry) :
    List (Entry Text ℕ) :=
  entries.map (namedEntry names)

/-- A slot that is used has the hash of its name. -/
def Named (hash : Text → ℕ) (names : List Text) (e : SymbolTable.Entry) : Prop :=
  ∀ name, e.2 = some name → ∃ str, names[name]? = some str ∧ e.1 = hash str

theorem named_unused (hash : Text → ℕ) (names : List Text) :
    Named hash names SymbolTable.unused := nofun

theorem namedEntry_key_eq_none {names : List Text}
    (h : Named hash names e) : (namedEntry names e).key = none ↔ e.2 = none := by
  obtain ⟨tag, name⟩ := e
  cases name with
  | none => exact ⟨fun _ => rfl, fun _ => rfl⟩
  | some name =>
    obtain ⟨str, hstr, -⟩ := h name rfl
    simp [namedEntry, hstr]

theorem namedEntry_key_eq_some {names : List Text}
    (h : Named hash names e) (str : Text) :
    (namedEntry names e).key = some str ↔
      ∃ name, e.2 = some name ∧ names[name]? = some str ∧ e.1 = hash str := by
  obtain ⟨tag, name⟩ := e
  cases name with
  | none => exact ⟨nofun, nofun⟩
  | some name =>
    obtain ⟨str', hstr', htag⟩ := h name rfl
    constructor
    · intro hkey
      obtain rfl := Option.some.inj (hstr'.symm.trans hkey)
      exact ⟨name, rfl, hstr', htag⟩
    · rintro ⟨_, ⟨⟩, hstr, -⟩
      exact hstr

theorem keyAt_namedEntries (names : List Text) (entries : List SymbolTable.Entry) (a : ℕ) :
    keyAt (namedEntries names entries) a = (namedEntry names (SymbolTable.slot entries a)).key := by
  rw [keyAt, List.getElem?_map, SymbolTable.slot]
  cases entries[a]? <;> rfl

theorem named_slot {names : List Text} {entries : List SymbolTable.Entry}
    (h : ∀ e ∈ entries, Named hash names e) (a : ℕ) :
    Named hash names (SymbolTable.slot entries a) := by
  rw [SymbolTable.slot]
  cases hget : entries[a]? with
  | none => exact named_unused hash names
  | some e => exact h e (List.mem_of_getElem? hget)

theorem stopsAt_eq {names : List Text} {entries : List SymbolTable.Entry}
    (h : ∀ e ∈ entries, Named hash names e) (str : Text) (a : ℕ) :
    SymbolTable.stopsAt names (hash str) str (SymbolTable.slot entries a) =
      decide (keyAt (namedEntries names entries) a = none ∨
        keyAt (namedEntries names entries) a = some str) := by
  have hslot := named_slot h a
  simp only [keyAt_namedEntries, namedEntry_key_eq_none hslot, namedEntry_key_eq_some hslot]
  generalize SymbolTable.slot entries a = e at *
  obtain ⟨tag, name⟩ := e
  cases name with
  | none => simp [SymbolTable.stopsAt]
  | some name => simp [SymbolTable.stopsAt, and_comm]

theorem namedEntry_append {names : List Text}
    (h : Named hash names e) (more : List Text) :
    namedEntry (names ++ more) e = namedEntry names e := by
  obtain ⟨tag, name⟩ := e
  cases name with
  | none => rfl
  | some name =>
    obtain ⟨str, hstr, -⟩ := h name rfl
    simp only [namedEntry, List.getElem?_append_left (List.getElem?_eq_some_iff.mp hstr).1]

theorem Named.append {names : List Text}
    (h : Named hash names e) (more : List Text) : Named hash (names ++ more) e := by
  intro name hname
  obtain ⟨str, hstr, htag⟩ := h name hname
  exact ⟨str, by rwa [List.getElem?_append_left (List.getElem?_eq_some_iff.mp hstr).1], htag⟩

/-! ## Resizing -/

theorem reinsert_named {names : List Text} {mask : ℕ}
    {entries : List SymbolTable.Entry} (h : ∀ e ∈ entries, Named hash names e)
    {old : SymbolTable.Entry} (hold : Named hash names old) :
    (SymbolTable.reinsert mask entries old).map (namedEntries names) =
      reinsert hash mask (namedEntries names entries) (namedEntry names old) := by
  obtain ⟨tag, name⟩ := old
  cases name with
  | none => rfl
  | some name =>
    obtain ⟨str, hstr, htag⟩ := hold name rfl
    have hempty : ∀ a, decide ((SymbolTable.slot entries a).2 = none) =
        decide (keyAt (namedEntries names entries) a = none) := by
      intro a
      simp only [keyAt_namedEntries, namedEntry_key_eq_none (named_slot h a)]
    simp only [SymbolTable.reinsert, reinsert, namedEntry, hstr, hempty, List.length_map,
      Option.map_bind, Option.pure_def, Option.bind_eq_bind]
    rw [show tag = hash str from htag]
    congr 1
    funext i
    simp only [Function.comp_apply, Option.map_some, List.map_set, namedEntry, hstr]

theorem named_reinsert {names : List Text} {mask : ℕ}
    {entries entries' : List SymbolTable.Entry} (h : ∀ e ∈ entries, Named hash names e)
    {old : SymbolTable.Entry} (hold : Named hash names old)
    (hinsert : SymbolTable.reinsert mask entries old = some entries') :
    ∀ e ∈ entries', Named hash names e := by
  rw [SymbolTable.reinsert] at hinsert
  cases hname : old.2 with
  | none =>
    rw [hname] at hinsert
    cases hinsert
    exact h
  | some name =>
    rw [hname] at hinsert
    obtain ⟨i, -, hset⟩ := Option.bind_eq_some_iff.mp hinsert
    cases hset
    intro e he
    rcases List.mem_or_eq_of_mem_set he with hmem | rfl
    · exact h e hmem
    · exact hold

theorem foldlM_reinsert_named {names : List Text} {mask : ℕ}
    (olds : List SymbolTable.Entry) {entries : List SymbolTable.Entry}
    (holds : ∀ e ∈ olds, Named hash names e) (h : ∀ e ∈ entries, Named hash names e)
    {larger : List (Entry Text ℕ)}
    (hfold : (namedEntries names olds).foldlM (reinsert hash mask) (namedEntries names entries) =
      some larger) :
    ∃ entries', olds.foldlM (SymbolTable.reinsert mask) entries = some entries' ∧
      namedEntries names entries' = larger ∧ ∀ e ∈ entries', Named hash names e := by
  induction olds generalizing entries with
  | nil => exact ⟨entries, rfl, Option.some.inj hfold, h⟩
  | cons old olds ih =>
    have hold := holds old List.mem_cons_self
    rw [show namedEntries names (old :: olds) = namedEntry names old :: namedEntries names olds
      from rfl, List.foldlM_cons, ← reinsert_named h hold] at hfold
    obtain ⟨mapped, hmapped, hrest⟩ := Option.bind_eq_some_iff.mp hfold
    obtain ⟨entries₁, hinsert, rfl⟩ := Option.map_eq_some_iff.mp hmapped
    obtain ⟨entries', hfold', hlarger, hnamed⟩ := ih
      (fun e he => holds e (List.mem_cons_of_mem _ he)) (named_reinsert h hold hinsert) hrest
    refine ⟨entries', ?_, hlarger, hnamed⟩
    rw [List.foldlM_cons, hinsert]
    exact hfold'

/-! ## Contents -/

/-- A symbol table stands for a function from names to pointers. -/
structure Interned (hash : Text → ℕ) (t : SymbolTable) (f : Text → Option ℕ) : Prop where
  named : ∀ e ∈ t.entries, Named hash t.names e
  size : t.entries.length = 2 ^ t.powerOfTwoSize
  positive : 0 < t.powerOfTwoSize
  mask : t.mask = 2 ^ t.powerOfTwoSize - 1
  probed : Probed t.entries.length hash (keyAt (namedEntries t.names t.entries))
  used : occupied (namedEntries t.names t.entries) = t.usedEntries
  room : t.usedEntries < t.nextResize
  limit : t.nextResize = maxUsed t.entries.length
  stored : ∀ str name, Stored (namedEntries t.names t.entries) str name ↔ f str = some name

theorem names_of_stored {names : List Text} {entries : List SymbolTable.Entry}
    (h : ∀ e ∈ entries, Named hash names e) {str : Text} {name : ℕ}
    (hstored : Stored (namedEntries names entries) str name) : names[name]? = some str := by
  obtain ⟨a, ha⟩ := hstored
  rw [List.getElem?_map] at ha
  obtain ⟨e, he, hentry⟩ := Option.map_eq_some_iff.mp ha
  obtain ⟨name', hname, hstr, -⟩ :=
    (namedEntry_key_eq_some (h e (List.mem_of_getElem? he)) str).mp (by rw [hentry])
  rw [namedEntry, hname] at hentry
  obtain ⟨-, rfl⟩ := Entry.mk.inj hentry
  exact hstr

theorem resize_interned {t : SymbolTable} {f : Text → Option ℕ}
    (hnamed : ∀ e ∈ t.entries, Named hash t.names e)
    (hsize : t.entries.length = 2 ^ t.powerOfTwoSize) (hpositive : 0 < t.powerOfTwoSize)
    (hprobed : Probed t.entries.length hash (keyAt (namedEntries t.names t.entries)))
    (hused : occupied (namedEntries t.names t.entries) = t.usedEntries)
    (hfull : t.usedEntries ≤ maxUsed t.entries.length)
    (hstored : ∀ str name, Stored (namedEntries t.names t.entries) str name ↔
      f str = some name) :
    ∃ t', t.resize = some t' ∧ t'.names = t.names ∧ Interned hash t' f := by
  have height : 2 ≤ t.entries.length := by
    rw [hsize]
    exact Nat.pow_le_pow_right (show 0 < 2 by omega) hpositive
  have hdouble : t.entries.length * 2 = 2 ^ (t.powerOfTwoSize + 1) := by rw [hsize, Nat.pow_succ]
  have hlimit := maxUsed_le t.entries.length
  have hempty : namedEntries t.names (List.replicate (t.entries.length * 2) SymbolTable.unused) =
      List.replicate (t.entries.length * 2) empty := List.map_replicate
  have hfilling : Filling hash (t.powerOfTwoSize + 1)
      (List.replicate (t.entries.length * 2) (empty : Entry Text ℕ)) :=
    ⟨by rw [List.length_replicate, hdouble], .empty fun a _ => keyAt_replicate _ a⟩
  obtain ⟨larger, hfold, hlen, ⟨hsize', hprobed'⟩, hocc, hcopied⟩ := foldlM_reinsert
    (namedEntries t.names t.entries) hfilling
    (by rw [occupied_replicate, List.length_replicate]; omega)
    (fun e _ k _ w => not_stored_replicate _ k w) (pairwise_keys (List.length_map ..) hprobed)
  rw [List.length_replicate] at hlen
  rw [occupied_replicate] at hocc
  rw [← hempty] at hfold
  obtain ⟨entries, hfold', rfl, hnamed'⟩ := foldlM_reinsert_named t.entries hnamed
    (fun e he => by rw [List.eq_of_mem_replicate he]; exact named_unused hash t.names) hfold
  have hlen' : entries.length = t.entries.length * 2 := by rw [← hlen, List.length_map]
  refine ⟨{ t with
      entries
      powerOfTwoSize := t.powerOfTwoSize + 1
      mask := 2 ^ (t.powerOfTwoSize + 1) - 1
      nextResize := maxUsed entries.length }, ?_, rfl, ?_⟩
  · rw [SymbolTable.resize]
    simp only [hfold', bind, Option.bind]
    rfl
  · constructor
    · exact hnamed'
    · exact hlen'.trans hdouble
    · exact Nat.succ_pos _
    · rfl
    · rw [List.length_map] at hprobed'
      exact hprobed'
    · change occupied (namedEntries t.names entries) = t.usedEntries
      omega
    · change t.usedEntries < maxUsed entries.length
      have hmore := maxUsed_double t.entries.length
      have hpos : 0 < maxUsed t.entries.length := by
        rw [maxUsed]
        omega
      rw [hlen']
      omega
    · rfl
    · intro str name
      rw [← hstored]
      refine (hcopied str name).trans ⟨?_, ?_⟩
      · rintro (hnew | hold)
        · exact absurd hnew (not_stored_replicate _ str name)
        · obtain ⟨a, ha, hget⟩ := List.getElem_of_mem hold
          exact ⟨a, by rw [List.getElem?_eq_getElem ha, hget]⟩
      · rintro ⟨a, ha⟩
        exact .inr (List.mem_of_getElem? ha)

/-! ## Interning -/

namespace Interned

variable {hash : Text → ℕ} {t : SymbolTable} {f : Text → Option ℕ}

theorem names_eq (h : Interned hash t f) {str : Text} {name : ℕ} (hf : f str = some name) :
    t.names[name]? = some str :=
  names_of_stored h.named ((h.stored str name).mpr hf)

theorem probe_ends (h : Interned hash t f) (str : Text) :
    ∃ i < t.entries.length, t.probe (hash str) str = some i ∧
      slotAddr t.mask (hash str) i = (hash str + i) % t.entries.length ∧
      ((keyAt (namedEntries t.names t.entries) ((hash str + i) % t.entries.length) = none ∧
          (∀ a, keyAt (namedEntries t.names t.entries) a ≠ some str) ∧
          ∀ j < i, keyAt (namedEntries t.names t.entries)
            ((hash str + j) % t.entries.length) ≠ none) ∨
        keyAt (namedEntries t.names t.entries) ((hash str + i) % t.entries.length) = some str) := by
  have hlength : (namedEntries t.names t.entries).length = t.entries.length := List.length_map ..
  have hroom : occupied (namedEntries t.names t.entries) <
      (namedEntries t.names t.entries).length := by
    have hlimit := maxUsed_le t.entries.length
    have hroom := h.room
    rw [h.limit] at hroom
    rw [h.used, hlength]
    omega
  obtain ⟨i, hi, hfind, hstop, hfirst⟩ := search_ends (hlength.trans h.size) (hash str) hroom
    (fun a => SymbolTable.stopsAt t.names (hash str) str (SymbolTable.slot t.entries a))
    fun a ha => by simp [stopsAt_eq h.named, ha]
  rw [hlength] at hi hfind hstop
  refine ⟨i, hi, ?_, ?_, ?_⟩
  · rw [SymbolTable.probe, h.mask]
    exact hfind
  · rw [h.mask, slotAddr_eq, h.size]
  · simp only [stopsAt_eq h.named, hlength, decide_eq_true_eq, decide_eq_false_iff_not,
      not_or] at hstop hfirst
    obtain hnone | hsome := hstop
    · refine .inl ⟨hnone, fun a ha => ?_, fun j hj => (hfirst j hj).1⟩
      refine h.probed.absent hi hnone (fun j hj => (hfirst j hj).2) ?_ ha
      rw [← hlength]
      exact lt_of_keyAt ha
    · exact .inr hsome

theorem intern_old (h : Interned hash t f) {str : Text} {name : ℕ} (hf : f str = some name)
    (depth : ℕ) : SymbolTable.intern hash (depth + 1) t str = some (name, t) := by
  obtain ⟨i, hi, hprobe, hslot, ⟨-, habsent, -⟩ | hsome⟩ := h.probe_ends str
  · obtain ⟨a, ha⟩ := (h.stored str name).mpr hf
    exact absurd (keyAt_eq_some.mpr ⟨name, ha⟩) (habsent a)
  · rw [keyAt_namedEntries] at hsome
    obtain ⟨name', hname', hstr, htag⟩ := (namedEntry_key_eq_some (named_slot h.named _) str).mp hsome
    have hkey : f str = some name' := by
      rw [← h.stored]
      have hlt : (hash str + i) % t.entries.length < t.entries.length :=
        Nat.mod_lt _ (by omega)
      refine ⟨(hash str + i) % t.entries.length, ?_⟩
      rw [SymbolTable.slot, List.getElem?_eq_getElem hlt] at hname'
      rw [List.getElem?_map, List.getElem?_eq_getElem hlt]
      simp only [Option.getD_some] at hname'
      simp only [Option.map_some, namedEntry, hname', hstr]
    obtain rfl := Option.some.inj (hf.symm.trans hkey)
    rw [SymbolTable.intern]
    simp only [hprobe, hslot, bind, Option.bind, hname']
    rfl

theorem intern_new (h : Interned hash t f) {str : Text} (hf : f str = none) (depth : ℕ) :
    ∃ t', SymbolTable.intern hash (depth + 2) t str = some (t.names.length, t') ∧
      t'.names = t.names ++ [str] ∧
      Interned hash t' (Function.update f str (some t.names.length)) := by
  obtain ⟨i, hi, hprobe, hslot, hend⟩ := h.probe_ends str
  have ha : (hash str + i) % t.entries.length < t.entries.length := Nat.mod_lt _ (by omega)
  obtain ⟨hnone, habsent, hfirst⟩ | hsome := hend
  swap
  · obtain ⟨name, hname⟩ := keyAt_eq_some.mp hsome
    have hbound := (h.stored str name).mp ⟨_, hname⟩
    rw [hf] at hbound
    cases hbound
  generalize haddr : (hash str + i) % t.entries.length = a at *
  have hempty : (SymbolTable.slot t.entries a).2 = none := by
    rwa [keyAt_namedEntries, namedEntry_key_eq_none (named_slot h.named a)] at hnone
  -- the table of names with the new slot
  have hentry : namedEntry (t.names ++ [str]) (hash str, some t.names.length) =
      ⟨some str, t.names.length⟩ := by simp [namedEntry]
  have hentries : namedEntries (t.names ++ [str])
      (t.entries.set a (hash str, some t.names.length)) =
      (namedEntries t.names t.entries).set a ⟨some str, t.names.length⟩ := by
    rw [namedEntries, List.map_set, hentry,
      List.map_congr_left fun e he => namedEntry_append (h.named e he) [str]]
  have hlength : (namedEntries t.names t.entries).length = t.entries.length := List.length_map ..
  have hlen : (t.entries.set a (hash str, some t.names.length)).length = t.entries.length :=
    List.length_set
  have ha' : a < (namedEntries t.names t.entries).length := by rwa [hlength]
  have hnamed : ∀ e ∈ (t.insert a (hash str) str).entries,
      Named hash (t.insert a (hash str) str).names e := by
    intro e he
    rcases List.mem_or_eq_of_mem_set he with hmem | rfl
    · exact (h.named e hmem).append [str]
    · rintro name ⟨⟩
      exact ⟨str, List.getElem?_concat_length .., rfl⟩
  have hprobed : Probed (t.entries.set a (hash str, some t.names.length)).length hash
      (keyAt (namedEntries (t.names ++ [str])
        (t.entries.set a (hash str, some t.names.length)))) := by
    rw [hlen, hentries, keyAt_set ha', ← haddr]
    exact h.probed.insert hi hfirst fun b _ => habsent b
  have hused : occupied (namedEntries (t.names ++ [str])
      (t.entries.set a (hash str, some t.names.length))) = t.usedEntries + 1 := by
    rw [hentries, occupied_set ha', hnone, h.used]
    rfl
  have hstored : ∀ l w, Stored (namedEntries (t.names ++ [str])
        (t.entries.set a (hash str, some t.names.length))) l w ↔
      Function.update f str (some t.names.length) l = some w := by
    intro l w
    rw [hentries, stored_set ha' (fun b hb => absurd hb (habsent b)) (.inl hnone),
      stored_update h.stored]
  have hroom := h.room
  have hinsert : SymbolTable.intern hash (depth + 2) t str =
      if t.nextResize ≤ t.usedEntries + 1 then
        (t.insert a (hash str) str).resize.bind fun t' =>
          SymbolTable.intern hash (depth + 1) t' str
      else some (t.names.length, t.insert a (hash str) str) := by
    rw [SymbolTable.intern]
    simp only [hprobe, hslot, bind, Option.bind, hempty]
    rfl
  by_cases hfull : t.nextResize ≤ t.usedEntries + 1
  · obtain ⟨t', hresize, hnames, ht'⟩ := resize_interned (t := t.insert a (hash str) str) hnamed
      (hlen.trans h.size) h.positive hprobed hused
      (by change t.usedEntries + 1 ≤ maxUsed (t.entries.set a _).length; rw [hlen, ← h.limit]; omega)
      hstored
    refine ⟨t', ?_, hnames, ht'⟩
    rw [hinsert, if_pos hfull, hresize]
    exact ht'.intern_old (Function.update_self ..) depth
  · refine ⟨t.insert a (hash str) str, ?_, rfl, hnamed, hlen.trans h.size, h.positive, h.mask,
      hprobed, hused, Nat.lt_of_not_le hfull, h.limit.trans (by rw [← hlen]; rfl), hstored⟩
    rw [hinsert, if_neg hfull]

end Interned

/-! ## Runs -/

theorem intern_interned {t : SymbolTable} {f : Text → Option ℕ}
    (h : Interned hash t f) (str : Text) (depth : ℕ) :
    ∃ name t' f', SymbolTable.intern hash (depth + 2) t str = some (name, t') ∧
      Interned hash t' f' ∧ f' str = some name ∧ ∀ l w, f l = some w → f' l = some w := by
  cases hf : f str with
  | some name => exact ⟨name, t, f, h.intern_old hf (depth + 1), h, hf, fun _ _ => id⟩
  | none =>
    obtain ⟨t', hintern, -, ht'⟩ := h.intern_new hf depth
    refine ⟨_, t', _, hintern, ht', Function.update_self .., fun l w hl => ?_⟩
    rw [Function.update_of_ne, hl]
    rintro rfl
    rw [hf] at hl
    cases hl

theorem internAll_interned (depth : ℕ) (strs : List Text) {t : SymbolTable}
    {f : Text → Option ℕ} (h : Interned hash t f) :
    ∃ pointers t' f', SymbolTable.internAll hash (depth + 2) t strs = some (pointers, t') ∧
      Interned hash t' f' ∧ pointers.map some = strs.map f' ∧
      ∀ l w, f l = some w → f' l = some w := by
  induction strs generalizing t f with
  | nil => exact ⟨[], t, f, rfl, h, rfl, fun _ _ => id⟩
  | cons str strs ih =>
    obtain ⟨name, t₁, f₁, hintern, ht₁, hname, hkeep₁⟩ := intern_interned h str depth
    obtain ⟨pointers, t', f', hrun, ht', hpointers, hkeep⟩ := ih ht₁
    refine ⟨name :: pointers, t', f', ?_, ht', ?_, fun l w hl => hkeep l w (hkeep₁ l w hl)⟩
    · simp only [SymbolTable.internAll, hintern, hrun, bind, Option.bind]
      rfl
    · rw [List.map_cons, List.map_cons, hpointers, hkeep str name hname]

theorem interned_initial (hash : Text → ℕ) :
    Interned hash SymbolTable.initial fun _ => none where
  named := fun e he => by rw [List.eq_of_mem_replicate he]; exact named_unused hash []
  size := rfl
  positive := Nat.one_pos
  mask := rfl
  probed := .empty fun a _ => by
    rw [show namedEntries _ SymbolTable.initial.entries = List.replicate 2 empty from rfl]
    exact keyAt_replicate 2 a
  used := occupied_replicate 2
  room := show 0 < 2 * 11744051 / 2 ^ 24 by decide
  limit := rfl
  stored := fun str name => ⟨fun h => absurd h (not_stored_replicate 2 str name), nofun⟩

theorem new_interned (hash : Text → ℕ) (depth : ℕ) :
    ∃ t f, SymbolTable.new hash (depth + 2) = some t ∧ Interned hash t f := by
  obtain ⟨pointers, t, f, hrun, ht, -, -⟩ :=
    internAll_interned depth SymbolTable.coreSymbols (interned_initial hash)
  refine ⟨t, f, ?_, ht⟩
  rw [SymbolTable.new, hrun]
  rfl

namespace Interned

variable {hash : Text → ℕ} {t : SymbolTable} {f : Text → Option ℕ}

theorem name (h : Interned hash t f) {strs : List Text} {pointers : List ℕ}
    (heq : pointers.map some = strs.map f) : Name t pointers strs := by
  induction strs generalizing pointers with
  | nil => cases List.map_eq_nil_iff.mp heq; rfl
  | cons str strs ih =>
    cases pointers with
    | nil => cases heq
    | cons name pointers =>
      obtain ⟨hname, hrest⟩ := List.cons.inj heq
      rw [Name, List.map_cons, List.map_cons, h.names_eq hname.symm, ih hrest]

theorem distinguish (h : Interned hash t f) {strs : List Text} {pointers : List ℕ}
    (heq : pointers.map some = strs.map f) : Distinguish pointers strs := by
  have hget : ∀ i : ℕ, pointers[i]?.map some = strs[i]?.map f := by
    intro i
    rw [← List.getElem?_map, heq, List.getElem?_map]
  have hnames : ∀ i : ℕ, pointers[i]?.map (t.names[·]?) = strs[i]?.map some := by
    intro i
    rw [← List.getElem?_map, h.name heq, List.getElem?_map]
  have hinj : Function.Injective fun o : Option Text => o.map some :=
    Option.map_injective (Option.some_injective _)
  have hinj' : Function.Injective fun o : Option ℕ => o.map some :=
    Option.map_injective (Option.some_injective _)
  intro i j
  constructor
  · intro hij
    apply hinj
    change strs[i]?.map some = strs[j]?.map some
    rw [← hnames, ← hnames, hij]
  · intro hij
    apply hinj'
    change pointers[i]?.map some = pointers[j]?.map some
    rw [hget, hget, hij]

end Interned

/-- Two calls return the same pointer exactly if their names are equal, a pointer keeps naming the
same text, and no probe or copy fails. Up to 2^31 slots the numbers are those of `int` and
`uint32_t`. SRCLINE: Object.cpp:73-170 -/
theorem intern_unique (hash : Text → ℕ) (depth : ℕ) (strs more : List Text) :
    Interns hash (depth + 2) strs more := by
  obtain ⟨start, f, hnew, hstart⟩ := new_interned hash depth
  obtain ⟨pointers, t, f₁, hrun, ht, hpointers, -⟩ := internAll_interned depth strs hstart
  obtain ⟨pointers', t', f₂, hrun', ht', hpointers', hkeep⟩ := internAll_interned depth more ht
  have heq : (pointers ++ pointers').map some = (strs ++ more).map f₂ := by
    rw [List.map_append, List.map_append, hpointers']
    congr 1
    rw [hpointers]
    apply List.map_congr_left
    intro str hstr
    obtain ⟨name, -, hname⟩ := List.mem_map.mp (hpointers ▸ List.mem_map_of_mem hstr)
    rw [hkeep str name hname.symm, hname]
  exact ⟨start, pointers, t, pointers', t', hnew, hrun, hrun', ht.name hpointers, ht'.name heq,
    ht'.distinguish heq⟩

end Soot.Analysis.Script
