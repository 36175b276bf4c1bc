import Mathlib.Data.List.Induction
import Soot.Model.Engine

/-!
# Connections that are never removed

Adding a connection moves it from the front of the dead list to the front of the alive list and of
the list of its process. No engine is ever found from a connection, so nothing else is moved: the
calls that remove connections walk over the lists and leave them.
-/

set_option autoImplicit false

namespace Soot.Analysis

open Soot.Computation Soot.Program Soot.Model

variable {size turns : ℕ} {e e' : Engine} {pool : ConnectionPool} {c : ℕ}

/-! ## Nothing is moved -/

theorem getEngine_eq (e : Engine) (iterations : ℕ) (current : Option Connectable) :
    e.getEngine iterations current = none := by
  induction iterations generalizing current with
  | zero => rfl
  | succ iterations ih =>
    cases current with
    | none => rfl
    | some current => exact ih (e.prev0 current)

theorem moveToDead_eq (e : Engine) (node : Connectable) : e.moveToDead node = e := by
  rw [Engine.moveToDead, getEngine_eq]

theorem removeAlive_eq {test : Connectable → ConnectionArguments → Bool}
    {current : Option Connectable} (h : Engine.removeAlive test turns current e = some e') :
    e' = e := by
  induction turns generalizing current with
  | zero => cases h
  | succ turns ih =>
    cases current with
    | none => exact (Option.some.inj h).symm
    | some current =>
      rw [Engine.removeAlive, moveToDead_eq, ite_self] at h
      by_cases hend : current = .aliveListEnd
      · rw [if_pos hend] at h
        exact (Option.some.inj h).symm
      · rw [if_neg hend] at h
        exact ih h

theorem removeItems_eq {test : Engine → Connectable → Bool} {item : Option Connectable}
    (h : Engine.removeItems test turns item e = some e') : e' = e := by
  induction turns generalizing item with
  | zero => cases h
  | succ turns ih =>
    cases item with
    | none => exact (Option.some.inj h).symm
    | some item =>
      rw [Engine.removeItems, moveToDead_eq, ite_self] at h
      by_cases hunset : item = .unset
      · rw [if_pos hunset] at h
        cases h
      · rw [if_neg hunset] at h
        exact ih h

/-! ## Walks -/

theorem removeAlive_ends {test : Connectable → ConnectionArguments → Bool} {node : Connectable}
    {l : List ℕ}
    (h : DoublyLinked e.next0 e.prev0 (node :: l.map .data ++ [.aliveListEnd])) :
    Engine.removeAlive test (l.length + 1) (e.next0 node) e = some e := by
  induction l generalizing node with
  | nil =>
    rw [h.1.1, List.length_nil, Engine.removeAlive, if_pos rfl]
  | cons c l ih =>
    rw [h.1.1, List.length_cons, Engine.removeAlive, if_neg (by simp), moveToDead_eq, ite_self]
    exact ih h.tail

theorem removeItems_ends {test : Engine → Connectable → Bool} {item : Option Connectable}
    {l : List Connectable} (h : Threads e.next1 item l) (hset : .unset ∉ l) :
    Engine.removeItems test (l.length + 1) item e = some e := by
  induction l generalizing item with
  | nil =>
    obtain rfl : item = none := h
    rfl
  | cons node l ih =>
    obtain ⟨rfl, hrest⟩ := h
    rw [List.mem_cons, not_or] at hset
    rw [List.length_cons, Engine.removeItems, if_neg (Ne.symm hset.1), moveToDead_eq, ite_self]
    exact ih hrest hset.2

theorem executeAlive_some {function : ConnectionArguments → EngineResult} {node : Connectable}
    (hnode : node ≠ .aliveList) :
    Engine.executeAlive function (turns + 1) (some node) e =
      (Engine.executeAlive function turns (e.prev0 node) e).map fun done =>
        (done.1, if Engine.result function (e.args node) = .dead then node :: done.2
          else done.2) := by
  rw [Engine.executeAlive, if_neg hnode]
  simp only [moveToDead_eq, ite_self]

theorem executeAlive_ends {function : ConnectionArguments → EngineResult} (l : List ℕ)
    {node : Connectable}
    (h : DoublyLinked e.next0 e.prev0 (.aliveList :: l.map .data ++ [node])) :
    Engine.executeAlive function (l.length + 1) (e.prev0 node) e =
      some (e, (l.reverse.map Connectable.data).filter fun node =>
        Engine.result function (e.args node) = .dead) := by
  induction l using List.reverseRecOn generalizing node with
  | nil =>
    rw [h.1.2]
    rfl
  | append_singleton l c ih =>
    have hsplit : DoublyLinked e.next0 e.prev0
        ((.aliveList :: l.map .data) ++ .data c :: [node]) := by simpa using h
    obtain ⟨hfirst, hlast⟩ := hsplit.append
    rw [hlast.1.2, List.length_append, List.length_singleton, executeAlive_some (by simp),
      ih hfirst, List.reverse_append, List.reverse_singleton, List.singleton_append,
      List.map_cons, List.filter_cons]
    simp only [Option.map_some, decide_eq_true_eq]

theorem executeAlive_succ {function : ConnectionArguments → EngineResult}
    {current : Option Connectable} {done : Engine × List Connectable}
    (h : Engine.executeAlive function turns current e = some done) :
    Engine.executeAlive function (turns + 1) current e = some done := by
  induction turns generalizing current done with
  | zero => cases h
  | succ turns ih =>
    cases current with
    | none => exact h
    | some node =>
      by_cases hnode : node = .aliveList
      · rw [Engine.executeAlive, if_pos hnode] at h ⊢
        exact h
      · rw [executeAlive_some hnode] at h ⊢
        obtain ⟨before, hbefore, rfl⟩ := Option.map_eq_some_iff.mp h
        rw [ih hbefore]
        rfl

theorem executeAlive_mono {function : ConnectionArguments → EngineResult} {turns' : ℕ}
    {current : Option Connectable} {done : Engine × List Connectable}
    (h : Engine.executeAlive function turns current e = some done) (hle : turns ≤ turns') :
    Engine.executeAlive function turns' current e = some done := by
  induction hle with
  | refl => exact h
  | step _ ih => exact executeAlive_succ ih

/-! ## Adding -/

theorem data_injective : Function.Injective Connectable.data := fun _ _ h => Connectable.data.inj h

section Adding

variable {d p : ℕ} {rest : List ℕ} {args : ConnectionArguments}

/-- The pool after a connection was added. -/
def addedPool (pool : ConnectionPool) (d p : ℕ) (rest : List ℕ) : ConnectionPool where
  alive := d :: pool.alive
  dead := rest
  owner := Function.update pool.owner d p

theorem addConnection_links0 {first after : Connectable} {alive' dead' : List Connectable}
    {next prev : Connectable → Option Connectable}
    (hdead : DoublyLinked next prev (.deadList :: .data d :: after :: dead'))
    (halive : DoublyLinked next prev (.aliveList :: first :: alive'))
    (hnodup : (.aliveList :: .deadList :: .data d :: after :: dead' ++ first :: alive').Nodup) :
    let next' := Function.update (Function.update (Function.update next .deadList (some after))
      (.data d) (some first)) .aliveList (some (.data d))
    let prev' := Function.update (Function.update (Function.update prev after (some .deadList))
      first (some (.data d))) (.data d) (some .aliveList)
    DoublyLinked next' prev' (.deadList :: after :: dead') ∧
      DoublyLinked next' prev' (.aliveList :: .data d :: first :: alive') := by
  intro next' prev'
  simp only [List.cons_append, List.nodup_cons] at hnodup
  obtain ⟨hA, hD, hd, hafter, hnodup⟩ := hnodup
  have hnext : ∀ node ∈ after :: dead' ++ first :: alive', next' node = next node := by
    intro node hnode
    have hne : node ≠ .aliveList ∧ node ≠ .deadList ∧ node ≠ .data d := by
      refine ⟨?_, ?_, ?_⟩
      · rintro rfl
        exact hA (List.mem_cons_of_mem _ (List.mem_cons_of_mem _ hnode))
      · rintro rfl
        exact hD (List.mem_cons_of_mem _ hnode)
      · rintro rfl
        exact hd hnode
    simp only [next', Function.update_of_ne hne.1, Function.update_of_ne hne.2.1,
      Function.update_of_ne hne.2.2]
  have hprev : ∀ node ∈ dead' ++ alive', prev' node = prev node := by
    intro node hnode
    have hne : node ≠ after ∧ node ≠ first ∧ node ≠ .data d := by
      refine ⟨?_, ?_, ?_⟩
      · rintro rfl
        rcases List.mem_append.mp hnode with hmem | hmem
        · exact hafter (List.mem_append_left _ hmem)
        · exact hafter (List.mem_append_right _ (List.mem_cons_of_mem _ hmem))
      · rintro rfl
        rw [List.nodup_append] at hnodup
        rcases List.mem_append.mp hnode with hmem | hmem
        · exact hnodup.2.2 node hmem node List.mem_cons_self rfl
        · exact (List.nodup_cons.mp hnodup.2.1).1 hmem
      · rintro rfl
        rcases List.mem_append.mp hnode with hmem | hmem
        · exact hd (List.mem_cons_of_mem _ (List.mem_append_left _ hmem))
        · exact hd (List.mem_cons_of_mem _ (List.mem_append_right _ (List.mem_cons_of_mem _ hmem)))
    simp only [prev', Function.update_of_ne hne.1, Function.update_of_ne hne.2.1,
      Function.update_of_ne hne.2.2]
  have hda : after ≠ .data d := fun heq => hd (heq ▸ List.mem_cons_self)
  have hdf : first ≠ .data d := fun heq =>
    hd (heq ▸ List.mem_cons_of_mem _ (List.mem_append_right _ List.mem_cons_self))
  have haf : after ≠ first := fun heq =>
    hafter (heq ▸ List.mem_append_right _ List.mem_cons_self)
  refine ⟨⟨⟨?_, ?_⟩, ?_⟩, ⟨?_, ?_⟩, ⟨?_, ?_⟩, ?_⟩
  · simp [next']
  · simp [prev', hda, haf]
  · exact hdead.tail.tail.congr (fun b hb => hnext b (List.mem_append_left _ hb))
      fun b hb => hprev b (List.mem_append_left _ hb)
  · simp [next']
  · simp [prev']
  · simp [next']
  · simp [prev', hdf]
  · exact halive.tail.congr (fun b hb => hnext b (List.mem_append_right _ hb))
      fun b hb => hprev b (List.mem_append_right _ hb)

theorem addConnection_links1 {lists : ℕ → List Connectable}
    {next prev : Connectable → Option Connectable} {set : ℕ → Prop} (hset : set p)
    (hprocess : ∀ q, set q → DoublyLinked next prev (.process q :: lists q))
    (hthreads : ∀ q, set q → Threads next (next (.process q)) (lists q))
    (hnodup : (lists p).Nodup) (hdata : ∀ q, ∀ node ∈ lists q, ∃ c, c ≠ d ∧ node = .data c)
    (hdisjoint : ∀ q, q ≠ p → ∀ node ∈ lists q, node ∉ lists p) (q : ℕ) (hq' : q ≠ p → set q) :
    let next' := Function.update (Function.update next (.data d) (next (.process p)))
      (.process p) (some (.data d))
    let prev' := Function.update
      (match next (.process p) with
        | some head => Function.update prev head (some (.data d))
        | none => prev) (.data d) (some (.process p))
    let lists' := Function.update lists p (.data d :: lists p)
    DoublyLinked next' prev' (.process q :: lists' q) ∧
      Threads next' (next' (.process q)) (lists' q) := by
  intro next' prev' lists'
  have hnode : ∀ r, ∀ node ∈ lists r, next' node = next node := by
    intro r node hnode
    obtain ⟨c, hc, rfl⟩ := hdata r node hnode
    simp [next', hc]
  by_cases hq : q = p
  · subst hq
    have hlists : lists' q = .data d :: lists q := Function.update_self ..
    have hlast := hprocess q hset
    have hrest := hthreads q hset
    have hnext : next' (.process q) = some (.data d) := by simp [next']
    have hdnext : next' (.data d) = next (.process q) := by simp [next']
    rw [hlists, hnext]
    refine ⟨⟨⟨hnext, by simp [prev']⟩, ?_⟩, rfl, ?_⟩
    · cases hl : lists q with
      | nil => exact trivial
      | cons head l =>
        rw [hl] at hlast hnodup
        have hhead : next (.process q) = some head := hlast.1.1
        obtain ⟨c, hc, rfl⟩ := hdata q head (by rw [hl]; exact List.mem_cons_self)
        refine ⟨⟨hdnext.trans hhead, by simp [prev', hhead, hc]⟩, hlast.tail.congr ?_ ?_⟩
        · exact fun node hmem => hnode q node (by rw [hl]; exact hmem)
        · intro node hmem
          obtain ⟨c', hc', rfl⟩ := hdata q node (by rw [hl]; exact List.mem_cons_of_mem _ hmem)
          have hne : c' ≠ c := by
            rintro rfl
            exact (List.nodup_cons.mp hnodup).1 hmem
          simp [prev', hhead, hc', hne]
    · rw [hdnext]
      exact threads_congr (hnode q) hrest
  · have hlists : lists' q = lists q := Function.update_of_ne hq ..
    have hnext : next' (.process q) = next (.process q) := by simp [next', hq]
    rw [hlists, hnext]
    refine ⟨(hprocess q (hq' hq)).congr ?_ ?_, threads_congr (hnode q) (hthreads q (hq' hq))⟩
    · intro node hmem
      rcases List.mem_cons.mp hmem with rfl | hmem
      · exact hnext
      · exact hnode q node hmem
    · intro node hmem
      obtain ⟨c, hc, rfl⟩ := hdata q node hmem
      cases hl : lists p with
      | nil =>
        have hhead : next (.process p) = none := by
          have hend := hthreads p hset
          rw [hl] at hend
          exact hend
        simp [prev', hhead, hc]
      | cons head l =>
        have hhead : next (.process p) = some head := by
          have hlast := hprocess p hset
          rw [hl] at hlast
          exact hlast.1.1
        have hne : .data c ≠ head := by
          rintro rfl
          apply hdisjoint q hq _ hmem
          rw [hl]
          exact List.mem_cons_self
        simp [prev', hhead, hc, hne]

theorem ends_eq_cons (l : List ℕ) (last : Connectable) :
    ∃ first l', l.map Connectable.data ++ [last] = first :: l' := by
  cases l with
  | nil => exact ⟨last, [], rfl⟩
  | cons c l => exact ⟨.data c, l.map .data ++ [last], rfl⟩

theorem nodup_pool (h : DescribesPool size e pool) : (pool.alive ++ pool.dead).Nodup :=
  h.partition.nodup_iff.mpr List.nodup_range

theorem mem_connectionsOf {q : ℕ} {node : Connectable} :
    node ∈ pool.connectionsOf q ↔ ∃ c ∈ pool.alive, pool.owner c = q ∧ .data c = node := by
  rw [ConnectionPool.connectionsOf, List.mem_map]
  simp only [List.mem_filter, decide_eq_true_eq, and_assoc]

theorem addConnection_eq {after first : Connectable}
    (hdead : e.next0 .deadList = some (.data d)) (hafter : e.next0 (.data d) = some after)
    (hfirst : e.next0 .aliveList = some first) (hlist : HasList e p) (args : ConnectionArguments) :
    e.addConnection (some p) args = some {
      length := e.length + 1
      next0 := Function.update (Function.update (Function.update e.next0 .deadList (some after))
        (.data d) (some first)) .aliveList (some (.data d))
      prev0 := Function.update (Function.update (Function.update e.prev0 after (some .deadList))
        first (some (.data d))) (.data d) (some .aliveList)
      next1 := Function.update (Function.update e.next1 (.data d) (e.next1 (.process p)))
        (.process p) (some (.data d))
      prev1 := Function.update
        (match e.next1 (.process p) with
          | some head => Function.update e.prev1 head (some (.data d))
          | none => e.prev1) (.data d) (some (.process p))
      args := Function.update e.args (.data d) args } := by
  have hnot : e.next0 .deadList ≠ some .deadListEnd := by
    rw [hdead]
    simp
  rw [Engine.addConnection, if_neg hnot]
  have hfirst' : Function.update e.next0 .deadList (some after) .aliveList = some first := by
    rw [Function.update_of_ne (by simp), hfirst]
  rw [HasList] at hlist
  cases hhead : e.next1 (.process p) <;> rw [hhead] at hlist <;>
    simp only [hdead, hafter, hfirst', hhead, hlist, Engine.link0, bind, Option.bind, pure, guard,
      if_true, not_false_eq_true, ne_eq]

theorem nodup_nodes {alive : List ℕ} (h : (alive ++ d :: rest).Nodup) :
    (Connectable.aliveList :: .deadList :: .data d :: (rest.map Connectable.data ++
      [.deadListEnd] ++ (alive.map Connectable.data ++ [.aliveListEnd]))).Nodup := by
  have hperm : (d :: (rest ++ alive)).Nodup := by
    refine (List.Perm.nodup_iff ?_).mp h
    exact List.perm_middle.trans (List.Perm.cons d List.perm_append_comm)
  simp only [List.nodup_cons, List.nodup_append, List.mem_append] at hperm
  simp only [List.nodup_cons, List.nodup_append, List.nodup_map_iff data_injective,
    List.mem_append, List.mem_cons, List.mem_map]
  grind

theorem connectionsOf_added (hd : d ∉ pool.alive) :
    (addedPool pool d p rest).connectionsOf =
      Function.update pool.connectionsOf p (.data d :: pool.connectionsOf p) := by
  have hkept : ∀ q, pool.alive.filter (Function.update pool.owner d p · = q) =
      pool.alive.filter (pool.owner · = q) := by
    intro q
    apply List.filter_congr
    intro c hc
    have hne : c ≠ d := fun heq => hd (heq ▸ hc)
    rw [Function.update_of_ne hne]
  funext q
  change ((d :: pool.alive).filter (Function.update pool.owner d p · = q)).map _ = _
  rw [List.filter_cons, hkept, Function.update_self]
  by_cases hq : q = p
  · subst hq
    rw [Function.update_self, if_pos (decide_eq_true rfl)]
    rfl
  · rw [Function.update_of_ne hq, if_neg (by simpa using Ne.symm hq)]
    rfl

theorem nodup_connectionsOf (h : DescribesPool size e pool) (q : ℕ) :
    (pool.connectionsOf q).Nodup :=
  (((List.nodup_append.mp (nodup_pool h)).1).filter _).map data_injective

theorem addConnection_spec (h : DescribesPool size e pool) (hdead : pool.dead = d :: rest)
    (hlist : HasList e p) (args : ConnectionArguments) :
    ∃ e', e.addConnection (some p) args = some e' ∧
      DescribesPool size e' (addedPool pool d p rest) ∧ e'.args (.data d) = args := by
  have hnodup := nodup_pool h
  rw [hdead] at hnodup
  have hd : d ∉ pool.alive := fun hmem =>
    (List.nodup_append.mp hnodup).2.2 d hmem d List.mem_cons_self rfl
  obtain ⟨after, dead', hafter⟩ := ends_eq_cons rest .deadListEnd
  obtain ⟨first, alive', hfirst⟩ := ends_eq_cons pool.alive .aliveListEnd
  have hdeadLinks := h.dead
  have haliveLinks := h.alive
  rw [hdead, List.map_cons, List.cons_append, List.cons_append, hafter] at hdeadLinks
  rw [List.cons_append, hfirst] at haliveLinks
  have hnodes : (Connectable.aliveList :: .deadList :: .data d :: after :: dead' ++
      first :: alive').Nodup := by
    rw [List.cons_append, List.cons_append, List.cons_append, ← hafter, ← hfirst]
    exact nodup_nodes hnodup
  have hnext : (addedPool pool d p rest).connectionsOf =
      Function.update pool.connectionsOf p (.data d :: pool.connectionsOf p) :=
    connectionsOf_added hd
  obtain ⟨hdead', halive'⟩ := addConnection_links0 hdeadLinks haliveLinks hnodes
  have hdata : ∀ q, ∀ node ∈ pool.connectionsOf q, ∃ c, c ≠ d ∧ node = .data c := by
    intro q node hnode
    obtain ⟨c, hc, -, rfl⟩ := mem_connectionsOf.mp hnode
    exact ⟨c, fun heq => hd (heq ▸ hc), rfl⟩
  have hdisjoint : ∀ q, q ≠ p → ∀ node ∈ pool.connectionsOf q, node ∉ pool.connectionsOf p := by
    intro q hq node hnode hnode'
    obtain ⟨c, -, rfl, rfl⟩ := mem_connectionsOf.mp hnode
    obtain ⟨c', -, hc', heq⟩ := mem_connectionsOf.mp hnode'
    obtain rfl := data_injective heq
    exact hq hc'
  have hprocess := addConnection_links1 (d := d) hlist h.process h.threads
    (nodup_connectionsOf h p) hdata hdisjoint
  rw [← hnext] at hprocess
  refine ⟨_, addConnection_eq hdeadLinks.1.1 hdeadLinks.2.1.1 haliveLinks.1.1 hlist args, ?_,
    Function.update_self ..⟩
  have hlists : ∀ q, Function.update (Function.update e.next1 (.data d) (e.next1 (.process p)))
      (.process p) (some (.data d)) (.process q) ≠ some .unset ↔ (q ≠ p → HasList e q) := by
    intro q
    by_cases hq : q = p
    · simp [hq]
    · simp [hq, HasList]
  refine ⟨?_, ?_, ?_, ?_, fun q hq => ?_, fun q hq => (hprocess q ((hlists q).mp hq)).1,
    fun q hq => (hprocess q ((hlists q).mp hq)).2⟩
  · apply List.Perm.trans _ h.partition
    rw [hdead]
    exact List.perm_middle.symm
  · change e.length + 1 = ((d :: pool.alive).length : ℤ)
    rw [h.length, List.length_cons]
    rfl
  · change DoublyLinked _ _ (Connectable.aliveList :: Connectable.data d ::
      pool.alive.map Connectable.data ++ [Connectable.aliveListEnd])
    rw [List.cons_append, List.cons_append, hfirst]
    exact halive'
  · change DoublyLinked _ _ (Connectable.deadList ::
      rest.map Connectable.data ++ [Connectable.deadListEnd])
    rw [List.cons_append, hafter]
    exact hdead'
  · obtain ⟨hqp, hnone⟩ := Classical.not_imp.mp (mt (hlists q).mpr hq)
    rw [hnext, Function.update_of_ne hqp]
    exact h.owned q hnone

end Adding

/-! ## The first pool -/

theorem foldl_link0 (e : Engine) (n : ℕ) :
    let e' := (List.range n).foldl (fun e i => e.link0 (.data i) (.data (i + 1))) e
    (e'.length = e.length ∧ e'.next1 = e.next1) ∧
      (∀ i < n, e'.next0 (.data i) = some (.data (i + 1)) ∧
        e'.prev0 (.data (i + 1)) = some (.data i)) ∧
      (∀ node, (∀ i < n, node ≠ .data i) → e'.next0 node = e.next0 node) ∧
      ∀ node, (∀ i < n, node ≠ .data (i + 1)) → e'.prev0 node = e.prev0 node := by
  induction n with
  | zero => exact ⟨⟨rfl, rfl⟩, fun i hi => absurd hi (Nat.not_lt_zero i), fun _ _ => rfl,
      fun _ _ => rfl⟩
  | succ n ih =>
    intro e'
    obtain ⟨hsame, hlinks, hnext, hprev⟩ := ih
    have he' : e' = ((List.range n).foldl (fun e i => e.link0 (.data i) (.data (i + 1))) e).link0
        (.data n) (.data (n + 1)) := by
      simp only [e', List.range_succ, List.foldl_concat]
    rw [he']
    refine ⟨hsame, fun i hi => ?_, fun node hnode => ?_, fun node hnode => ?_⟩
    · by_cases hin : i = n
      · subst hin
        exact ⟨Function.update_self .., Function.update_self ..⟩
      · obtain ⟨hi1, hi2⟩ := hlinks i (by omega)
        exact ⟨(Function.update_of_ne (by simpa using hin) ..).trans hi1,
          (Function.update_of_ne (by simpa using hin) ..).trans hi2⟩
    · exact (Function.update_of_ne (hnode n (Nat.lt_succ_self n)) ..).trans
        (hnext node fun i hi => hnode i (Nat.lt_succ_of_lt hi))
    · exact (Function.update_of_ne (hnode n (Nat.lt_succ_self n)) ..).trans
        (hprev node fun i hi => hnode i (Nat.lt_succ_of_lt hi))

theorem describesPool_new (hsize : 1 ≤ size) (isNull : ℕ → Bool) :
    DescribesPool size (Engine.new size isNull) ⟨[], List.range size, fun _ => 0⟩ := by
  obtain ⟨n, rfl⟩ := Nat.exists_eq_add_of_le' hsize
  obtain ⟨base, hnew, hlength, hnext1, halive, haliveEnd, hdead, hfirst, hlast, hdeadEnd⟩ :
      ∃ base : Engine, Engine.new (n + 1) isNull =
          (List.range n).foldl (fun e i => e.link0 (.data i) (.data (i + 1))) base ∧
        base.length = 0 ∧
        (∀ p, base.next1 (.process p) = if isNull p then none else some .unset) ∧
        base.next0 .aliveList = some .aliveListEnd ∧ base.prev0 .aliveListEnd = some .aliveList ∧
        base.next0 .deadList = some (.data 0) ∧ base.prev0 (.data 0) = some .deadList ∧
        base.next0 (.data n) = some .deadListEnd ∧ base.prev0 .deadListEnd = some (.data n) :=
    ⟨_, rfl, rfl, fun _ => rfl, rfl, rfl, by simp [Engine.link0], by simp [Engine.link0],
      by simp [Engine.link0], by simp [Engine.link0]⟩
  obtain ⟨⟨hlength', hnext1'⟩, hlinks, hnext, hprev⟩ := foldl_link0 base n
  rw [← hnew] at hlength' hnext1' hlinks hnext hprev
  have hchain : ∀ m k, k + m = n → DoublyLinked (Engine.new (n + 1) isNull).next0
      (Engine.new (n + 1) isNull).prev0
      ((List.range' k (m + 1)).map Connectable.data ++ [.deadListEnd]) := by
    intro m
    induction m with
    | zero =>
      intro k hk
      obtain rfl : k = n := hk
      refine ⟨⟨?_, ?_⟩, trivial⟩
      · rw [hnext _ fun i hi heq => absurd (data_injective heq) (by omega), hlast]
      · rw [hprev _ (by simp), hdeadEnd]
    | succ m ih =>
      intro k hk
      rw [List.range'_succ, List.range'_succ]
      have hrest := ih (k + 1) (by omega)
      rw [List.range'_succ] at hrest
      exact ⟨hlinks k (by omega), hrest⟩
  refine ⟨?_, ?_, ?_, ?_, fun p _ => rfl, fun p _ => trivial, fun p hlist => ?_⟩
  · exact List.Perm.refl _
  · rw [hlength', hlength]
    rfl
  · refine ⟨⟨?_, ?_⟩, trivial⟩
    · rw [hnext _ (by simp), halive]
    · rw [hprev _ (by simp), haliveEnd]
  · have hrest := hchain n 0 (by omega)
    rw [List.range_eq_range']
    rw [List.range'_succ] at hrest ⊢
    refine ⟨⟨?_, ?_⟩, hrest⟩
    · rw [hnext _ (by simp), hdead]
    · rw [hprev _ (by simp), hfirst]
  · rw [HasList, hnext1', hnext1] at hlist
    rw [hnext1', hnext1]
    split_ifs at hlist ⊢ with hnull
    · rfl
    · exact absurd rfl hlist

/-! ## Calls -/

section Calls

variable {pool' : ConnectionPool} {returned : List Connectable} {call : EngineCall}

theorem alive_unique {node : Connectable} {l l' : List ℕ}
    (h : DoublyLinked e.next0 e.prev0 (node :: l.map .data ++ [.aliveListEnd]))
    (h' : DoublyLinked e.next0 e.prev0 (node :: l'.map .data ++ [.aliveListEnd])) : l = l' := by
  induction l generalizing node l' with
  | nil =>
    cases l' with
    | nil => rfl
    | cons c l' => exact absurd (h.1.1.symm.trans h'.1.1) (by simp)
  | cons c l ih =>
    cases l' with
    | nil => exact absurd (h.1.1.symm.trans h'.1.1) (by simp)
    | cons c' l' =>
      obtain rfl := data_injective (Option.some.inj (h.1.1.symm.trans h'.1.1))
      rw [ih h.tail h'.tail]

theorem hasList_new {p : ℕ} (isNull : ℕ → Bool) (hnull : isNull p = true) :
    HasList (Engine.new 1 isNull) p := by
  simp [HasList, Engine.new, Engine.link0, hnull]

theorem readsLists_of_run (hrun : call.run turns e = some (e', returned)) : ReadsLists e call := by
  have hitems : ∀ {test : Engine → Connectable → Bool} {p : ℕ},
      (Engine.removeItems test turns (e.next1 (.process p)) e).map (·, []) = some (e', returned) →
      HasList e p := by
    intro test p h hunset
    rw [hunset] at h
    cases turns with
    | zero => cases h
    | succ turns => cases h
  cases call with
  | addConnection process args =>
    cases process with
    | none => trivial
    | some p =>
      by_contra hnot
      obtain ⟨hsome, hunset⟩ := not_or.mp hnot
      have hhead : e.next1 (.process p) = some .unset := not_not.mp hunset
      rw [EngineCall.run, Engine.addConnection, if_neg hsome] at hrun
      simp [Engine.link0, hhead, Option.bind_eq_some_iff, guard] at hrun
  | removeFromProcess process =>
    cases process with
    | none => trivial
    | some p => exact hitems hrun
  | processDisconnect process =>
    cases process with
    | none => trivial
    | some p => exact hitems hrun
  | _ => trivial

/-- The connections whose function returns `EER_Dead`, as they are called. -/
def returnsDead (e : Engine) (pool : ConnectionPool) : EngineCall → List Connectable
  | .execute function => (pool.alive.reverse.map Connectable.data).filter fun node =>
      Engine.result function (e.args node) = .dead
  | _ => []

theorem unset_not_mem (pool : ConnectionPool) (p : ℕ) : .unset ∉ pool.connectionsOf p := by
  intro hmem
  obtain ⟨c, -, -, heq⟩ := mem_connectionsOf.mp hmem
  cases heq

theorem run_ends (h : DescribesPool size e pool) (hreads : ReadsLists e call)
    (hcall : ∀ process args, call ≠ .addConnection process args) :
    ∃ turns, call.run turns e = some (e, returnsDead e pool call) := by
  cases call with
  | addConnection process args => exact absurd rfl (hcall process args)
  | execute function => exact ⟨_, executeAlive_ends pool.alive h.alive⟩
  | removeFromProcess process =>
    cases process with
    | none => exact ⟨0, rfl⟩
    | some p =>
      exact ⟨_, congrArg (Option.map (·, []))
        (removeItems_ends (h.threads p hreads) (unset_not_mem pool p))⟩
  | processDisconnect process =>
    cases process with
    | none => exact ⟨0, rfl⟩
    | some p =>
      exact ⟨_, congrArg (Option.map (·, []))
        (removeItems_ends (h.threads p hreads) (unset_not_mem pool p))⟩
  | _ => exact ⟨_, congrArg (Option.map (·, [])) (removeAlive_ends h.alive)⟩

theorem run_eq (h : DescribesPool size e pool) (hcall : ∀ process args,
    call ≠ .addConnection process args) (hrun : call.run turns e = some (e', returned)) :
    e' = e ∧ returned = returnsDead e pool call := by
  have hmap : ∀ {o : Option Engine} {l : List Connectable}, (∀ t, o = some t → t = e) →
      o.map (·, l) = some (e', returned) → e' = e ∧ returned = l := by
    intro o l ho heq
    obtain ⟨t, ht, heq⟩ := Option.map_eq_some_iff.mp heq
    obtain ⟨rfl, rfl⟩ := Prod.mk.inj heq
    exact ⟨ho t ht, rfl⟩
  cases call with
  | addConnection process args => exact absurd rfl (hcall process args)
  | execute function =>
    have hdone := (executeAlive_mono hrun (Nat.le_max_left _ _)).symm.trans
      (executeAlive_mono (executeAlive_ends pool.alive h.alive) (Nat.le_max_right _ _))
    exact Prod.mk.inj (Option.some.inj hdone)
  | removeFromProcess process =>
    cases process with
    | none => exact hmap (fun _ ht => (Option.some.inj ht).symm) hrun
    | some p => exact hmap (fun _ ht => removeItems_eq ht) hrun
  | processDisconnect process =>
    cases process with
    | none => exact hmap (fun _ ht => (Option.some.inj ht).symm) hrun
    | some p => exact hmap (fun _ ht => removeItems_eq ht) hrun
  | _ => exact hmap (fun _ ht => removeAlive_eq ht) hrun

theorem addConnection_done (h : DescribesPool size e pool) {process : Option ℕ}
    {args : ConnectionArguments} (hreads : ReadsLists e (.addConnection process args)) :
    ∃ e' pool', (∀ turns, (EngineCall.addConnection process args).run turns e = some (e', [])) ∧
      DescribesPool size e' pool' ∧ CallDone e e' pool pool' [] (.addConnection process args) := by
  have hnone : ∀ pool' : ConnectionPool, ∀ node ∈ ([] : List Connectable),
      ∃ c ∈ pool'.dead, node = .data c := fun _ _ hnode => absurd hnode List.not_mem_nil
  cases process with
  | none => exact ⟨e, pool, fun _ => rfl, h, fun _ _ hmatch => hmatch.2, hnone pool, trivial⟩
  | some p =>
    cases hdead : pool.dead with
    | nil =>
      have hempty : e.next0 .deadList = some .deadListEnd := by
        have hlinks := h.dead
        rw [hdead] at hlinks
        exact hlinks.1.1
      refine ⟨e, pool, fun _ => ?_, h, fun _ _ hmatch => hmatch.2, hnone pool,
        fun c rest hcons => ?_⟩
      · rw [EngineCall.run, Engine.addConnection, if_pos hempty]
        rfl
      · rw [hdead] at hcons
        cases hcons
    | cons d rest =>
      have hsome : e.next0 .deadList ≠ some .deadListEnd := by
        have hlinks := h.dead
        rw [hdead] at hlinks
        rw [hlinks.1.1]
        simp
      obtain ⟨e', hrun, hpool, hargs⟩ := addConnection_spec h hdead (hreads.resolve_left hsome) args
      refine ⟨e', addedPool pool d p rest, fun _ => ?_, hpool, fun _ _ hmatch => hmatch.2,
        hnone _, fun c rest' hcons => ?_⟩
      · rw [EngineCall.run, hrun]
        rfl
      · rw [hdead] at hcons
        obtain ⟨rfl, rfl⟩ := List.cons.inj hcons
        exact ⟨rfl, rfl, Function.update_self .., hargs⟩

theorem call_done_iff (h : DescribesPool size e pool)
    (hrun : call.run turns e = some (e', returned)) :
    (∃ pool', DescribesPool size e' pool' ∧ CallDone e e' pool pool' returned call) ↔
      RemovesNothing e pool call := by
  by_cases hcall : ∃ process args, call = .addConnection process args
  · obtain ⟨process, args, rfl⟩ := hcall
    obtain ⟨t, pool', hadd, hpool, hdone⟩ := addConnection_done h (readsLists_of_run hrun)
    obtain ⟨rfl, rfl⟩ := Prod.mk.inj (Option.some.inj (hrun.symm.trans (hadd turns)))
    exact ⟨fun _ => ⟨fun _ _ hmatch => hmatch, fun _ heq => by cases heq⟩,
      fun _ => ⟨pool', hpool, hdone⟩⟩
  · have hnot : ∀ process args, call ≠ .addConnection process args :=
      fun process args heq => hcall ⟨process, args, heq⟩
    obtain ⟨rfl, rfl⟩ := run_eq h hnot hrun
    constructor
    · rintro ⟨pool', hpool, hmatched, hreturned, -⟩
      have halive := alive_unique h.alive hpool.alive
      refine ⟨fun c hc hmatch => hmatched c (halive ▸ hc) ⟨hc, hmatch⟩, ?_⟩
      rintro function rfl c hc hresult
      -- The connection would be alive and dead.
      obtain ⟨c', hc', heq⟩ := hreturned (.data c) (List.mem_filter.mpr
        ⟨List.mem_map_of_mem (List.mem_reverse.mpr hc), decide_eq_true hresult⟩)
      obtain rfl := data_injective heq
      exact (List.nodup_append.mp (nodup_pool hpool)).2.2 c (halive ▸ hc) c hc' rfl
    · rintro ⟨hmatched, hresults⟩
      refine ⟨pool, h, fun c hc hmatch => hmatched c hc hmatch.2, ?_, ?_⟩
      · intro node hnode
        exfalso
        cases call with
        | execute function =>
          obtain ⟨hmem, hdead⟩ := List.mem_filter.mp hnode
          obtain ⟨c, hc, rfl⟩ := List.mem_map.mp hmem
          exact hresults function rfl c (List.mem_reverse.mp hc) (of_decide_eq_true hdead)
        | _ => exact absurd hnode List.not_mem_nil
      · cases call with
        | addConnection process args => exact absurd rfl (hnot process args)
        | _ => trivial

theorem run_total (h : DescribesPool size e pool) (hreads : ReadsLists e call) :
    ∃ turns e' returned, call.run turns e = some (e', returned) := by
  by_cases hcall : ∃ process args, call = .addConnection process args
  · obtain ⟨process, args, rfl⟩ := hcall
    obtain ⟨t, pool', hadd, -⟩ := addConnection_done h hreads
    exact ⟨0, t, [], hadd 0⟩
  · obtain ⟨turns, hrun⟩ := run_ends h hreads fun process args heq => hcall ⟨process, args, heq⟩
    exact ⟨turns, e, _, hrun⟩

theorem keepsPool_iff_of_describes (calls : List EngineCall) (h : DescribesPool size e pool) :
    KeepsPool size e calls ↔ RemovesNothingRun size e calls := by
  induction calls generalizing e pool with
  | nil => exact ⟨fun _ => trivial, fun _ => ⟨pool, h⟩⟩
  | cons call calls ih =>
    constructor
    · rintro ⟨-, ⟨_, _, _, hsome⟩, hall⟩
      refine ⟨readsLists_of_run hsome, fun turns e' returned pool₁ hrun h₁ => ?_⟩
      obtain ⟨hdone, hrest⟩ := hall turns e' returned pool₁ hrun h₁
      refine ⟨(call_done_iff h₁ hrun).mp hdone, ?_⟩
      obtain ⟨pool', h', -⟩ := hdone
      exact (ih h').mp hrest
    · rintro ⟨hreads, hall⟩
      refine ⟨⟨pool, h⟩, run_total h hreads, fun turns e' returned pool₁ hrun h₁ => ?_⟩
      obtain ⟨hnothing, hrest⟩ := hall turns e' returned pool₁ hrun h₁
      obtain ⟨pool', h', hdone⟩ := (call_done_iff h₁ hrun).mpr hnothing
      exact ⟨⟨pool', h', hdone⟩, (ih h').mpr hrest⟩

end Calls

/-! ## Runs -/

/-- The pool of an engine is kept in order by every run that reads no links that were never set, and
a run does with the connections what it should exactly when, besides, no call has a connection to
remove: `GetEngine` always returns null, so `MoveToDead` does nothing.
SRCLINE: Connection.cpp:28-48, 82-90 -/
theorem keepsPool_iff (size : ℕ) (isNull : ℕ → Bool) (calls : List EngineCall) (hsize : 1 ≤ size) :
    KeepsPool size (Engine.new size isNull) calls ↔
      RemovesNothingRun size (Engine.new size isNull) calls :=
  keepsPool_iff_of_describes calls (describesPool_new hsize isNull)

/-- The second call finds the pool exhausted before it looks at its process, whose links are not
null. SRCLINE: Engine.cpp:141-142 -/
theorem keepsPool_exhausted :
    KeepsPool 1 (Engine.new 1 (· = 3)) [.addConnection (some 3) {}, .addConnection (some 4) {}] := by
  refine (keepsPool_iff 1 _ _ (Nat.le_refl 1)).mpr ⟨.inr (hasList_new _ rfl), ?_⟩
  intro turns e' returned pool hrun h
  refine ⟨⟨fun _ _ hmatch => hmatch, fun _ heq => by cases heq⟩, .inl ?_, fun _ _ _ _ _ _ =>
    ⟨⟨fun _ _ hmatch => hmatch, fun _ heq => by cases heq⟩, trivial⟩⟩
  obtain ⟨t, hadd, hpool, -⟩ := addConnection_spec (describesPool_new (Nat.le_refl 1) (· = 3))
    (show List.range 1 = 0 :: [] from rfl) (hasList_new (p := 3) _ rfl) {}
  rw [EngineCall.run, hadd] at hrun
  obtain ⟨rfl, -⟩ := Prod.mk.inj (Option.some.inj hrun)
  exact hpool.dead.1.1

/-- A connection is added, and `RemoveAll` leaves it alive.
SRCLINE: Engine.cpp:214-225 -/
theorem not_keepsPool_removeAll :
    ¬ ∀ (size : ℕ) (isNull : ℕ → Bool) (calls : List EngineCall), 1 ≤ size →
      KeepsPool size (Engine.new size isNull) calls := by
  intro h
  have hnew := describesPool_new (Nat.le_refl 1) fun _ => true
  have hkeeps := h 1 (fun _ => true) [.addConnection (some 3) {}, .removeAll] (Nat.le_refl 1)
  obtain ⟨e', hadd, hpool, -⟩ := addConnection_spec hnew
    (show List.range 1 = 0 :: [] from rfl) (hasList_new (p := 3) _ rfl) {}
  have hrun : (EngineCall.addConnection (some 3) {}).run 0 (Engine.new 1 fun _ => true) =
      some (e', []) := by
    rw [EngineCall.run, hadd]
    rfl
  have hrest := (((keepsPool_iff_of_describes _ hnew).mp hkeeps).2 0 e' [] _ hrun hnew).2.2
  have hreads : ReadsLists e' .removeAll := trivial
  obtain ⟨turns, t, returned, hremove⟩ := run_total hpool hreads
  exact (hrest turns t returned _ hremove hpool).1.1 0 List.mem_cons_self trivial

end Soot.Analysis
