import Soot.Model.Script.Tables
import Soot.Analysis.Script.Checks

/-!
# When a hash table behaves as a finite map

Each call on a table answers as the map does and leaves what the map has exactly if it is
respectful. `get-at` reads with an operator that inserts a key it does not find, `set-at!` ignores
symbols, and two reads cut a string off at its first zero; the other calls are always respectful. So
a sequence of calls behaves as the map exactly if all of them are respectful.
-/

set_option autoImplicit false

namespace Soot.Analysis.Script

open Soot.Computation Soot.Computation.StatefulExcept Soot.Program.Script Soot.Model.Script

variable {P : Printing} {nav : Navigation} {form : Object}

/-! ## One table -/

section Calls

variable {tables : List HashTableObject} {table : ℕ} {m : Finmap fun _ : Text => Object}

theorem set_unchanged (htable : tables[table]? = some ⟨m⟩) : tables.set table ⟨m⟩ = tables := by
  obtain ⟨hlt, hget⟩ := List.getElem?_eq_some_iff.mp htable
  rw [← hget, List.set_getElem_self]

theorem getElem?_set_table (htable : tables[table]? = some ⟨m⟩) (ht : HashTableObject) :
    (tables.set table ht)[table]? = some ht :=
  List.getElem?_set_self (List.getElem?_eq_some_iff.mp htable).1

theorem set_inj (htable : tables[table]? = some ⟨m⟩) (m₁ m₂ : Finmap fun _ : Text => Object) :
    tables.set table ⟨m₁⟩ = tables.set table ⟨m₂⟩ ↔ m₁ = m₂ := by
  constructor
  · intro h
    have hget := getElem?_set_table htable ⟨m₁⟩
    rw [h, getElem?_set_table htable ⟨m₂⟩] at hget
    exact (HashTableObject.mk.inj (Option.some.inj hget)).symm
  · intro h
    rw [h]

theorem runFrom_tableData (htable : tables[table]? = some ⟨m⟩) :
    (tableData table).runFrom tables = (.ok m, tables) := by
  rw [tableData, runFrom_bind, runFrom_get]
  simp only [htable]
  rfl

theorem runFrom_setData (htable : tables[table]? = some ⟨m⟩) (key : Text) (value : Object) :
    (setData table key value).runFrom tables =
      (.ok ⟨⟩, tables.set table ⟨m.insert key value⟩) := by
  rw [setData, runFrom_modify, List.modify_eq_set_getElem?, htable]
  rfl

theorem runFrom_indexData (htable : tables[table]? = some ⟨m⟩) (key : Text) :
    (indexData table key).runFrom tables =
      match m.lookup key with
      | some value => (.ok value, tables)
      | none => (.ok .none, tables.set table ⟨m.insert key .none⟩) := by
  rw [indexData, runFrom_bind, runFrom_tableData htable]
  cases hkey : m.lookup key with
  | some value =>
    simp only [hkey]
    rfl
  | none =>
    simp only [hkey]
    rw [runFrom_bind, runFrom_setData htable]
    rfl

theorem toStdString_object (key : TableKey) : toStdString P key.object = .ok key.text := by
  cases key <;> rfl

theorem getHashKey_object (key : TableKey) : getHashKey key.object = some key.cText := by
  cases key <;> rfl

theorem typeName_object (key : TableKey) :
    key.object.typeName = text "symbol" ∨ key.object.typeName = text "string" := by
  cases key
  · exact .inl rfl
  · exact .inr rfl

/-! ## Calls -/

theorem run_set (htable : tables[table]? = some ⟨m⟩) (key : TableKey) (value : Object) :
    ((TableCall.set key value).run P nav form table).runFrom tables =
      (.ok .emptyList, tables.set table ⟨m.insert key.text value⟩) := by
  have hcheck : varargCheck P form
      { unnamed := [.heapObject .hashTable table, key.object, value] }
      [tableType, [text "symbol", text "string"], []] = .ok () := by
    apply varargCheck_ok rfl
    refine .cons (.inr (List.mem_singleton_self _)) (.cons (.inr ?_) (.cons (.inl rfl) .nil))
    simpa using typeName_object key
  simp only [TableCall.run, TableCall.arguments, evalHashTableSet, hcheck, runFrom_bind,
    runFrom_ofExcept, asHashTable, toStdString_object, runFrom_setData htable]
  rfl

theorem run_ref (htable : tables[table]? = some ⟨m⟩) (key : TableKey) (default : Option Object) :
    ((TableCall.ref key default).run P nav form table).runFrom tables =
      ((TableCall.ref key default).answer form m, tables) := by
  have htype : key.object.typeName ∈ [text "string", text "symbol"] := by
    simpa [or_comm] using typeName_object key
  cases default with
  | none =>
    have hcheck : varargCheck P form { unnamed := [.heapObject .hashTable table, key.object] }
        [tableType, [text "string", text "symbol"]] = .ok () := by
      apply varargCheck_ok rfl
      exact .cons (.inr (List.mem_singleton_self _)) (.cons (.inr htype) .nil)
    simp only [TableCall.run, TableCall.arguments, Option.toList, evalHashTableRef,
      List.length_cons, List.length_nil, Nat.reduceAdd, Nat.lt_irrefl, if_false, hcheck,
      runFrom_bind, runFrom_ofExcept, asHashTable, toStdString_object, runFrom_tableData htable,
      TableCall.answer]
    cases m.lookup key.text <;> rfl
  | some default =>
    have hcheck : varargCheck P form
        { unnamed := [.heapObject .hashTable table, key.object, default] }
        [tableType, [text "string", text "symbol"], []] = .ok () := by
      apply varargCheck_ok rfl
      exact .cons (.inr (List.mem_singleton_self _)) (.cons (.inr htype) (.cons (.inl rfl) .nil))
    simp only [TableCall.run, TableCall.arguments, Option.toList, evalHashTableRef,
      List.length_cons, List.length_nil, Nat.reduceAdd, Nat.reduceLT, if_true, hcheck,
      runFrom_bind, runFrom_ofExcept, asHashTable, toStdString_object, runFrom_tableData htable,
      TableCall.answer]
    cases m.lookup key.text <;> rfl

theorem run_withValue (htable : tables[table]? = some ⟨m⟩) (key : TableKey)
    (answer : Option Object → Object) :
    (withValue P form { unnamed := [.heapObject .hashTable table, key.object] } answer).runFrom
      tables = (.ok (answer (m.lookup key.cText)), tables) := by
  have hcheck : varargCheck P form { unnamed := [.heapObject .hashTable table, key.object] }
      [tableType, []] = .ok () := by
    apply varargCheck_ok rfl
    exact .cons (.inr (List.mem_singleton_self _)) (.cons (.inl rfl) .nil)
  simp only [withValue, hcheck, runFrom_bind, runFrom_ofExcept, asHashTable, getHashKey_object,
    runFrom_tableData htable]
  rfl

theorem run_length (htable : tables[table]? = some ⟨m⟩) :
    (TableCall.length.run P nav form table).runFrom tables =
      (TableCall.length.answer form m, tables) := by
  have hcheck : varargCheck P form { unnamed := [.heapObject .hashTable table] } [[]] = .ok () :=
    varargCheck_ok rfl (.cons (.inl rfl) .nil)
  simp only [TableCall.run, TableCall.arguments, evalHashTableLength, hcheck, runFrom_bind,
    runFrom_ofExcept, asHashTable, runFrom_tableData htable]
  rfl

theorem runFrom_getAt (htable : tables[table]? = some ⟨m⟩) (key : TableKey) :
    (HashTableObject.getAt table key.object).runFrom tables =
      match m.lookup key.text with
      | some value => (.ok value, tables)
      | none => (.ok .none, tables.set table ⟨m.insert key.text .none⟩) := by
  cases key <;> exact runFrom_indexData htable _

theorem run_getAt (htable : tables[table]? = some ⟨m⟩) (key : TableKey)
    (default : Option Object) :
    ((TableCall.getAt key default).run P nav form table).runFrom tables =
      (let e := evalError form (text "get-at: key or index not found")
      match m.lookup key.text with
      | some .none => (TableCall.valueOr none default e, tables)
      | some value => (.ok value, tables)
      | none => (TableCall.valueOr none default e,
          tables.set table ⟨m.insert key.text .none⟩)) := by
  cases default with
  | none =>
    simp only [TableCall.run, TableCall.arguments, Option.toList, evalGetAt, List.length_cons,
      List.length_nil, Nat.reduceAdd, Nat.reduceLT, gt_iff_lt, Nat.lt_irrefl, or_self, if_false,
      Object.isHeapObject, Bool.not_true, Bool.false_eq_true, runFrom_bind, runFrom_getAt htable]
    cases m.lookup key.text with
    | none => rfl
    | some value => cases value <;> rfl
  | some default =>
    simp only [TableCall.run, TableCall.arguments, Option.toList, evalGetAt, List.length_cons,
      List.length_nil, Nat.reduceAdd, Nat.reduceLT, gt_iff_lt, Nat.lt_irrefl, or_self, if_false,
      Object.isHeapObject, Bool.not_true, Bool.false_eq_true, runFrom_bind, runFrom_getAt htable]
    cases m.lookup key.text with
    | none => rfl
    | some value => cases value <;> rfl

theorem run_setAt (htable : tables[table]? = some ⟨m⟩) (key : TableKey) (value : Object) :
    ((TableCall.setAt key value).run P nav form table).runFrom tables =
      (.ok .emptyList, match key with
        | .symbol _ => tables
        | .string data => tables.set table ⟨m.insert data value⟩) := by
  have hcheck : varargCheck P form
      { unnamed := [.heapObject .hashTable table, key.object, value] } [[], [], []] = .ok () :=
    varargCheck_ok rfl (.cons (.inl rfl) (.cons (.inl rfl) (.cons (.inl rfl) .nil)))
  simp only [TableCall.run, TableCall.arguments, evalSetAt, hcheck, runFrom_bind,
    runFrom_ofExcept]
  cases key with
  | symbol name => rfl
  | string data =>
    have hset := runFrom_setData htable data value
    simp only [Object.isHeapObject, if_true, runFrom_bind, TableKey.object, HashTableObject.setAt,
      hset]
    rfl

end Calls

/-! ## Runs -/

theorem trueOrFalse_inj {b c : Bool} : trueOrFalse b = trueOrFalse c ↔ b = c := by
  have hne : text "#t" ≠ text "#f" := by with_unfolding_all decide
  cases b <;> cases c <;> simp [trueOrFalse, hne, hne.symm]

theorem tryAnswer_inj {value value' : Option Object} :
    tryAnswer value = tryAnswer value' ↔ value = value' := by
  cases value <;> cases value' <;> simp [tryAnswer, trueOrFalse_inj]

theorem run_eq_iff {tables : List HashTableObject} {table : ℕ} {m : Finmap fun _ : Text => Object}
    (htable : tables[table]? = some ⟨m⟩) (call : TableCall) :
    (call.run P nav form table).runFrom tables =
        (call.answer form m, tables.set table ⟨writtenAfter m call⟩) ↔ Respectful m call := by
  have hsame := set_unchanged htable
  cases call with
  | set key value => exact iff_of_true (run_set htable key value) trivial
  | ref key default =>
    refine iff_of_true ?_ trivial
    simp only [writtenAfter, hsame]
    exact run_ref htable key default
  | tryRef key =>
    have hrun : ((TableCall.tryRef key).run P nav form table).runFrom tables = _ :=
      run_withValue htable key tryAnswer
    simp only [hrun, writtenAfter, hsame, TableCall.answer, Respectful, Prod.mk.injEq, and_true,
      Except.ok.injEq, tryAnswer_inj]
  | contains key =>
    have hrun : ((TableCall.contains key).run P nav form table).runFrom tables = _ :=
      run_withValue htable key fun value => trueOrFalse value.isSome
    simp only [hrun, writtenAfter, hsame, TableCall.answer, Respectful, Prod.mk.injEq, and_true,
      Except.ok.injEq, trueOrFalse_inj]
  | length =>
    refine iff_of_true ?_ trivial
    simp only [writtenAfter, hsame]
    exact run_length htable
  | getAt key default =>
    simp only [run_getAt htable, writtenAfter, TableCall.answer, Respectful, hsame]
    cases hkey : m.lookup key.text with
    | none =>
      refine iff_of_false ?_ (by simp)
      intro h
      have htables := congrArg Prod.snd h
      rw [← hsame, List.set_set, set_inj htable] at htables
      have hlookup := Finmap.lookup_insert (a := key.text) (b := Object.none) m
      rw [htables, hkey] at hlookup
      cases hlookup
    | some value =>
      cases value <;> cases default <;> simp [TableCall.valueOr]
  | setAt key value =>
    simp only [run_setAt htable, writtenAfter, TableCall.answer, Respectful]
    cases key with
    | string data => exact iff_of_true rfl (.inl trivial)
    | symbol name =>
      have hset := set_inj htable m (m.insert name value)
      rw [hsame] at hset
      simp only [TableKey.IsString, TableKey.text, false_or, Prod.mk.injEq, true_and]
      refine hset.trans ⟨fun h => ?_, fun h => ?_⟩
      · rw [h, Finmap.lookup_insert]
      · apply Finmap.ext_lookup
        intro key
        by_cases hkey : key = name
        · rw [hkey, h, Finmap.lookup_insert]
        · rw [Finmap.lookup_insert_of_ne _ hkey]

/-- A sequence of calls on a table behaves as the map that the table starts with exactly if each of
its calls is respectful of what has been written before it. SRCLINE: Object.hpp:1016-1120 -/
theorem behavesAsMap_iff (P : Printing) (nav : Navigation) (form : Object)
    {tables : List HashTableObject} {table : ℕ} {m : Finmap fun _ : Text => Object}
    (htable : tables[table]? = some ⟨m⟩) (calls : List TableCall) :
    BehavesAsMap P nav form table tables m calls ↔ AllRespectful m calls := by
  induction calls generalizing tables m with
  | nil =>
    refine iff_of_true (fun n => ?_) trivial
    rw [List.take_nil]
    exact congrArg (Prod.mk []) (set_unchanged htable).symm
  | cons call calls ih =>
    have htable' := getElem?_set_table htable ⟨writtenAfter m call⟩
    have hcall : (call.run P nav form table).runFrom tables =
        (call.answer form m, tables.set table ⟨writtenAfter m call⟩) ↔ Respectful m call :=
      run_eq_iff htable call
    rw [AllRespectful, ← hcall, ← ih htable']
    constructor
    · intro h
      -- the first call alone, then all of them
      have hfirst := h 1
      simp only [List.take_succ_cons, List.take_zero, runCalls, answers, List.foldl_cons,
        List.foldl_nil, Prod.mk.injEq, List.cons.injEq, and_true] at hfirst
      have hrun : (call.run P nav form table).runFrom tables =
          (call.answer form m, tables.set table ⟨writtenAfter m call⟩) :=
        Prod.ext hfirst.1 hfirst.2
      refine ⟨hrun, fun n => ?_⟩
      have hall := h (n + 1)
      simp only [List.take_succ_cons, runCalls, hrun, answers, List.foldl_cons, Prod.mk.injEq,
        List.cons.injEq, true_and] at hall
      rw [List.set_set]
      exact Prod.ext hall.1 hall.2
    · rintro ⟨hrun, hrest⟩ n
      cases n with
      | zero => exact congrArg (Prod.mk []) (set_unchanged htable).symm
      | succ n =>
        have hcalls := hrest n
        rw [List.set_set] at hcalls
        simp only [List.take_succ_cons, runCalls, hrun, hcalls, answers, List.foldl_cons]

/-- A string is written by `set-at!` and read as a symbol by `get-at`. -/
theorem behavesAsMap_written :
    let calls : List TableCall := [.setAt (.string (text "a")) (.int 1), .getAt (.symbol (text "a"))
      none]
    AllRespectful ∅ calls ∧ BehavesAsMap ⟨fun _ => [], fun _ => []⟩
      ⟨fun _ _ => pure .none, fun _ _ _ => pure ()⟩ .emptyList 0 [⟨∅⟩] ∅ calls := by
  intro calls
  have hrespectful : AllRespectful ∅ calls := by
    refine ⟨.inl trivial, ⟨.int 1, ?_, nofun⟩, trivial⟩
    exact Finmap.lookup_insert (β := fun _ : Text => Object) ∅
  exact ⟨hrespectful, (behavesAsMap_iff _ _ _ rfl calls).mpr hrespectful⟩

/-- What `set-at!` writes to a symbol is not there. SRCLINE: Object.hpp:1114-1119 -/
theorem not_behavesAsMap :
    ¬∀ (P : Printing) (nav : Navigation) (form : Object) (tables : List HashTableObject)
      (table : ℕ) (m : Finmap fun _ : Text => Object) (calls : List TableCall),
      tables[table]? = some ⟨m⟩ → BehavesAsMap P nav form table tables m calls := by
  intro h
  have hrun := h ⟨fun _ => [], fun _ => []⟩ ⟨fun _ _ => pure .none, fun _ _ _ => pure ()⟩ .emptyList
    [⟨∅⟩] 0 ∅ [.setAt (.symbol (text "a")) (.int 1)] rfl 1
  have htables := congrArg (fun r => r.2) hrun
  simp only [List.take_succ_cons, List.take_zero, runCalls,
    run_setAt (show [HashTableObject.mk ∅][0]? = some ⟨∅⟩ from rfl)] at htables
  have hdata := congrArg HashTableObject.data (List.head_eq_of_cons_eq htables)
  have hinsert : (∅ : Finmap fun _ : Text => Object).insert (text "a") (.int 1) = ∅ := hdata.symm
  have hlookup : ((∅ : Finmap fun _ : Text => Object).insert (text "a") (.int 1)).lookup (text "a") =
      some (.int 1) := Finmap.lookup_insert _
  rw [hinsert, Finmap.lookup_empty] at hlookup
  cases hlookup

end Soot.Analysis.Script
