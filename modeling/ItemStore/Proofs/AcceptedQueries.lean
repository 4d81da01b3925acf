import ItemStore.Proofs.Lifecycle
import ItemStore.Proofs.ReadPaths
import ItemStore.Wire.Response

/-!
# Queries that are accepted

A query can be refused in six places, which come one after the other: for its table, for repeated
attributes, for its index, for a condition that no item could be put to, for the condition on the
hash attribute and for one of the others.  What passes them all can be said at once, without the
order of the checks, and then nothing is left to fail.

* `TableSchema.Selects` — the key that a query goes by.  On a declared table `Table.keysFor` finds
  it (`Table.keysFor_eq_ok`).
* `KeySchema.Asked` — key conditions that give the hash attribute a value, and besides ask for an
  order of the range attribute at most; **`KeySchema.exists_keyQuery_iff`** says that these are the
  ones that are accepted.
* `Query.Accepted` — all that a query must be.
* `Query.MeetsKey`, `Query.MeetsFilter` — what an item must be to be looked at, and to be found.
* **`Store.query_accepted`** — the accepted queries are the ones that succeed, and what they find.
-/

namespace ItemStore

open Answer

/-! ## Key conditions -/

namespace KeySchema

variable {keys : KeySchema}

/-- Key conditions are accepted one by one, the one on the hash attribute apart. -/
lemma exists_rangeCondition_iff {entries : List (String × Condition)} :
    (∃ range, keys.rangeCondition entries = .ok range) ↔
      ∀ e ∈ entries, e.1 ≠ keys.hash.name → keys.checkRange e.1 e.2 = .ok () := by
  induction entries with
  | nil => exact iff_of_true ⟨none, rfl⟩ (List.forall_mem_nil _)
  | cons e rest ih =>
      rw [List.forall_mem_cons, ← ih, rangeCondition]
      by_cases hname : e.1 = keys.hash.name
      · rw [if_pos hname]
        exact (and_iff_right (absurd hname)).symm
      · rw [if_neg hname, forall_prop_of_true hname]
        constructor
        · rintro ⟨range, h⟩
          obtain ⟨_, hfirst, h⟩ := bind_eq_ok.mp h
          obtain ⟨later, hlater, _⟩ := bind_eq_ok.mp h
          exact ⟨hfirst, later, hlater⟩
        · rintro ⟨hfirst, later, hlater⟩
          exact ⟨_, bind_eq_ok.mpr ⟨(), hfirst, bind_eq_ok.mpr ⟨later, hlater, rfl⟩⟩⟩

/-- Conditions that ask for a value of the hash attribute, and of no other attribute than the range
attribute for an order. -/
structure Asked (keys : KeySchema) (conditions : List (String × Condition)) (v : Value) : Prop where
  hash : (keys.hash.name, ⟨.eq, [v]⟩) ∈ conditions
  range : ∀ e ∈ conditions, e.1 ≠ keys.hash.name →
    keys.range.map KeyAttribute.name = some e.1 ∧ e.2.OrdersKeys

/-- **The key conditions that are accepted.** -/
theorem exists_keyQuery_iff {conditions : NameList Condition} :
    (∃ keyQuery, keys.keyQuery conditions = .ok keyQuery) ↔
      ∃ v, keys.Asked conditions.entries v := by
  have hrange := @exists_rangeCondition_iff keys conditions.entries
  simp only [checkRange_eq_ok] at hrange
  constructor
  · rintro ⟨_, h⟩
    obtain ⟨v, hv, h⟩ := bind_eq_ok.mp h
    obtain ⟨range, h, _⟩ := bind_eq_ok.mp h
    exact ⟨v, hashValue_eq_ok.mp hv, hrange.mp ⟨range, h⟩⟩
  · rintro ⟨v, hv, h⟩
    obtain ⟨range, h⟩ := hrange.mpr h
    exact ⟨_, bind_eq_ok.mpr ⟨v, hashValue_eq_ok.mpr hv, bind_eq_ok.mpr ⟨range, h, rfl⟩⟩⟩

end KeySchema

/-! ## Selected keys -/

/-- The key that a query goes by: the one of the table, or of the index of a name. -/
def TableSchema.Selects (s : TableSchema) (index : Option String) (keys : KeySchema) : Prop :=
  match index with
  | none => keys = s.primary
  | some name => ∃ index ∈ s.indexes, index.name = name ∧ index.keys = keys

/-- A declared table finds the key that a query goes by, since no two of its indexes have one
name. -/
lemma Table.keysFor_eq_ok {t : Table} {name : String} {d : TableDeclaration}
    (h : t.DeclaredAs name d) {index : Option String} {keys : KeySchema} :
    t.keysFor index = .ok keys ↔ t.schema.Selects index keys := by
  cases index with
  | none => rw [keysFor, TableSchema.Selects, Except.ok.injEq, eq_comm]
  | some name =>
      constructor
      · intro hkeys
        rw [keysFor] at hkeys
        cases hfind : t.schema.indexKeys? name with
        | none => simp [hfind] at hkeys
        | some keys' =>
            obtain ⟨index, hindex, rfl⟩ := Option.map_eq_some_iff.mp hfind
            obtain rfl : index.keys = keys := by simpa [hfind] using hkeys
            have hname : index.name = name := by simpa using List.find?_some hindex
            exact ⟨index, List.mem_of_find?_eq_some hindex, hname, rfl⟩
      · rintro ⟨index, hindex, rfl, rfl⟩
        have hread := TableSchema.readFrom_of_ofDeclaration h.schema
        exact hread.indexKeys t rfl index hindex

/-! ## Accepted queries -/

namespace Query

variable {q : Query} {keys : KeySchema} {v : Value}

/-- What a query must be that a table of a schema answers: it goes by a key of the schema, for a
value of the hash attribute. -/
structure Accepted (q : Query) (s : TableSchema) (keys : KeySchema) (v : Value) : Prop where
  attributes : q.attributes.Nodup
  selects : s.Selects q.index keys
  conditions : ∀ c ∈ q.keyConditions.values ++ q.filter.values, c.Checked
  asked : keys.Asked q.keyConditions.entries v

/-- An item has the hash value of a query and, if a condition is put to its range attribute, meets
it. -/
def MeetsKey (q : Query) (keys : KeySchema) (v : Value) (item : Item) : Prop :=
  keys.hash.agreesIn item v = true ∧
    ∀ e ∈ q.keyConditions.entries, e.1 ≠ keys.hash.name → e.2.evaluate (item.get? e.1) = .ok true

instance (q : Query) (keys : KeySchema) (v : Value) : DecidablePred (q.MeetsKey keys v) :=
  fun _ => inferInstanceAs (Decidable (_ ∧ _))

/-- An item meets the filter of a query. -/
def MeetsFilter (q : Query) (item : Item) : Prop :=
  (q.combinator.getD .all).evaluate q.filter.entries item = .ok true

instance (q : Query) : DecidablePred q.MeetsFilter :=
  fun _ => inferInstanceAs (Decidable (_ = _))

lemma Accepted.meetsKey_iff {s : TableSchema} (h : q.Accepted s keys v) (item : Item) :
    q.MeetsKey keys v item ↔
      q.keyConditions.entries.all (Condition.holdsIn item) = true := by
  have hhash : Condition.holdsIn item (keys.hash.name, ⟨.eq, [v]⟩) = keys.hash.agreesIn item v := by
    rw [Condition.holdsIn, Condition.holds, KeyAttribute.agreesIn]
    cases item.get? keys.hash.name <;> rfl
  have hevaluate : ∀ e ∈ q.keyConditions.entries,
      e.2.evaluate (item.get? e.1) = .ok (Condition.holdsIn item e) := fun e he =>
    Condition.evaluate_eq_holds
      (h.conditions e.2 (List.mem_append_left _ (List.mem_map.mpr ⟨e, he, rfl⟩))).supported _
  rw [MeetsKey, List.all_eq_true, ← hhash]
  constructor
  · rintro ⟨hfirst, hothers⟩ ⟨name, c⟩ he
    by_cases hname : name = keys.hash.name
    · subst hname
      -- names are listed once, so this is the condition on the hash attribute
      have hc : some c = some ⟨.eq, [v]⟩ := (NameList.get?_eq_some_iff.mpr he).symm.trans
        (NameList.get?_eq_some_iff.mpr h.asked.hash)
      obtain rfl := Option.some.inj hc
      exact hfirst
    · exact Except.ok.inj ((hevaluate _ he).symm.trans (hothers _ he hname))
  · intro hall
    refine ⟨hall _ h.asked.hash, fun e he _ => ?_⟩
    rw [hevaluate e he, hall e he]

lemma Accepted.meetsFilter_iff {s : TableSchema} (h : q.Accepted s keys v) (item : Item) :
    q.MeetsFilter item ↔ (q.combinator.getD .all).holds q.filter.entries item = true := by
  rw [MeetsFilter, Combinator.evaluate_eq_holds fun e he => ?_, Except.ok.injEq]
  exact (h.conditions e.2 (List.mem_append_right _ (List.mem_map.mpr ⟨e, he, rfl⟩))).supported

/-- The items that a query looks at, in the order in which they are stored. -/
def candidates (q : Query) (keys : KeySchema) (v : Value) (items : List Item) : List Item :=
  items.filter fun item => q.MeetsKey keys v item

/-- The items that a query finds among those it looks at, cut down to its attributes. -/
def found (q : Query) (keys : KeySchema) (v : Value) (items : List Item) : List Item :=
  ((q.candidates keys v items).filter fun item => q.MeetsFilter item).map fun item =>
    item.project q.attributes

end Query

/-! ## Answers -/

namespace Answer

variable {q : Query} {c : Catalog} {t : Table} {name : String} {d : TableDeclaration}

/-- What an accepted query finds. -/
lemma query_of_accepted {keys : KeySchema} {v : Value} (ht : c.get? q.table = some t)
    (hdeclared : t.DeclaredAs name d) (h : q.Accepted t.schema keys v) :
    query q c = .ok (.found (q.found keys v t.rows.items)
      (q.candidates keys v t.rows.items).length) := by
  obtain ⟨keyQuery, hquery⟩ := KeySchema.exists_keyQuery_iff.mpr ⟨v, h.asked⟩
  have hcandidates : q.candidates keys v t.rows.items
      = t.rows.items.filter fun item => q.keyConditions.entries.all (Condition.holdsIn item) :=
    List.filter_congr fun item _ => by
      rw [Bool.eq_iff_iff, decide_eq_true_iff, h.meetsKey_iff]
  have hfound : ∀ items : List Item, (items.filter fun item => q.MeetsFilter item)
      = items.filter ((q.combinator.getD .all).holds q.filter.entries) := fun items =>
    List.filter_congr fun item _ => by
      rw [Bool.eq_iff_iff, decide_eq_true_iff, h.meetsFilter_iff]
  rw [query_eq_filter ht h.attributes ((Table.keysFor_eq_ok hdeclared).mpr h.selects) h.conditions
    hquery, Query.found, hfound, hcandidates]

lemma exists_query_iff (ht : c.get? q.table = some t) (hdeclared : t.DeclaredAs name d) :
    (∃ response, query q c = .ok response) ↔ ∃ keys v, q.Accepted t.schema keys v := by
  constructor
  · rintro ⟨response, h⟩
    simp only [query, bind_eq_ok, Catalog.require_eq_ok] at h
    obtain ⟨t', ht', _, hattributes, keys, hkeys, _, hconditions, keyQuery, hquery, _⟩ := h
    obtain rfl : t = t' := Option.some.inj (ht.symm.trans ht')
    obtain ⟨v, hasked⟩ := KeySchema.exists_keyQuery_iff.mp ⟨keyQuery, hquery⟩
    exact ⟨keys, v, checkAttributes_eq_ok.mp hattributes, (Table.keysFor_eq_ok hdeclared).mp hkeys,
      checkConditions_eq_ok.mp hconditions, hasked⟩
  · rintro ⟨keys, v, h⟩
    exact ⟨_, query_of_accepted ht hdeclared h⟩

end Answer

/-- A count that an answer has room for is given as it is. -/
lemma Wire.encodeCount_of_le {n : ℕ} (h : n ≤ maxCount) : encodeCount n = .nat n := by
  rw [encodeCount, capped, if_pos h]

namespace Store

/-- **Which queries succeed, and what they find**, on every table of every run.  A query succeeds
exactly if it names its attributes once each and an index that there is, if any; if its conditions
have operators of the store and valid operands; if its key conditions give the hash attribute of the
selected key one value; and if every other of them asks for an order of the range attribute.

It then finds, in the order in which they are stored and cut down to its attributes, the items with
that hash value that meet the condition on the range attribute and the filter.  The items before the
filter are the ones that are counted as looked at.  Each count is given as it is, up to the largest
that an answer has room for. -/
theorem query_accepted {settings : Settings} {events : List Event} {q : Query} {t : Table}
    (ht : ((new settings).after events).catalog.get? q.table = some t) (stamp : Stamp) :
    ((∃ response, (((new settings).after events).answer stamp (.query q)).1 = .ok response) ↔
      ∃ keys v, q.Accepted t.schema keys v) ∧
    (∀ keys v, q.Accepted t.schema keys v → ∃ response,
      (((new settings).after events).answer stamp (.query q)).1 = .ok response ∧
      response = .found (q.found keys v t.rows.items)
        (q.candidates keys v t.rows.items).length ∧
      Wire.encodeResponse response = .record
        [ ("Items", Wire.encodeItems (q.found keys v t.rows.items)),
          ("Count", Wire.encodeCount (q.found keys v t.rows.items).length),
          ("ScannedCount", Wire.encodeCount (q.candidates keys v t.rows.items).length)]) ∧
    ∀ n ≤ Wire.maxCount, Wire.encodeCount n = .nat n := by
  obtain ⟨_, _, hdeclared⟩ := exists_latest ht
  exact ⟨exists_query_iff ht hdeclared,
    fun keys v h => ⟨_, query_of_accepted ht hdeclared h, rfl, rfl⟩,
    fun _ => Wire.encodeCount_of_le⟩

end Store

namespace Sample

/-- The names of the orders in some time, apart from one. -/
def orderQuery (operator : Operator) : Query where
  table := "Orders"
  index := some "ByTime"
  keyConditions := .ofList
    [("Time", ⟨operator, [.number "9.0", .number "1e1"]⟩), ("Id", ⟨.eq, [.number "1.0"]⟩)]
  filter := .ofList [("Sort", ⟨.ne, [.text "a"]⟩)]
  combinator := some .any
  attributes := ["Sort"]

/-- The key of the index by time. -/
def timeKeys : KeySchema := ⟨⟨"Id", some .number⟩, some ⟨"Time", none⟩⟩

lemma entries_orderQuery (operator : Operator) :
    (orderQuery operator).keyConditions.entries
      = [ ("Time", ⟨operator, [.number "9.0", .number "1e1"]⟩),
          ("Id", ⟨.eq, [.number "1.0"]⟩)] :=
  NameList.entries_ofList (by simp)

lemma orderQuery_accepted :
    (orderQuery .between).Accepted orderTable.schema timeKeys (.number "1.0") where
  attributes := List.nodup_singleton _
  selects := by
    show ∃ index ∈ orderTable.schema.indexes, index.name = "ByTime" ∧ index.keys = timeKeys
    decide +kernel
  conditions := checkConditions_eq_ok.mp (by decide +kernel)
  asked :=
    { hash := by decide +kernel
      range := by
        intro e he hne
        rw [entries_orderQuery, List.mem_pair] at he
        obtain rfl | rfl := he
        · exact ⟨rfl, .between _ _⟩
        · exact absurd rfl hne }

end Sample

/-- A range of the index by time, of which the filter leaves one order over; and an operator that
does not go by the order of keys. -/
theorem Store.query_accepted_sample :
    (Sample.orderStore.answer Sample.stamp (.query (Sample.orderQuery .between))).1
        = .ok (.found [.ofList [("Sort", .text "c")]] 2) ∧
      Wire.encodeCount 2 = .nat 2 ∧
      ¬ ∃ response, (Sample.orderStore.answer Sample.stamp
        (.query (Sample.orderQuery .isIn))).1 = .ok response := by
  have ht := Sample.get?_orderTable
  have hbetween := query_accepted (q := Sample.orderQuery .between) ht Sample.stamp
  have hisIn := query_accepted (q := Sample.orderQuery .isIn) ht Sample.stamp
  obtain ⟨-, hfinds, hcount⟩ := hbetween
  refine ⟨?_, hcount 2 (by decide), ?_⟩
  · obtain ⟨response, hanswer, rfl, _⟩ := hfinds _ _ Sample.orderQuery_accepted
    have hfound : (Sample.orderQuery .between).found Sample.timeKeys (.number "1.0")
        Sample.orderTable.rows.items = [.ofList [("Sort", .text "c")]] := by
      decide +kernel
    have hlength : ((Sample.orderQuery .between).candidates Sample.timeKeys (.number "1.0")
        Sample.orderTable.rows.items).length = 2 := by
      decide +kernel
    rwa [hfound, hlength] at hanswer
  · intro hresponse
    obtain ⟨keys, v, h⟩ := hisIn.1.mp hresponse
    have hhash := h.asked.hash
    have htime := h.asked.range ("Time", ⟨.isIn, [.number "9.0", .number "1e1"]⟩)
    rw [Sample.entries_orderQuery] at hhash htime
    by_cases hname : keys.hash.name = "Time"
    · simp [hname] at hhash
    · obtain ⟨_, hcondition⟩ := htime List.mem_cons_self (Ne.symm hname)
      cases hcondition

end ItemStore
