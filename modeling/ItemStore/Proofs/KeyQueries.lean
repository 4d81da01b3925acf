import ItemStore.Proofs.AcceptedQueries

/-!
# Queries by a whole key

A query whose conditions give every key attribute one value asks for what stands under a key, and so
does a lookup.  The lookup goes through the rows until one matches, the query goes through all of
them and tests one attribute after the other.  They come to the same, because no two rows have the
same key.

* `Query.AsksFor` — a query that gives each attribute of a key its value.
* `Query.AsksFor.exists_keyQuery` — the key conditions of such a query are accepted.
* `Query.AsksFor.all_holdsIn` — the conditions of such a query are to have the same key.
* **`Store.query_eq_getItem`** — after every run the query finds the item that the lookup finds.
-/

namespace ItemStore

open Answer

/-- A key attribute apart from the hash attribute is the range attribute. -/
lemma KeySchema.range_eq_of_mem {keys : KeySchema} {name : String} (hname : name ∈ keys.names)
    (hhash : name ≠ keys.hash.name) : keys.range.map KeyAttribute.name = some name := by
  obtain ⟨a, ha, rfl⟩ := List.mem_map.mp hname
  rcases List.mem_cons.mp ha with rfl | ha
  · exact absurd rfl hhash
  · rw [Option.mem_toList.mp ha, Option.map_some]

/-! ## Queries by a whole key -/

/-- A query asks for what a lookup asks for: it goes by the key of the table, has no filter, and its
key conditions give each attribute of the key its value, in any order. -/
structure Query.AsksFor (q : Query) (r : GetItem) : Prop where
  table_eq : q.table = r.table
  index_eq : q.index = none
  conditions : q.keyConditions.entries.Perm (r.key.entries.map fun e => (e.1, ⟨.eq, [e.2]⟩))
  filter_eq : q.filter.entries = []
  attributes_eq : q.attributes = r.attributes

namespace Query.AsksFor

variable {q : Query} {r : GetItem} {keys : KeySchema} {enforce : Bool}

lemma mem_conditions (h : q.AsksFor r) {e : String × Condition} :
    e ∈ q.keyConditions.entries ↔ ∃ v, r.key.get? e.1 = some v ∧ e.2 = ⟨.eq, [v]⟩ := by
  rw [h.conditions.mem_iff, List.mem_map]
  constructor
  · rintro ⟨⟨name, v⟩, hmem, rfl⟩
    exact ⟨v, NameMap.get?_eq_some_iff.mpr hmem, rfl⟩
  · rintro ⟨v, hv, hcondition⟩
    exact ⟨(e.1, v), NameMap.get?_eq_some_iff.mp hv, Prod.ext rfl hcondition.symm⟩

/-- The conditions pass the checks, because the numbers of the key do. -/
lemma checked (h : q.AsksFor r) (hvalid : Item.Valid r.key) :
    ∀ d ∈ q.keyConditions.values ++ q.filter.values, d.Checked := by
  rw [NameList.values, NameList.values, h.filter_eq, List.map_nil, List.append_nil,
    List.forall_mem_map]
  intro e he
  obtain ⟨v, hv, hcondition⟩ := h.mem_conditions.mp he
  rw [hcondition]
  exact ⟨rfl, List.forall_mem_singleton.mpr (hvalid e.1 v hv)⟩

/-- The conditions are accepted as conditions on the key. -/
lemma exists_keyQuery (h : q.AsksFor r) (hkey : keys.HasKey enforce r.key)
    (hnames : ∀ name ∈ r.key.names, name ∈ keys.names) :
    ∃ keyQuery, keys.keyQuery q.keyConditions = .ok keyQuery := by
  obtain ⟨v, hv, _⟩ := hkey keys.hash List.mem_cons_self
  refine KeySchema.exists_keyQuery_iff.mpr ⟨v, h.mem_conditions.mpr ⟨v, hv, rfl⟩, ?_⟩
  intro e he hne
  obtain ⟨w, hw, hcondition⟩ := h.mem_conditions.mp he
  have hname := hnames e.1 (NameMap.mem_names_iff.mpr ⟨w, hw⟩)
  rw [hcondition]
  exact ⟨KeySchema.range_eq_of_mem hname hne, .single (by decide) w⟩

/-- **To meet the conditions is to have the same key.** -/
lemma all_holdsIn (h : q.AsksFor r) (hkey : keys.HasKey enforce r.key)
    (hnames : ∀ name ∈ r.key.names, name ∈ keys.names) (item : Item) :
    q.keyConditions.entries.all (Condition.holdsIn item) = keys.sameKey item r.key := by
  rw [Bool.eq_iff_iff, List.all_eq_true, KeySchema.sameKey_iff]
  constructor
  · intro hall name hname
    obtain ⟨a, ha, rfl⟩ := List.mem_map.mp hname
    obtain ⟨v, hv, _⟩ := hkey a ha
    have hholds := hall (a.name, ⟨.eq, [v]⟩) (h.mem_conditions.mpr ⟨v, hv, rfl⟩)
    rw [Condition.holdsIn, Condition.holds] at hholds
    cases hw : item.get? a.name with
    | none => simp [hw] at hholds
    | some w =>
        refine ⟨w, v, rfl, hv, ?_⟩
        simpa [hw, Operator.test] using hholds
  · intro hsame e he
    obtain ⟨v, hv, hcondition⟩ := h.mem_conditions.mp he
    obtain ⟨w, v', hw, hv', hagrees⟩ :=
      hsame e.1 (hnames e.1 (NameMap.mem_names_iff.mpr ⟨v, hv⟩))
    obtain rfl : v = v' := Option.some.inj (hv.symm.trans hv')
    rw [Condition.holdsIn, Condition.holds, hcondition, hw]
    simpa [Operator.test] using hagrees

end Query.AsksFor

namespace Store

/-- **A query by a whole key is a lookup**, after every run.  Where a lookup is accepted, the query
that asks for the same finds the item that the lookup finds, or none, however its conditions are
joined, and has looked at no other item. -/
theorem query_eq_getItem {settings : Settings} {events : List Event} {stamp : Stamp} {r : GetItem}
    {q : Query} {found : Option Item} (hasks : q.AsksFor r)
    (h : (((new settings).after events).answer stamp (.getItem r)).1 = .ok (.item found)) :
    (((new settings).after events).answer stamp (.query q)).1
        = .ok (.found found.toList found.toList.length) := by
  obtain ⟨t, _, ht, hattributes, hfind, hfound⟩ := getItem_eq_ok.mp h
  cases hfound
  obtain ⟨hcheck, hkey, rfl⟩ := Table.find_eq_ok.mp hfind
  obtain ⟨⟨_, hnames⟩, hvalid⟩ := checkKey_eq_ok.mp hcheck
  have hsound := sound_after ht
  obtain ⟨keyQuery, hquery⟩ := hasks.exists_keyQuery hkey hnames
  have hkeys : t.keysFor q.index = .ok t.rows.keys := by
    rw [hasks.index_eq, hsound.keys_eq, Table.keysFor]
  have hquery := query_eq_filter (hasks.table_eq ▸ ht)
    (hasks.attributes_eq ▸ checkAttributes_eq_ok.mp hattributes) hkeys (hasks.checked hvalid) hquery
  have hone : (t.rows.items.filter fun item =>
      q.keyConditions.entries.all (Condition.holdsIn item)) = (t.rows.at? r.key).toList := by
    rw [funext (hasks.all_holdsIn hkey hnames)]
    exact filter_eq_find? (hsound.rows.unique.atMostOne r.key)
  have hfilter : ((q.combinator.getD .all).holds q.filter.entries) = fun _ => true := by
    rw [hasks.filter_eq]
    cases q.combinator.getD .all <;> rfl
  show query q _ = _
  rw [hquery, hone, hfilter, List.filter_true, hasks.attributes_eq, Option.toList_map,
    List.length_map]

end Store

namespace Sample

/-- The query that asks for the reading under a key. -/
def keyQuery (id : String) : Query :=
  ⟨"Readings", none, .ofList [("id", ⟨.eq, [.number id]⟩)], .empty, some .any, ["note"]⟩

lemma keyQuery_asksFor (id : String) : (keyQuery id).AsksFor ⟨"Readings", key id, ["note"]⟩ :=
  ⟨rfl, rfl, .refl _, rfl, rfl⟩

/-- The query that asks for the order under a key, the range attribute first. -/
def orderKeyQuery (id sort : String) : Query :=
  ⟨"Orders", none, .ofList [("Sort", ⟨.eq, [.text sort]⟩), ("Id", ⟨.eq, [.number id]⟩)], .empty,
    none, []⟩

lemma orderKeyQuery_asksFor (id sort : String) :
    (orderKeyQuery id sort).AsksFor ⟨"Orders", orderKey id sort, []⟩ where
  table_eq := rfl
  index_eq := rfl
  conditions := by
    have hconditions : (orderKeyQuery id sort).keyConditions.entries
        = [("Sort", ⟨.eq, [.text sort]⟩), ("Id", ⟨.eq, [.number id]⟩)] :=
      NameList.entries_ofList (by simp)
    simp only [hconditions, entries_orderKey]
    exact .swap _ _ _
  filter_eq := rfl
  attributes_eq := rfl

end Sample

/-- Readings by their number, and orders by their number and a text: of the orders under one number
one is found. -/
theorem Store.query_eq_getItem_sample :
    (Sample.store.answer Sample.stamp (.query (Sample.keyQuery "50e-1"))).1
        = .ok (.found [.ofList [("note", .text "third")]] 1) ∧
      (Sample.store.answer Sample.stamp (.query (Sample.keyQuery "7"))).1 = .ok (.found [] 0) ∧
      (Sample.orderStore.answer Sample.stamp (.query (Sample.orderKeyQuery "1.0" "c"))).1
        = .ok (.found [Sample.order "c" [("Time", .number "10")]] 1) ∧
      (Sample.orderStore.answer Sample.stamp (.query (Sample.orderKeyQuery "1.0" "e"))).1
        = .ok (.found [] 0) := by
  have hreading : (Sample.store.answer Sample.stamp
      (.getItem ⟨"Readings", Sample.key "50e-1", ["note"]⟩)).1
        = .ok (.item (some (.ofList [("note", .text "third")]))) := by
    decide +kernel
  have hnone : (Sample.store.answer Sample.stamp
      (.getItem ⟨"Readings", Sample.key "7", ["note"]⟩)).1 = .ok (.item none) := by
    decide +kernel
  have horder : (Sample.orderStore.answer Sample.stamp
      (.getItem ⟨"Orders", Sample.orderKey "1.0" "c", []⟩)).1
        = .ok (.item (some (Sample.order "c" [("Time", .number "10")]))) := by
    decide +kernel
  have hnone' : (Sample.orderStore.answer Sample.stamp
      (.getItem ⟨"Orders", Sample.orderKey "1.0" "e", []⟩)).1 = .ok (.item none) := by
    decide +kernel
  exact ⟨query_eq_getItem (Sample.keyQuery_asksFor "50e-1") hreading,
    query_eq_getItem (Sample.keyQuery_asksFor "7") hnone,
    query_eq_getItem (Sample.orderKeyQuery_asksFor "1.0" "c") horder,
    query_eq_getItem (Sample.orderKeyQuery_asksFor "1.0" "e") hnone'⟩

end ItemStore
