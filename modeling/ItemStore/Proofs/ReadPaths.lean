import ItemStore.Proofs.Statements
import ItemStore.Proofs.StoredItems

/-!
# Queries, statements and scans

Items are selected in three places: a query tests the key of a row first and puts its filter to what
is left, a scan puts one filter to every row, and a statement is a scan with conditions of its own.
Where they are asked the same they give the same items in the same order.

* `KeyQuery.conditions` — a key query as conditions; **`KeySchema.keyQuery_perm`** says that they
  are the key conditions that the client has listed.
* `Query.asScan`, `Select.asScan` — the scan that asks what a query, or a statement, asks.
* `Answer.scan_eq_filter`, `Answer.query_eq_filter`, `Answer.select_eq_filter` — what a scan, a
  query and a statement find, provided that they are accepted.
* **`Answer.query_eq_scan`**, **`Answer.select_eq_scan`** — it gives the same items.
* **`Store.reads_agree`** — the same for the requests, in every store.
-/

namespace ItemStore

open Answer

/-! ## Lists under names -/

namespace NameList

variable {α : Type}

lemma mention_of_not_mem {name : String} (value : α) : ∀ {entries : List (String × α)},
    name ∉ entries.map Prod.fst → mention name value entries = entries ++ [(name, value)]
  | [], _ => rfl
  | e :: rest, h => by
      obtain ⟨hne, hrest⟩ := not_or.mp (List.mem_cons.not.mp h)
      rw [mention, if_neg (Ne.symm hne), mention_of_not_mem value hrest, List.cons_append]

/-- Entries that mention each name once stay as they are listed. -/
theorem entries_ofList {entries : List (String × α)} (h : (entries.map Prod.fst).Nodup) :
    (ofList entries).entries = entries := by
  suffices hfold : ∀ (rest : List (String × α)) (l : NameList α),
      ((l.entries ++ rest).map Prod.fst).Nodup →
        (rest.foldl (fun l e => l.set e.1 e.2) l).entries = l.entries ++ rest from
    hfold entries empty h
  intro rest
  induction rest with
  | nil => intro l _; exact (List.append_nil _).symm
  | cons e rest ih =>
      intro l hnodup
      have hnew : e.1 ∉ l.entries.map Prod.fst := by
        rw [List.map_append, List.map_cons, List.nodup_append] at hnodup
        exact fun hmem => hnodup.2.2 _ hmem _ List.mem_cons_self rfl
      have hset : (l.set e.1 e.2).entries = l.entries ++ [e] := mention_of_not_mem e.2 hnew
      have hassoc : l.entries ++ e :: rest = (l.entries ++ [e]) ++ rest := by simp
      rw [List.foldl_cons, ih _ (by rwa [hset, ← hassoc]), hset, ← hassoc]

/-- Looking a name up finds the one entry under it. -/
lemma get?_eq_some_iff {l : NameList α} {name : String} {a : α} :
    l.get? name = some a ↔ (name, a) ∈ l.entries := by
  obtain ⟨entries, h⟩ := l
  simp only [get?]
  induction entries with
  | nil => simp
  | cons e rest ih =>
      obtain ⟨hfirst, hrest⟩ := List.nodup_cons.mp h
      rw [lookup_entry, List.mem_cons]
      by_cases hname : name = e.1
      · subst hname
        have hlater : (e.1, a) ∉ rest := fun hmem =>
          hfirst (List.mem_map.mpr ⟨_, hmem, rfl⟩)
        simp [hlater, Prod.ext_iff, eq_comm]
      · rw [if_neg hname, ih hrest]
        simp [Prod.ext_iff, hname]

lemma entries_nodup (l : NameList α) : l.entries.Nodup :=
  l.nodup.of_map

end NameList

/-- Entries under distinct names are arranged under the same names. -/
lemma NameMap.mem_names_ofList {α : Type} {entries : List (String × α)}
    (h : (entries.map Prod.fst).Nodup) {name : String} :
    name ∈ (ofList entries).names ↔ name ∈ entries.map Prod.fst := by
  simp only [NameMap.mem_names_iff, get?_ofList h, List.mem_map, Prod.exists, exists_and_right,
    exists_eq_right]
  exact exists_congr fun a => NameList.get?_eq_some_iff (l := ⟨entries, h⟩)

/-! ## Key queries -/

/-- The conditions that a key query stands for. -/
def KeyQuery.conditions (q : KeyQuery) : List (String × Condition) :=
  (q.hashName, ⟨.eq, [q.hashValue]⟩) :: q.range.toList

/-- A key query tests its conditions, the one on the hash attribute first. -/
lemma KeyQuery.test_eq_holds {q : KeyQuery}
    (h : ∀ e ∈ q.range, e.2.operator.isSupported = true) (item : Item) :
    q.test item = .ok (q.conditions.all (Condition.holdsIn item)) := by
  rw [test, conditions, List.all_cons, Condition.holdsIn, Condition.holds]
  cases hhash : item.get? q.hashName with
  | none => rfl
  | some v =>
      simp only [Operator.test, Option.map_some, List.head?_cons, Option.getD_some]
      cases v.agrees q.hashValue with
      | false => rfl
      | true =>
          cases hrange : q.range with
          | none => rfl
          | some e =>
              simp only [Option.toList_some, List.all_cons, List.all_nil, Bool.and_true]
              exact Condition.evaluate_eq_holds (h e hrange) _

/-- A condition that may be put to the range attribute of a key: a range of its own, or a comparison
with one value. -/
inductive Condition.OrdersKeys : Condition → Prop
  | between (low high : Value) : OrdersKeys ⟨.between, [low, high]⟩
  | single {op : Operator} (h : op ∈ [.eq, .le, .lt, .ge, .gt, .beginsWith]) (v : Value) :
      OrdersKeys ⟨op, [v]⟩

lemma Condition.ordersKeys_iff {c : Condition} :
    c.operator.ordersKeys = true ∧ c.operands.length = c.operator.keyOperands ↔ c.OrdersKeys := by
  obtain ⟨operator, operands⟩ := c
  constructor
  · rintro ⟨hoperator, hlength⟩
    cases operator with
    | between =>
        obtain ⟨low, high, rfl⟩ := List.length_eq_two.mp hlength
        exact .between low high
    | eq | le | lt | ge | gt | beginsWith =>
        obtain ⟨v, rfl⟩ := List.length_eq_one_iff.mp hlength
        exact .single (by decide) v
    | _ => cases hoperator
  · rintro (⟨low, high⟩ | ⟨h, v⟩)
    · exact ⟨rfl, rfl⟩
    · simp only [List.mem_cons, List.not_mem_nil, or_false] at h
      obtain rfl | rfl | rfl | rfl | rfl | rfl := h <;> exact ⟨rfl, rfl⟩

namespace KeySchema

variable {keys : KeySchema}

lemma hashValue_eq_ok {conditions : NameList Condition} {v : Value} :
    keys.hashValue conditions = .ok v ↔
      (keys.hash.name, ⟨.eq, [v]⟩) ∈ conditions.entries := by
  rw [← NameList.get?_eq_some_iff, hashValue]
  cases conditions.get? keys.hash.name with
  | none => simp [refuse]
  | some c =>
      obtain ⟨operator, operands⟩ := c
      simp only [Option.some.injEq, Condition.mk.injEq]
      split
      · simp
      · rename_i hother
        simp only [refuse, reduceCtorEq, false_iff]
        rintro ⟨rfl, rfl⟩
        exact hother v rfl rfl

/-- An accepted condition apart from the hash attribute is on the range attribute, with an operator
that goes by the order of keys. -/
lemma checkRange_eq_ok {name : String} {c : Condition} :
    keys.checkRange name c = .ok () ↔
      keys.range.map KeyAttribute.name = some name ∧ c.OrdersKeys := by
  rw [checkRange, ← Condition.ordersKeys_iff]
  split
  · rename_i hname
    simp [refuse, hname]
  · rename_i hname
    cases c.operator.ordersKeys <;> simp [refuse, not_not.mp hname]

/-- The range condition is the one condition that is not on the hash attribute. -/
lemma rangeCondition_eq_ok : ∀ {entries : List (String × Condition)}
    {range : Option (String × Condition)}, (entries.map Prod.fst).Nodup →
      keys.rangeCondition entries = .ok range →
        (∀ e ∈ range, keys.range.map KeyAttribute.name = some e.1) ∧
          ∀ e, e ∈ range ↔ e ∈ entries ∧ e.1 ≠ keys.hash.name
  | [], _, _, h => by
      cases h
      simp
  | (name, c) :: rest, range, hnodup, h => by
      obtain ⟨hfirst, hrest⟩ := List.nodup_cons.mp hnodup
      rw [rangeCondition] at h
      split at h
      · rename_i hname
        obtain ⟨hnamed, hmem⟩ := rangeCondition_eq_ok hrest h
        refine ⟨hnamed, fun e => (hmem e).trans ?_⟩
        simp only [List.mem_cons, or_and_right]
        refine (or_iff_right ?_).symm
        rintro ⟨rfl, hne⟩
        exact hne hname
      · rename_i hname
        obtain ⟨_, hcheck, h⟩ := bind_eq_ok.mp h
        obtain ⟨later, hlater, h⟩ := bind_eq_ok.mp h
        have hrange := (checkRange_eq_ok.mp hcheck).1
        obtain ⟨hnamed, hmem⟩ := rangeCondition_eq_ok hrest hlater
        -- a second condition would be on the range attribute too, so under the same name
        have hnone : later = none := by
          refine Option.eq_none_iff_forall_not_mem.mpr fun e he => ?_
          have hsame : e.1 = name := Option.some.inj ((hnamed e he).symm.trans hrange)
          exact hfirst (List.mem_map.mpr ⟨e, ((hmem e).mp he).1, hsame⟩)
        subst hnone
        cases h
        refine ⟨by simpa using hrange, fun e => ?_⟩
        have hothers : ¬(e ∈ rest ∧ e.1 ≠ keys.hash.name) := fun he => by
          simpa using (hmem e).mpr he
        simp only [Option.none_or, Option.mem_some_iff, List.mem_cons, or_and_right]
        rw [or_iff_left hothers]
        constructor
        · rintro rfl
          exact ⟨rfl, hname⟩
        · rintro ⟨rfl, _⟩
          rfl

/-- **A key query stands for the key conditions that were listed**, in some order. -/
theorem keyQuery_perm {conditions : NameList Condition} {q : KeyQuery}
    (h : keys.keyQuery conditions = .ok q) : conditions.entries.Perm q.conditions := by
  obtain ⟨v, hv, h⟩ := bind_eq_ok.mp h
  obtain ⟨range, hrange, h⟩ := bind_eq_ok.mp h
  cases h
  have hhash := hashValue_eq_ok.mp hv
  obtain ⟨_, hmem⟩ := rangeCondition_eq_ok conditions.nodup hrange
  have hnodup : (KeyQuery.conditions ⟨keys.hash.name, v, range⟩).Nodup := by
    refine List.nodup_cons.mpr ⟨fun he => ?_, by cases range <;> simp⟩
    exact ((hmem _).mp (Option.mem_toList.mp he)).2 rfl
  rw [List.perm_ext_iff_of_nodup conditions.entries_nodup hnodup]
  intro e
  rw [KeyQuery.conditions, List.mem_cons, Option.mem_toList, ← Option.mem_def, hmem]
  by_cases hname : e.1 = keys.hash.name
  · simp only [hname, ne_eq, not_true_eq_false, and_false, or_false]
    constructor
    · intro he
      rw [← NameList.get?_eq_some_iff] at hhash
      have he' : (keys.hash.name, e.2) ∈ conditions.entries := hname ▸ he
      rw [← NameList.get?_eq_some_iff, hhash] at he'
      exact Prod.ext hname (Option.some.inj he').symm
    · rintro rfl
      exact hhash
  · simp only [ne_eq, hname, not_false_eq_true, and_true]
    refine (or_iff_right ?_).symm
    rintro rfl
    exact hname rfl

/-- A key query that stands for conditions whose operators are known tests all of them, and does
not fail. -/
lemma keyQuery_test {conditions : NameList Condition} {q : KeyQuery}
    (h : keys.keyQuery conditions = .ok q)
    (hconditions : ∀ c ∈ conditions.values, c.operator.isSupported = true) (item : Item) :
    q.test item = .ok (conditions.entries.all (Condition.holdsIn item)) := by
  have hperm := keyQuery_perm h
  rw [hperm.all_eq]
  refine KeyQuery.test_eq_holds (fun e he => ?_) item
  have hmem : e ∈ conditions.entries :=
    hperm.mem_iff.mpr (List.mem_cons_of_mem _ (Option.mem_toList.mpr he))
  exact hconditions _ (List.mem_map.mpr ⟨e, hmem, rfl⟩)

end KeySchema

/-! ## Accepted inputs -/

namespace Answer

lemma firstRepeated?_eq_none : ∀ {names seen : List String},
    firstRepeated? seen names = none ↔ names.Nodup ∧ ∀ name ∈ names, name ∉ seen
  | [], _ => by simp [firstRepeated?]
  | name :: rest, seen => by
      by_cases hmem : name ∈ seen
      · simp [firstRepeated?, hmem]
      · rw [firstRepeated?, if_neg (List.contains_iff_mem.not.mpr hmem), firstRepeated?_eq_none,
          List.nodup_cons, List.forall_mem_cons]
        constructor
        · rintro ⟨hnodup, hseen⟩
          have hfirst : name ∉ rest := fun h => hseen name h List.mem_cons_self
          exact ⟨⟨hfirst, hnodup⟩, hmem, fun n hn h => hseen n hn (List.mem_cons_of_mem _ h)⟩
        · rintro ⟨⟨hfirst, hnodup⟩, _, hseen⟩
          refine ⟨hnodup, fun n hn h => ?_⟩
          rcases List.mem_cons.mp h with rfl | h
          · exact hfirst hn
          · exact hseen n hn h

/-- Attributes to keep are accepted exactly when none is repeated. -/
theorem checkAttributes_eq_ok {attributes : List String} :
    checkAttributes attributes = .ok () ↔ attributes.Nodup := by
  have h : firstRepeated? [] attributes = none ↔ attributes.Nodup := by
    simp [firstRepeated?_eq_none]
  rw [← h, checkAttributes]
  cases firstRepeated? [] attributes <;> simp [refuse]

/-- Every test of a filter succeeds once the conditions are checked. -/
lemma filterTest_eq_holds {filter : NameList Condition} (h : ∀ c ∈ filter.values, c.Checked)
    (combinator : Option Combinator) (item : Item) :
    filterTest combinator filter item =
      .ok ((combinator.getD .all).holds filter.entries item) :=
  Combinator.evaluate_eq_holds
    (fun _ he => (h _ (List.mem_map.mpr ⟨_, he, rfl⟩)).supported) _ _

variable {c : Catalog} {response : Response}

/-- What a scan finds, provided that it is accepted. -/
theorem scan_eq_filter {r : Scan} {t : Table} (ht : c.get? r.table = some t)
    (hattributes : r.attributes.Nodup) (hfilter : ∀ d ∈ r.filter.values, d.Checked) :
    scan r c = .ok (.found
      ((t.rows.items.filter ((r.combinator.getD .all).holds r.filter.entries)).map
        fun item => item.project r.attributes) t.rows.count) := by
  simp only [scan, bind_eq_ok, Catalog.require_eq_ok, liftOperator_eq_ok]
  exact ⟨t, ht, (), checkAttributes_eq_ok.mpr hattributes, (), checkConditions_eq_ok.mpr hfilter, _,
    selectRows_eq_filter (filterTest_eq_holds hfilter r.combinator) _, rfl⟩

/-- **What a query finds, provided that it is accepted**: of the rows that meet its key conditions,
which count as looked at, those that its filter leaves over. -/
theorem query_eq_filter {q : Query} {c : Catalog} {t : Table} {keys : KeySchema}
    {keyQuery : KeyQuery} (ht : c.get? q.table = some t) (hattributes : q.attributes.Nodup)
    (hkeys : t.keysFor q.index = .ok keys)
    (hconditions : ∀ d ∈ q.keyConditions.values ++ q.filter.values, d.Checked)
    (hquery : keys.keyQuery q.keyConditions = .ok keyQuery) :
    query q c = .ok (.found
      (((t.rows.items.filter fun item =>
          q.keyConditions.entries.all (Condition.holdsIn item)).filter
        ((q.combinator.getD .all).holds q.filter.entries)).map fun item =>
          item.project q.attributes)
      (t.rows.items.filter fun item =>
        q.keyConditions.entries.all (Condition.holdsIn item)).length) := by
  have htest := KeySchema.keyQuery_test hquery fun d hd =>
    (hconditions d (List.mem_append_left _ hd)).supported
  simp only [query, bind_eq_ok, Catalog.require_eq_ok, liftOperator_eq_ok]
  exact ⟨t, ht, (), checkAttributes_eq_ok.mpr hattributes, keys, hkeys, (),
    checkConditions_eq_ok.mpr hconditions, keyQuery, hquery, _, selectRows_eq_filter htest _, _,
    selectRows_eq_filter
      (filterTest_eq_holds (fun d hd => hconditions d (List.mem_append_right _ hd)) _) _, rfl⟩

/-- What a statement selects, provided that its operators are known. -/
theorem select_eq_filter {s : Select} {t : Table} (ht : c.get? s.table = some t)
    (hconditions : ∀ e ∈ s.conditions, e.2.operator.isSupported = true) :
    select s c = .ok ((t.rows.items.filter (s.combinator.holds s.conditions)).map
      fun item => item.project s.selection.names) := by
  have hoperators := checkOperators_eq_ok.mpr (List.forall_mem_map.mpr hconditions)
  simp only [select, bind_eq_ok, Catalog.require_eq_ok, liftOperator_eq_ok]
  exact ⟨t, ht, (), hoperators, _,
    selectRows_eq_filter (Combinator.evaluate_eq_holds hconditions s.combinator) _, rfl⟩

end Answer

/-! ## Queries -/

/-- The scan that asks what a query asks: its filter lists the key conditions and then the filter of
the query, and all of them must hold. -/
def Query.asScan (q : Query) : Scan :=
  ⟨q.table, .ofList (q.keyConditions.entries ++ q.filter.entries), some .all, q.attributes⟩

/-- **A query finds what the scan with all of its conditions finds**, whichever key it goes by, if
its filter says nothing about the attributes of its key conditions. -/
theorem Answer.query_eq_scan {q : Query} {c : Catalog} {response : Response}
    (h : query q c = .ok response) (hall : q.combinator ≠ some .any)
    (hdisjoint : ∀ name ∈ q.filter.names, name ∉ q.keyConditions.names) :
    ∃ items looked scanned, response = .found items looked ∧
      scan q.asScan c = .ok (.found items scanned) := by
  have hsteps := h
  simp only [query, bind_eq_ok, Catalog.require_eq_ok] at hsteps
  obtain ⟨t, ht, _, hattributes, keys, hkeys, _, hconditions, keyQuery, hquery, _⟩ := hsteps
  have hnodup := checkAttributes_eq_ok.mp hattributes
  have hchecked := checkConditions_eq_ok.mp hconditions
  rw [query_eq_filter ht hnodup hkeys hchecked hquery] at h
  cases h
  have hentries : q.asScan.filter.entries = q.keyConditions.entries ++ q.filter.entries := by
    refine NameList.entries_ofList ?_
    rw [List.map_append]
    exact List.nodup_append.mpr ⟨q.keyConditions.nodup, q.filter.nodup,
      fun _ hkey _ hname heq => hdisjoint _ hname (heq ▸ hkey)⟩
  have hvalues : q.asScan.filter.values = q.keyConditions.values ++ q.filter.values := by
    rw [NameList.values, hentries, List.map_append, NameList.values, NameList.values]
  refine ⟨_, _, t.rows.count, rfl, ?_⟩
  rw [scan_eq_filter ht hnodup (hvalues ▸ hchecked), List.filter_filter]
  have hcombinator : q.combinator.getD .all = .all := by
    rcases hq : q.combinator with _ | _ | _
    · rfl
    · rfl
    · exact absurd hq hall
  have hsame : (q.asScan.combinator.getD .all).holds q.asScan.filter.entries = fun item =>
      (q.combinator.getD .all).holds q.filter.entries item &&
        q.keyConditions.entries.all (Condition.holdsIn item) := by
    funext item
    rw [hcombinator, hentries, Bool.and_comm]
    exact List.all_append
  rw [hsame]
  rfl

/-! ## Statements -/

/-- The scan that asks what a statement asks. -/
def Select.asScan (s : Select) : Scan :=
  ⟨s.table, .ofList s.conditions, some s.combinator, s.selection.names⟩

/-- **A statement selects what the scan with its conditions finds**, if it names each attribute once
among its conditions and once among the attributes to keep. -/
theorem Answer.select_eq_scan {text : String} {s : Select} {c : Catalog}
    (h : Select.read text = .ok s) (hconditions : (s.conditions.map Prod.fst).Nodup)
    (hnames : s.selection.names.Nodup) (htable : (c.get? s.table).isSome = true) :
    ∃ items scanned, executeStatement text c = .ok (.selected items) ∧
      scan s.asScan c = .ok (.found items scanned) := by
  obtain ⟨t, ht⟩ := Option.isSome_iff_exists.mp htable
  have hentries : s.asScan.filter.entries = s.conditions := NameList.entries_ofList hconditions
  have hchecked : ∀ d ∈ s.conditions.map Prod.snd, d.Checked :=
    List.forall_mem_map.mpr (Select.checked_of_read h)
  refine ⟨_, t.rows.count, ?_, scan_eq_filter ht hnames ?_⟩
  · have hselect := select_eq_filter ht fun e he => (Select.checked_of_read h e he).supported
    simp only [executeStatement, bind_eq_ok, mapError_eq_ok]
    exact ⟨s, h, _, hselect, by rw [hentries]; rfl⟩
  · rwa [NameList.values, hentries]

/-! ## Requests -/

namespace Store

/-- **The ways to read agree**, in every store.  A query that succeeds and joins its conditions by
`AND` finds the items of a scan with the same conditions, in the same order and as many; and so does
a statement that can be read and whose table is there. -/
theorem reads_agree (s : Store) (stamp : Stamp) :
    (∀ q response, (s.answer stamp (.query q)).1 = .ok response → q.combinator ≠ some .any →
      (∀ name ∈ q.filter.names, name ∉ q.keyConditions.names) →
        ∃ items looked scanned, response = .found items looked ∧
          (s.answer stamp (.scan q.asScan)).1 = .ok (.found items scanned)) ∧
    (∀ text sel, Select.read text = .ok sel → (sel.conditions.map Prod.fst).Nodup →
      sel.selection.names.Nodup → (s.catalog.get? sel.table).isSome = true →
        ∃ items scanned,
          (s.answer stamp (.executeStatement text)).1 = .ok (.selected items) ∧
          (s.answer stamp (.scan sel.asScan)).1 = .ok (.found items scanned)) :=
  ⟨fun _ _ => query_eq_scan, fun _ _ => select_eq_scan⟩

end Store

namespace Sample

/-- The readings under a key with a note that begins in some way. -/
def query : Query where
  table := "Readings"
  index := none
  keyConditions := .ofList [("id", ⟨.eq, [.number "50E-1"]⟩)]
  filter := .ofList [("note", ⟨.beginsWith, [.text "th"]⟩)]
  combinator := none
  attributes := ["note"]

/-- The notes of the readings above a number. -/
def statement : String := "SELECT note FROM Readings WHERE id > 5.5"

/-- The statement, once read. -/
def select : Select :=
  ⟨"Readings", none, .listed ["note"], .all, [("id", ⟨.gt, [.number "5.5"]⟩)]⟩

end Sample

theorem Store.reads_agree_sample :
    (Sample.store.answer Sample.stamp (.query Sample.query)).1
        = .ok (.found [.ofList [("note", .text "third")]] 1) ∧
      (∃ scanned, (Sample.store.answer Sample.stamp (.scan Sample.query.asScan)).1
        = .ok (.found [.ofList [("note", .text "third")]] scanned)) ∧
      ∃ items scanned,
        (Sample.store.answer Sample.stamp (.executeStatement Sample.statement)).1
          = .ok (.selected items) ∧
        (Sample.store.answer Sample.stamp (.scan Sample.select.asScan)).1
          = .ok (.found items scanned) := by
  have hquery : (Sample.store.answer Sample.stamp (.query Sample.query)).1
      = .ok (.found [.ofList [("note", .text "third")]] 1) := by
    decide +kernel
  have hread : Select.read Sample.statement = .ok Sample.select := by decide +kernel
  have hagree := reads_agree Sample.store Sample.stamp
  obtain ⟨items, looked, scanned, hitems, hscan⟩ :=
    hagree.1 _ _ hquery (by decide) (by decide +kernel)
  cases hitems
  exact ⟨hquery, ⟨scanned, hscan⟩,
    hagree.2 _ _ hread (by decide +kernel) (by decide +kernel) (by decide +kernel)⟩

end ItemStore
