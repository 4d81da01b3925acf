import ItemStore.Proofs.Projections

/-!
# Batches of reads

A batch of reads turns to each table that it lists and looks up the keys that are listed for it.
Each of these steps can be made on its own: a table and a list of attributes are accepted or not,
and a key is a request for its item.  The batch is refused for the first step that is refused, and
else it is answered with what the requests find.

* `Lookup` — a step of a batch, and `Store.refusal?` — why it is refused on its own.
* `fault?` — how a computation fails.  **`Store.fault?_findAll`** — a batch fails as its first step
  does that is refused.
* `Store.Finds` — what the requests for the keys of one table find; `Table.findAll_eq_ok` and
  `Store.finds_of_findAll` say that a batch finds it, key by key and table by table.
* **`Store.batchGetItem_eq_lookups`** — a batch of reads is its single reads.
-/

namespace ItemStore

open Answer

/-! ## Faults -/

section

variable {ε α β : Type} {x : Except ε α}

/-- The fault with which a computation ends, if it fails. -/
def fault? : Except ε α → Option ε
  | .ok _ => none
  | .error e => some e

lemma fault?_eq_some {e : ε} : fault? x = some e ↔ x = .error e := by
  cases x <;> simp [fault?]

lemma fault?_eq_none : fault? x = none ↔ ∃ a, x = .ok a := by
  cases x <;> simp [fault?]

lemma fault?_map (f : α → β) : fault? (x.map f) = fault? x := by
  cases x <;> rfl

/-- A sequence fails with the fault of its first part, or with that of its second. -/
lemma fault?_bind {f : α → Except ε β} {later : Option ε}
    (h : ∀ a, x = .ok a → fault? (f a) = later) : fault? (x >>= f) = (fault? x).or later := by
  cases x with
  | error e => rfl
  | ok a => exact h a rfl

end

/-! ## Steps of a batch -/

/-- A step of a batch of reads: turning to a table, or looking up a key in it. -/
inductive Lookup where
  | table (name : String) (attributes : List String)
  | key (request : GetItem)

namespace Lookup

/-- The steps for one table. -/
def ofBatch (name : String) (b : KeyBatch) : List Lookup :=
  .table name b.attributes :: b.keys.map fun key => .key ⟨name, key, b.attributes⟩

/-- The steps of a batch, in the order in which it lists them. -/
def ofBatches (batches : List (String × KeyBatch)) : List Lookup :=
  batches.flatMap fun e => ofBatch e.1 e.2

lemma forall_mem_ofBatches {batches : List (String × KeyBatch)} {P : Lookup → Prop} :
    (∀ l ∈ ofBatches batches, P l) ↔
      ∀ e ∈ batches, P (.table e.1 e.2.attributes) ∧
        ∀ key ∈ e.2.keys, P (.key ⟨e.1, key, e.2.attributes⟩) := by
  rw [ofBatches, List.forall_mem_flatMap]
  refine forall₂_congr fun e _ => ?_
  rw [ofBatch, List.forall_mem_cons, List.forall_mem_map]

/-- The first step for one table, the keys that follow it, and the steps for other tables. -/
lemma findSome?_ofBatches_cons (refusal? : Lookup → Option Fault) (name : String) (b : KeyBatch)
    (rest : List (String × KeyBatch)) :
    (ofBatches ((name, b) :: rest)).findSome? refusal?
      = (refusal? (.table name b.attributes)).or
          ((b.keys.findSome? fun key => refusal? (.key ⟨name, key, b.attributes⟩)).or
            ((ofBatches rest).findSome? refusal?)) := by
  rw [ofBatches, List.flatMap_cons, List.findSome?_append, ofBatch,
    List.findSome?_cons, List.findSome?_map]
  cases refusal? (.table name b.attributes) <;> rfl

end Lookup

namespace Store

/-! ## The fault of a batch -/

/-- Why a step is refused on its own, if it is.  A table must be there and its attributes must be
listed once each; a key must be accepted by the request for its item. -/
def refusal? (s : Store) (stamp : Stamp) : Lookup → Option Fault
  | .table name attributes =>
    match s.catalog.get? name with
    | none => some (.tableNotFound name)
    | some _ =>
      (firstRepeated? [] attributes).map fun name => .requestFault (.repeatedAttribute name)
  | .key r => fault? (s.answer stamp (.getItem r)).1

variable {s : Store} {stamp : Stamp} {name : String} {t : Table} {attributes : List String}

lemma refusal?_table (ht : s.catalog.get? name = some t) :
    s.refusal? stamp (.table name attributes) = fault? (checkAttributes attributes) := by
  rw [refusal?, ht, checkAttributes]
  cases firstRepeated? [] attributes <;> rfl

lemma refusal?_key (ht : s.catalog.get? name = some t)
    (hattributes : checkAttributes attributes = .ok ()) (key : Item) :
    s.refusal? stamp (.key ⟨name, key, attributes⟩) = fault? (t.find key attributes) := by
  show fault? (getItem ⟨name, key, attributes⟩ s.catalog) = _
  rw [getItem, Catalog.require_eq_ok.mpr ht]
  show fault? (checkAttributes attributes >>= _) = _
  rw [hattributes]
  cases t.find key attributes <;> rfl

end Store

/-- A table refuses keys for the first of them that it refuses. -/
lemma Table.fault?_findAll (t : Table) (attributes : List String) (keys : List Item) :
    fault? (t.findAll attributes keys)
      = keys.findSome? fun key => fault? (t.find key attributes) := by
  induction keys with
  | nil => rfl
  | cons key rest ih =>
      have hrest : ∀ found, t.find key attributes = .ok found →
          fault? (t.findAll attributes rest >>= fun items => pure (found.toList ++ items))
            = rest.findSome? fun key => fault? (t.find key attributes) := by
        intro found _
        rw [← ih]
        cases t.findAll attributes rest <;> rfl
      rw [Table.findAll, fault?_bind hrest, List.findSome?_cons]
      cases fault? (t.find key attributes) <;> rfl

namespace Store

variable {s : Store} {stamp : Stamp} {name : String} {attributes : List String}

/-- **A batch fails with the fault of the first step that is refused.** -/
theorem fault?_findAll (s : Store) (stamp : Stamp) (batches : List (String × KeyBatch)) :
    fault? (s.catalog.findAll batches)
      = (Lookup.ofBatches batches).findSome? (s.refusal? stamp) := by
  induction batches with
  | nil => rfl
  | cons e rest ih =>
      obtain ⟨name, b⟩ := e
      rw [Lookup.findSome?_ofBatches_cons, ← ih, Catalog.findAll]
      cases hget : s.catalog.get? name with
      | none => rw [refusal?, hget, Catalog.require, hget]; rfl
      | some t =>
          rw [refusal?_table hget, Catalog.require_eq_ok.mpr hget]
          refine fault?_bind (x := checkAttributes b.attributes) fun _ hattributes => ?_
          -- now that the table is accepted, the request for a key can only fail at the key
          have hkeys : (fun key => s.refusal? stamp (.key ⟨name, key, b.attributes⟩))
              = fun key => fault? (t.find key b.attributes) :=
            funext fun key => refusal?_key hget hattributes key
          rw [hkeys, ← t.fault?_findAll]
          refine fault?_bind fun items _ => ?_
          cases s.catalog.findAll rest <;> rfl

lemma refusal?_table_eq_none :
    s.refusal? stamp (.table name attributes) = none ↔
      (∃ t, s.catalog.get? name = some t) ∧ attributes.Nodup := by
  cases hget : s.catalog.get? name with
  | none => simp [refusal?, hget]
  | some t =>
      rw [refusal?_table hget, fault?_eq_none, ← checkAttributes_eq_ok]
      constructor
      · rintro ⟨_, h⟩
        exact ⟨⟨t, rfl⟩, h⟩
      · rintro ⟨_, h⟩
        exact ⟨(), h⟩

/-- A key is accepted with any attributes that are listed once each, or with none. -/
lemma refusal?_key_eq_none {key : Item} (hattributes : attributes.Nodup) :
    s.refusal? stamp (.key ⟨name, key, attributes⟩) = none ↔ ∃ found, s.Gets name key found := by
  have haccepted := checkAttributes_eq_ok.mpr hattributes
  simp only [refusal?, fault?_eq_none, answer, reading, getItem_eq_ok, gets_iff, Table.find_eq_ok,
    haccepted, true_and]
  constructor
  · rintro ⟨_, t, _, hget, ⟨hcheck, hkey, _⟩, _⟩
    exact ⟨_, t, hget, hcheck, hkey, rfl⟩
  · rintro ⟨_, t, hget, hcheck, hkey, _⟩
    exact ⟨_, t, _, hget, ⟨hcheck, hkey, rfl⟩, rfl⟩

end Store

/-! ## What a batch finds -/

/-- A table finds the items under some keys one by one, and those that there are stand in the order
of the keys. -/
lemma Table.findAll_eq_ok {t : Table} {attributes : List String} {keys items : List Item}
    (h : t.findAll attributes keys = .ok items) :
    ∃ found, List.Forall₂ (fun key found => t.find key attributes = .ok found) keys found ∧
      items = found.reduceOption := by
  induction keys generalizing items with
  | nil =>
      cases h
      exact ⟨[], .nil, rfl⟩
  | cons key rest ih =>
      obtain ⟨first, hfirst, h⟩ := bind_eq_ok.mp h
      obtain ⟨others, hothers, h⟩ := bind_eq_ok.mp h
      cases h
      obtain ⟨found, hfound, rfl⟩ := ih hothers
      refine ⟨first :: found, .cons hfirst hfound, ?_⟩
      cases first <;> rfl

namespace Store

/-- The items that the requests for some keys of a table find, in the order of the keys.  Where a
request finds nothing, nothing is listed. -/
def Finds (s : Store) (stamp : Stamp) (name : String) (b : KeyBatch) (items : List Item) : Prop :=
  ∃ found : List (Option Item),
    List.Forall₂ (fun key found =>
      (s.answer stamp (.getItem ⟨name, key, b.attributes⟩)).1 = .ok (.item found)) b.keys found ∧
    items = found.reduceOption

variable {s : Store}

/-- A batch finds, table by table, what the requests for its keys find. -/
lemma finds_of_findAll (stamp : Stamp) {batches : List (String × KeyBatch)}
    {found : List (String × List Item)} (h : s.catalog.findAll batches = .ok found) :
    List.Forall₂ (fun e e' => e.1 = e'.1 ∧ s.Finds stamp e.1 e.2 e'.2) batches found := by
  induction batches generalizing found with
  | nil =>
      cases h
      exact .nil
  | cons e rest ih =>
      obtain ⟨t, ht, h⟩ := bind_eq_ok.mp h
      obtain ⟨_, hattributes, h⟩ := bind_eq_ok.mp h
      obtain ⟨items, hitems, h⟩ := bind_eq_ok.mp h
      obtain ⟨others, hothers, h⟩ := bind_eq_ok.mp h
      cases h
      refine .cons ⟨rfl, ?_⟩ (ih hothers)
      obtain ⟨answers, hanswers, rfl⟩ := Table.findAll_eq_ok hitems
      refine ⟨answers, hanswers.imp fun key answer hanswer => ?_, rfl⟩
      exact getItem_eq_ok.mpr ⟨t, answer, Catalog.require_eq_ok.mp ht, hattributes, hanswer, rfl⟩

/-- The answer to a batch is what is found for each table, or a fault. -/
lemma answer_batchGetItem (s : Store) (stamp : Stamp) (b : NameList KeyBatch) :
    (s.answer stamp (.batchGetItem b)).1
      = (s.catalog.findAll b.entries).map fun found => .batch (.ofList found) := by
  show (s.catalog.findAll b.entries >>= _) = _
  cases s.catalog.findAll b.entries <;> rfl

/-- **A batch of reads is its single reads.**

It succeeds when each table that it lists is there, with attributes that are listed once each, and
accepts the keys that are listed for it.  Then it answers with exactly the tables that it lists, and
for each of them with the items that the requests for its keys find, one after the other.  Otherwise
it fails as the first step does that is refused. -/
theorem batchGetItem_eq_lookups (s : Store) (stamp : Stamp) (b : NameList KeyBatch) :
    ((∃ response, (s.answer stamp (.batchGetItem b)).1 = .ok response) ↔
      ∀ e ∈ b.entries, (∃ t, s.catalog.get? e.1 = some t) ∧ e.2.attributes.Nodup ∧
        ∀ key ∈ e.2.keys, ∃ found, s.Gets e.1 key found) ∧
    (∀ response, (s.answer stamp (.batchGetItem b)).1 = .ok response →
      ∃ items, response = .batch items ∧ (∀ name, name ∈ items.names ↔ name ∈ b.names) ∧
        ∀ e ∈ b.entries, ∃ found, items.get? e.1 = some found ∧ s.Finds stamp e.1 e.2 found) ∧
    ∀ fault, (s.answer stamp (.batchGetItem b)).1 = .error fault ↔
      ∃ accepted refused later, Lookup.ofBatches b.entries = accepted ++ refused :: later ∧
        s.refusal? stamp refused = some fault ∧ ∀ l ∈ accepted, s.refusal? stamp l = none := by
  have hfault := s.fault?_findAll stamp b.entries
  rw [answer_batchGetItem]
  refine ⟨?_, fun response hresponse => ?_, fun fault => ?_⟩
  · rw [← fault?_eq_none, fault?_map, hfault, List.findSome?_eq_none_iff,
      Lookup.forall_mem_ofBatches]
    refine forall₂_congr fun e _ => ?_
    rw [refusal?_table_eq_none, and_assoc]
    refine and_congr_right fun _ => and_congr_right fun hattributes => ?_
    exact forall₂_congr fun key _ => refusal?_key_eq_none hattributes
  · obtain ⟨found, hfound, rfl⟩ := map_eq_ok.mp hresponse
    have hnames := Catalog.names_findAll hfound
    have hget := NameMap.get?_ofList (hnames ▸ b.nodup)
    refine ⟨.ofList found, rfl, fun name => ?_, fun e he => ?_⟩
    · rw [NameMap.mem_names_ofList (hnames ▸ b.nodup), hnames, NameList.names]
    · have hlisted : b.entries.lookup e.1 = some e.2 := NameList.get?_eq_some_iff.mpr he
      have hrel := lookup_rel (finds_of_findAll stamp hfound) e.1
      rw [hlisted, ← hget] at hrel
      cases hitems : (NameMap.ofList found).get? e.1 with
      | none =>
          rw [hitems] at hrel
          cases hrel
      | some items =>
          rw [hitems, Option.rel_some_some] at hrel
          exact ⟨items, rfl, hrel⟩
  · rw [← fault?_eq_some, fault?_map, hfault, List.findSome?_eq_some_iff]

end Store

/-- One key in two spellings, with a key between them under which there is nothing. -/
def Sample.keyBatch : NameList KeyBatch :=
  .ofList [("Readings", ⟨[key "5", key "7", key "50e-1"], ["note"]⟩)]

theorem Store.batchGetItem_eq_lookups_sample :
    (∃ items, (Sample.store.answer Sample.stamp (.batchGetItem Sample.keyBatch)).1
        = .ok (.batch items) ∧
      ∀ e ∈ Sample.keyBatch.entries,
        ∃ found, items.get? e.1 = some found ∧ Sample.store.Finds Sample.stamp e.1 e.2 found) ∧
      ∃ accepted refused later,
        Lookup.ofBatches (Sample.keyBatch.set "Others" ⟨[], []⟩).entries
          = accepted ++ refused :: later ∧
        Sample.store.refusal? Sample.stamp refused = some (.tableNotFound "Others") ∧
        ∀ l ∈ accepted, Sample.store.refusal? Sample.stamp l = none := by
  have hfound : (Sample.store.answer Sample.stamp (.batchGetItem Sample.keyBatch)).1
      = .ok (.batch (.ofList [("Readings",
          [.ofList [("note", .text "third")], .ofList [("note", .text "third")]])])) := by
    decide +kernel
  have hrefused : (Sample.store.answer Sample.stamp
      (.batchGetItem (Sample.keyBatch.set "Others" ⟨[], []⟩))).1
        = .error (.tableNotFound "Others") := by
    decide +kernel
  obtain ⟨_, hfinds, _⟩ := batchGetItem_eq_lookups Sample.store Sample.stamp Sample.keyBatch
  obtain ⟨_, _, hfaults⟩ := batchGetItem_eq_lookups Sample.store Sample.stamp
    (Sample.keyBatch.set "Others" ⟨[], []⟩)
  obtain ⟨items, hitems, _, hlists⟩ := hfinds _ hfound
  cases hitems
  exact ⟨⟨_, hfound, hlists⟩, (hfaults _).mp hrefused⟩

end ItemStore
