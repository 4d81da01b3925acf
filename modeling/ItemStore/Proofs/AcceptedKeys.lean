import ItemStore.Proofs.BatchReads
import ItemStore.Proofs.WriteRequests

/-!
# Keys that are accepted

Five operations take a key, each with its own handler, and a put takes an item with a key in it.  A
key that one of them lets in and another refuses would be an item that is stored and never found
again.  There is none: each of the five begins by reading the key in one way, after which it can no
longer fail, and what a put asks of the key attributes of an item is what the others ask of a key.

* `Table.readKey` — the checks of a key.  `Table.fault?_find`, `Table.fault?_remove` and
  `Table.fault?_update_empty` say that nothing else is refused.
* `Request.onKey` — the operations on one key; **`Store.fault?_onKey`** — each of them fails as the
  checks do.
* `Table.TakesKey`, `Table.TakesItem` — what a key, or an item, must be;
  `Table.TakesItem.restrict` — the key attributes of such an item are such a key.
* **`Store.keys_accepted_alike`** — the operations accept the same keys, and these.
-/

namespace ItemStore

open Answer

/-! ## Reading a key -/

/-- A step that is followed by what cannot fail fails as it does on its own. -/
lemma fault?_bind_ok {ε α β : Type} {x : Except ε α} {f : α → Except ε β}
    (h : ∀ a, ∃ b, f a = .ok b) : fault? (x >>= f) = fault? x :=
  (fault?_bind fun a _ => fault?_eq_none.mpr (h a)).trans Option.or_none

namespace Table

variable {t : Table} {key item : Item} {enforce : Bool}

/-- The checks of a key: its names and its numbers first, then the values under its attributes. -/
def readKey (t : Table) (key : Item) : Except Fault PrimaryKey := do
  checkKey t.rows.keys key
  liftKey (t.rows.primaryKey key)

lemma exists_readKey_iff :
    (∃ primary, t.readKey key = .ok primary) ↔
      checkKey t.rows.keys key = .ok () ∧ t.rows.keys.HasKey t.rows.enforceTypes key := by
  simp only [readKey, bind_eq_ok, liftKey_eq_ok, ← KeySchema.keyOf_isOk_iff]
  constructor
  · rintro ⟨primary, _, hcheck, hprimary⟩
    exact ⟨hcheck, primary, hprimary⟩
  · rintro ⟨hcheck, primary, hprimary⟩
    exact ⟨primary, (), hcheck, hprimary⟩

lemma fault?_find (attributes : List String) :
    fault? (t.find key attributes) = fault? (t.readKey key) := by
  have hfind : t.find key attributes
      = t.readKey key >>= fun primary =>
          .ok ((t.rows.get? primary).map fun item => item.project attributes) := by
    rw [readKey, bind_assoc]
    rfl
  rw [hfind, fault?_bind_ok fun _ => ⟨_, rfl⟩]

lemma fault?_remove : fault? (t.apply (.remove key)) = fault? (t.readKey key) := by
  have hremove : t.apply (.remove key)
      = t.readKey key >>= fun primary =>
          .ok ((t.rows.delete primary).1, { t with rows := (t.rows.delete primary).2 }) := by
    rw [apply, attempt_remove, readKey, bind_assoc]
    rfl
  rw [hremove, fault?_bind_ok fun _ => ⟨_, rfl⟩]

/-- Without updates nothing but the key is checked. -/
lemma fault?_update_empty : fault? (t.apply (.update key .empty)) = fault? (t.readKey key) := by
  have hupdate : fault? (liftKey ((Rows.update key []).attempt t.rows))
      = fault? (liftKey (t.rows.primaryKey key)) := by
    rw [Rows.attempt_update]
    cases t.rows.primaryKey key with
    | error e => rfl
    | ok primary =>
        simp only [bind, Except.bind]
        cases t.rows.position? primary <;> rfl
  rw [apply, fault?_map, attempt_amend, readKey]
  cases checkKey t.rows.keys key with
  | error e => rfl
  | ok _ =>
      show fault? (liftKey ((Rows.update key []).attempt t.rows) >>= _) = _
      exact (fault?_bind_ok fun _ => ⟨_, rfl⟩).trans hupdate

/-- A put checks the key attributes and the numbers of an item, and lets any other attribute in. -/
lemma exists_put_iff :
    (∃ r, t.apply (.put item) = .ok r) ↔
      t.rows.keys.HasKey t.rows.enforceTypes item ∧ Item.Valid item := by
  have hput : (∃ r, (Rows.put item).attempt t.rows = .ok r) ↔
      t.rows.keys.HasKey t.rows.enforceTypes item := by
    rw [← KeySchema.keyOf_isOk_iff, Rows.attempt_put]
    simp only [bind_eq_ok, Rows.primaryKey]
    constructor
    · rintro ⟨_, primary, hprimary, _⟩
      exact ⟨primary, hprimary⟩
    · rintro ⟨primary, hprimary⟩
      exact ⟨_, primary, hprimary, rfl⟩
  rw [apply, attempt_store, ← hput, Item.valid_iff_values, ← checkNumerals_eq_ok]
  simp only [bind_eq_ok, liftKey_eq_ok]
  constructor
  · rintro ⟨_, _, hnumerals, r, hr, _⟩
    exact ⟨⟨r, hr⟩, hnumerals⟩
  · rintro ⟨⟨r, hr⟩, hnumerals⟩
    exact ⟨_, (), hnumerals, r, hr, rfl⟩

end Table

/-! ## Requests on a key -/

/-- The operations that take a key, each of them on one key and with nothing else asked for. -/
def Request.onKey (table : String) (key : Item) : List Request :=
  [ .getItem ⟨table, key, []⟩,
    .deleteItem ⟨table, key, none⟩,
    .updateItem ⟨table, key, .empty, none⟩,
    .batchGetItem (.ofList [(table, ⟨[key], []⟩)]),
    .batchWriteItem (.ofList [(table, [⟨none, some key⟩])])]

namespace Store

variable {s : Store} {stamp : Stamp} {name : String} {t : Table}

/-- A request for a write that asks for nothing to be given back fails as the write does. -/
lemma fault?_request (ht : s.catalog.get? name = some t) (w : Write) :
    fault? (s.answer stamp (w.request name none)).1 = fault? (t.apply w) := by
  have hreturned : w.checkReturned none = .ok () := by cases w <;> rfl
  rw [answer_request_fst, Catalog.require_eq_ok.mpr ht]
  show fault? ((t.respond none w).map Prod.fst) = _
  rw [fault?_map, Table.respond, hreturned]
  exact fault?_bind_ok fun _ => ⟨_, rfl⟩

/-- A batch of one key is a lookup. -/
lemma fault?_batchGetItem (ht : s.catalog.get? name = some t) (key : Item) :
    fault? (s.answer stamp (.batchGetItem (.ofList [(name, ⟨[key], []⟩)]))).1
      = fault? (t.find key []) := by
  rw [answer_batchGetItem, fault?_map, s.fault?_findAll stamp]
  show (Lookup.ofBatches [(name, ⟨[key], []⟩)]).findSome? (s.refusal? stamp) = _
  rw [Lookup.findSome?_ofBatches_cons, refusal?_table ht, List.findSome?_singleton,
    refusal?_key ht rfl]
  cases fault? (t.find key []) <;> rfl

/-- A batch of one removal is a removal. -/
lemma fault?_batchWriteItem (ht : s.catalog.get? name = some t) (key : Item) :
    fault? (s.answer stamp (.batchWriteItem (.ofList [(name, [⟨none, some key⟩])]))).1
      = fault? (t.apply (.remove key)) := by
  have hwrite : fault? ((Table.write ⟨none, some key⟩).attempt t)
      = fault? (t.apply (.remove key)) := by
    rw [Table.attempt_write]
    exact fault?_bind_ok fun _ => ⟨_, rfl⟩
  rw [answer_batchWriteItem, fault?_map, ← hwrite]
  show fault? ((Catalog.writeAll [(name, [⟨none, some key⟩])]).on s.catalog).1 = _
  rw [Catalog.on_writeAll_cons, Catalog.require_eq_ok.mpr ht]
  simp only [Table.on_writeAll_cons]
  cases (Table.write ⟨none, some key⟩).attempt t <;> rfl

/-- **Each operation on a key fails as the checks of the key do**, and for no other reason. -/
lemma fault?_onKey (ht : s.catalog.get? name = some t) {key : Item} {r : Request}
    (hr : r ∈ Request.onKey name key) : fault? (s.answer stamp r).1 = fault? (t.readKey key) := by
  simp only [Request.onKey, List.mem_cons, List.not_mem_nil, or_false] at hr
  obtain rfl | rfl | rfl | rfl | rfl := hr
  · exact (refusal?_key ht rfl key).trans (Table.fault?_find [])
  · exact (fault?_request ht (.remove key)).trans Table.fault?_remove
  · exact (fault?_request ht (.update key .empty)).trans Table.fault?_update_empty
  · exact (fault?_batchGetItem ht key).trans (Table.fault?_find [])
  · exact (fault?_batchWriteItem ht key).trans Table.fault?_remove

end Store

/-! ## What a key must be -/

/-- A value of the type that is declared for an attribute, if this is a type that keys may have. -/
def KeyAttribute.Declares (a : KeyAttribute) (v : Value) : Prop :=
  (a.type = some .text ∧ ∃ s, v = .text s) ∨ (a.type = some .number ∧ ∃ n, v = .number n)

/-- On attributes of key types a value is admitted if it is of the declared type. -/
lemma KeyAttribute.admits_iff {a : KeyAttribute} {enforce : Bool} {v : Value}
    (htype : a.type = some .text ∨ a.type = some .number) :
    a.Admits enforce v ↔ (enforce = true → a.Declares v) := by
  refine imp_congr_right fun _ => ?_
  rcases htype with htype | htype
  · simp only [Declares, htype, Option.some.injEq, forall_eq', true_and, reduceCtorEq, false_and,
      or_false]
    refine ⟨ScalarType.fits_text, ?_⟩
    rintro ⟨s, rfl⟩
    rfl
  · simp only [Declares, htype, Option.some.injEq, forall_eq', true_and, reduceCtorEq, false_and,
      false_or]
    refine ⟨ScalarType.fits_number, ?_⟩
    rintro ⟨n, rfl⟩
    rfl

namespace Table

variable {t : Table} {enforce : Bool} {key item : Item}

/-- A key of a table: exactly the key attributes, numerals only, and values of the declared types if
types are enforced. -/
structure TakesKey (t : Table) (enforce : Bool) (key : Item) : Prop where
  names : ∀ name, name ∈ key.names ↔ name ∈ t.schema.primary.names
  valid : ∀ name v, key.get? name = some v → v.Valid
  declared : enforce = true → ∀ a ∈ t.schema.primary.attributes, ∀ v,
    key.get? a.name = some v → a.Declares v

/-- An item of a table: the key attributes among others, with values of the declared types if types
are enforced, and numerals only. -/
structure TakesItem (t : Table) (enforce : Bool) (item : Item) : Prop where
  hasKey : ∀ a ∈ t.schema.primary.attributes,
    ∃ v, item.get? a.name = some v ∧ (enforce = true → a.Declares v)
  valid : ∀ name v, item.get? name = some v → v.Valid

/-- The key attributes of an item of a table are a key of it. -/
lemma TakesItem.restrict (h : t.TakesItem enforce item) :
    t.TakesKey enforce (item.restrict t.schema.primary.hasName) where
  names := KeySchema.mem_names_restrict_hasName fun a ha =>
    (h.hasKey a ha).imp fun _ hv => hv.1
  valid := Item.Valid.restrict h.valid _
  declared henforce a ha v hv := by
    obtain ⟨w, hw, hdeclares⟩ := h.hasKey a ha
    rw [KeySchema.get?_restrict_hasName (List.mem_map_of_mem ha), hw, Option.some.injEq] at hv
    exact hv ▸ hdeclares henforce

lemma hasKey_iff (hs : t.Sound enforce) :
    t.rows.keys.HasKey t.rows.enforceTypes item ↔
      ∀ a ∈ t.schema.primary.attributes,
        ∃ v, item.get? a.name = some v ∧ (enforce = true → a.Declares v) := by
  rw [hs.keys_eq, hs.enforceTypes_eq]
  refine forall₂_congr fun a ha => exists_congr fun v => and_congr_right fun _ => ?_
  exact KeyAttribute.admits_iff (hs.typed.type a ha)

/-- **The checks of a key pass exactly the keys of the table.** -/
lemma readKey_iff (hs : t.Sound enforce) :
    fault? (t.readKey key) = none ↔ t.TakesKey enforce key := by
  rw [fault?_eq_none, exists_readKey_iff, hasKey_iff hs, checkKey_eq_ok_of_nodup hs.nodup,
    hs.keys_eq]
  constructor
  · rintro ⟨⟨hnames, hvalid⟩, hkey⟩
    refine ⟨hnames, hvalid, fun henforce a ha v hv => ?_⟩
    obtain ⟨w, hw, hdeclares⟩ := hkey a ha
    obtain rfl : w = v := Option.some.inj (hw.symm.trans hv)
    exact hdeclares henforce
  · rintro ⟨hnames, hvalid, hdeclared⟩
    refine ⟨⟨hnames, hvalid⟩, fun a ha => ?_⟩
    obtain ⟨v, hv⟩ := NameMap.mem_names_iff.mp ((hnames a.name).mpr (List.mem_map_of_mem ha))
    exact ⟨v, hv, fun henforce => hdeclared henforce a ha v hv⟩

/-- **A put accepts exactly the items of the table.** -/
lemma exists_put_iff_takesItem (hs : t.Sound enforce) :
    (∃ r, t.apply (.put item) = .ok r) ↔ t.TakesItem enforce item := by
  rw [exists_put_iff, hasKey_iff hs]
  exact ⟨fun h => ⟨h.1, h.2⟩, fun h => ⟨h.hasKey, h.valid⟩⟩

end Table

/-! ## After every run -/

namespace Store

/-- **All operations accept the same keys**, on every table of every run.  A lookup, a removal, an
update without updates, a batch of one lookup and a batch of one removal, on one key and with
nothing else asked for, all succeed or all fail with one fault.  They succeed on the keys of the
table: names that are exactly the key attributes, numerals only, and the declared types if types are
enforced.

A put accepts the items that have all key attributes, under the same conditions; so the key
attributes of an item that can be put are a key under which it is found. -/
theorem keys_accepted_alike {settings : Settings} {events : List Event} {name : String} {t : Table}
    (ht : ((new settings).after events).catalog.get? name = some t) (stamp : Stamp) :
    (∀ key, ∀ r ∈ Request.onKey name key, ∀ r' ∈ Request.onKey name key,
      fault? (((new settings).after events).answer stamp r).1
        = fault? (((new settings).after events).answer stamp r').1) ∧
    (∀ key, ∀ r ∈ Request.onKey name key,
      ((∃ response, (((new settings).after events).answer stamp r).1 = .ok response) ↔
        t.TakesKey settings.enforceTypes key)) ∧
    ∀ item,
      ((∃ response, (((new settings).after events).answer stamp
        (.putItem ⟨name, item, none⟩)).1 = .ok response) ↔
          t.TakesItem settings.enforceTypes item) ∧
      ((∃ response, (((new settings).after events).answer stamp
        (.putItem ⟨name, item, none⟩)).1 = .ok response) →
          ∀ r ∈ Request.onKey name (item.restrict t.schema.primary.hasName),
            ∃ response, (((new settings).after events).answer stamp r).1 = .ok response) := by
  have hsound := sound_after ht
  have hkey : ∀ key, ∀ r ∈ Request.onKey name key,
      ((∃ response, (((new settings).after events).answer stamp r).1 = .ok response) ↔
        t.TakesKey settings.enforceTypes key) := fun key r hr => by
    rw [← fault?_eq_none, fault?_onKey ht hr, Table.readKey_iff hsound]
  have hitem : ∀ item, (∃ response, (((new settings).after events).answer stamp
      (.putItem ⟨name, item, none⟩)).1 = .ok response) ↔
        t.TakesItem settings.enforceTypes item := fun item => by
    have hput : fault? (((new settings).after events).answer stamp
        (.putItem ⟨name, item, none⟩)).1 = fault? (t.apply (.put item)) :=
      fault?_request ht (.put item)
    rw [← Table.exists_put_iff_takesItem hsound, ← fault?_eq_none, ← fault?_eq_none, hput]
  refine ⟨fun key r hr r' hr' => ?_, hkey, fun item => ⟨hitem item, fun hput r hr => ?_⟩⟩
  · rw [fault?_onKey ht hr, fault?_onKey ht hr']
  · exact (hkey _ r hr).mpr ((hitem item).mp hput).restrict

end Store

namespace Sample

/-- The key of the readings is their number. -/
lemma takesKey_key {id : String} (h : isNumeral id = true) (enforce : Bool) :
    table.TakesKey enforce (key id) := by
  have hprimary : table.schema.primary = ⟨⟨"id", some .number⟩, none⟩ := by decide +kernel
  have hnames : (key id).names = ["id"] := rfl
  have hget : (key id).get? "id" = some (.number id) := rfl
  refine ⟨fun name => ?_, Item.valid_iff_values.mpr ?_, fun _ a ha v hv => ?_⟩
  · rw [hprimary, hnames]
    rfl
  · show ∀ v ∈ [Value.number id], v.Valid
    simpa [Value.valid_number] using h
  · rw [hprimary] at ha
    obtain rfl := List.mem_singleton.mp ha
    obtain rfl := Option.some.inj (hget.symm.trans hv)
    exact .inr ⟨rfl, id, rfl⟩

/-- The key of the orders is their number and a text. -/
lemma takesKey_orderKey {id : String} (h : isNumeral id = true) (sort : String) (enforce : Bool) :
    orderTable.TakesKey enforce (orderKey id sort) := by
  have hprimary : orderTable.schema.primary
      = ⟨⟨"Id", some .number⟩, some ⟨"Sort", some .text⟩⟩ := by
    decide +kernel
  have hentries := entries_orderKey id sort
  refine ⟨fun name => ?_, Item.valid_iff_values.mpr ?_, fun _ a ha v hv => ?_⟩
  · rw [hprimary, NameMap.names, hentries]
    rfl
  · rw [NameMap.values, hentries]
    simpa [Value.valid_number, Value.Valid, Value.numerals] using h
  · rw [hprimary] at ha
    rw [NameMap.get?, hentries] at hv
    obtain rfl | rfl := List.mem_pair.mp ha
    · cases hv
      exact .inr ⟨rfl, id, rfl⟩
    · cases hv
      exact .inl ⟨rfl, sort, rfl⟩

end Sample

/-- A stored reading under another spelling of its number, a text in place of the number, and a
reading that is not there yet; an order under another spelling of its number, a key without the
range attribute, and an order that is not there yet. -/
theorem Store.keys_accepted_alike_sample :
    ((∀ r ∈ Request.onKey "Readings" (Sample.key "50e-1"),
        ∃ response, (Sample.store.answer Sample.stamp r).1 = .ok response) ∧
      (∀ r ∈ Request.onKey "Readings" (.ofList [("id", .text "5")]),
        fault? (Sample.store.answer Sample.stamp r).1
          = some (.keyFault (.mistyped "id" "N" "S"))) ∧
      ∀ r ∈ Request.onKey "Readings"
          ((Sample.reading "8" "new").restrict Sample.table.schema.primary.hasName),
        ∃ response, (Sample.store.answer Sample.stamp r).1 = .ok response) ∧
    (∀ r ∈ Request.onKey "Orders" (Sample.orderKey "1.0" "c"),
        ∃ response, (Sample.orderStore.answer Sample.stamp r).1 = .ok response) ∧
      (∀ r ∈ Request.onKey "Orders" (.ofList [("Id", .number "1")]),
        fault? (Sample.orderStore.answer Sample.stamp r).1
          = some (.requestFault (.keyNames ["Id"] ["Id", "Sort"]))) ∧
      ∀ r ∈ Request.onKey "Orders"
          ((Sample.order "e" [("Time", .number "12")]).restrict
            Sample.orderTable.schema.primary.hasName),
        ∃ response, (Sample.orderStore.answer Sample.stamp r).1 = .ok response := by
  constructor
  · obtain ⟨hsame, hkey, hitem⟩ := keys_accepted_alike Sample.get?_table Sample.stamp
    refine ⟨fun r hr => (hkey _ r hr).mpr ?_, fun r hr => ?_, (hitem _).2 ?_⟩
    · exact Sample.takesKey_key (by decide +kernel) _
    · have hget : fault? (Sample.store.answer Sample.stamp
          (.getItem ⟨"Readings", .ofList [("id", .text "5")], []⟩)).1
            = some (.keyFault (.mistyped "id" "N" "S")) := by
        decide +kernel
      exact (hsame _ r hr _ List.mem_cons_self).trans hget
    · exact fault?_eq_none.mp (by decide +kernel)
  · obtain ⟨hsame, hkey, hitem⟩ := keys_accepted_alike Sample.get?_orderTable Sample.stamp
    refine ⟨fun r hr => (hkey _ r hr).mpr ?_, fun r hr => ?_, (hitem _).2 ?_⟩
    · exact Sample.takesKey_orderKey (by decide +kernel) "c" _
    · have hget : fault? (Sample.orderStore.answer Sample.stamp
          (.getItem ⟨"Orders", .ofList [("Id", .number "1")], []⟩)).1
            = some (.requestFault (.keyNames ["Id"] ["Id", "Sort"])) := by
        decide +kernel
      exact (hsame _ r hr _ List.mem_cons_self).trans hget
    · exact fault?_eq_none.mp (by decide +kernel)

end ItemStore
