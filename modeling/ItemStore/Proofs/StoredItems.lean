import ItemStore.Proofs.Runs

/-!
# Stored items

What can be said of the items in a table after any run: no two of them have the same key, each has a
whole and valid key, and each is the item that a client finds under its own key.

* `Store.Gets` — what a client finds under a key.  `Store.gets_iff` reads it off the rows.
* **`Store.keys_unique_after`** — after every run the keys of a table differ once decoded.
* **`Store.stored_item_after`** — after every run each item of a table has the key attributes, holds
  no number that is not a numeral, and is found.
-/

namespace ItemStore

open Answer

/-! ## Lookups -/

lemma Answer.getItem_eq_ok {r : GetItem} {c : Catalog} {response : Response} :
    getItem r c = .ok response ↔
      ∃ t found, c.get? r.table = some t ∧ checkAttributes r.attributes = .ok () ∧
        t.find r.key r.attributes = .ok found ∧ response = .item found := by
  simp only [getItem, bind_eq_ok, Catalog.require_eq_ok]
  constructor
  · rintro ⟨t, ht, _, hattributes, found, hfind, h⟩
    cases h
    exact ⟨t, found, ht, hattributes, hfind, rfl⟩
  · rintro ⟨t, found, ht, hattributes, hfind, rfl⟩
    exact ⟨t, ht, (), hattributes, found, hfind, rfl⟩

/-- A request for the item with a key is accepted, and this is the item that it finds. -/
def Store.Gets (s : Store) (table : String) (key : Item) (found : Option Item) : Prop :=
  ∀ stamp, (s.answer stamp (.getItem ⟨table, key, []⟩)).1 = .ok (.item found)

namespace Store

variable {s : Store} {table : String} {key : Item} {found : Option Item}

/-- **A client finds the row under a key**, provided that the table is there and takes the key. -/
theorem gets_iff :
    s.Gets table key found ↔
      ∃ t, s.catalog.get? table = some t ∧ checkKey t.rows.keys key = .ok () ∧
        t.rows.keys.HasKey t.rows.enforceTypes key ∧ found = t.rows.at? key := by
  have hproject : ∀ t : Table,
      (t.rows.at? key).map (fun item => item.project []) = t.rows.at? key := fun _ =>
    Option.map_id'
  constructor
  · intro h
    obtain ⟨t, _, hget, _, hfind, hfound⟩ := getItem_eq_ok.mp (h ⟨"", 0⟩)
    cases hfound
    rw [Table.find_eq_ok, hproject] at hfind
    exact ⟨t, hget, hfind⟩
  · rintro ⟨t, hget, hfind⟩ _
    refine getItem_eq_ok.mpr ⟨t, found, hget, rfl, ?_, rfl⟩
    rw [Table.find_eq_ok, hproject]
    exact hfind

end Store

/-! ## A run -/

namespace Sample

/-- The stamp of everything here. -/
def stamp : Stamp := ⟨"7", 0⟩

/-- Readings under a numeric key. -/
def declaration : TableDeclaration :=
  ⟨"Readings", [⟨"id", .hash⟩], [⟨"id", .number⟩], [], []⟩

/-- A reading with a note. -/
def reading (id note : String) : Item :=
  .ofList [("id", .number id), ("note", .text note)]

/-- A key. -/
def key (id : String) : Item :=
  .ofList [("id", .number id)]

/-- A request to put an item. -/
def put (item : Item) : Event :=
  .request stamp (.putItem ⟨"Readings", item, none⟩)

/-- A table is dropped and made again; one put is refused and one replaces an item whose key is
spelled in another way. -/
def events : List Event :=
  [ .request stamp (.createTable declaration), put (reading "1" "old"), .reset,
    .request stamp (.createTable declaration), put (reading "5" "first"),
    put (reading "6" "second"), put (reading "six" "refused"), put (reading "5e0" "third")]

/-- The store after the run. -/
def store : Store :=
  (Store.new {}).after events

/-- The table after the run. -/
def table : Table :=
  (store.catalog.get? "Readings").get (by decide +kernel)

lemma get?_table : store.catalog.get? "Readings" = some table :=
  (Option.some_get _).symm

/-- An order of some time, if it has one. -/
def order (sort : String) (time : List (String × Value)) : Item :=
  .ofList ([("Id", .number "1"), ("Sort", .text sort)] ++ time)

/-- The key of an order. -/
def orderKey (id sort : String) : Item :=
  .ofList [("Id", .number id), ("Sort", .text sort)]

lemma entries_orderKey (id sort : String) :
    (orderKey id sort).entries = [("Id", .number id), ("Sort", .text sort)] := by
  have hlt : "Id" < "Sort" := by decide
  simp only [orderKey, NameMap.ofList, arrange, List.foldl, insertEntry, if_pos hlt]

/-- Orders under one number; one of them has no time, so it is not in the index. -/
def orderEvents : List Event :=
  [ .request stamp (.createTable orders),
    .request stamp (.putItem ⟨"Orders", order "a" [("Time", .number "9")], none⟩),
    .request stamp (.putItem ⟨"Orders", order "b" [], none⟩),
    .request stamp (.putItem ⟨"Orders", order "c" [("Time", .number "10")], none⟩),
    .request stamp (.putItem ⟨"Orders", order "d" [("Time", .number "11")], none⟩)]

/-- The store with the orders. -/
def orderStore : Store :=
  (Store.new {}).after orderEvents

/-- The table of the orders, whose key has two attributes. -/
def orderTable : Table :=
  (orderStore.catalog.get? "Orders").get (by decide +kernel)

lemma get?_orderTable : orderStore.catalog.get? "Orders" = some orderTable :=
  (Option.some_get _).symm

end Sample

namespace Store

/-! ## After every run -/

variable {settings : Settings} {events : List Event} {name : String} {t : Table}

/-- **No two items of a table have the same key**, whatever was asked of the store: under some key
attribute they have values that differ once decoded. -/
theorem keys_unique_after (h : ((new settings).after events).catalog.get? name = some t) {i j : ℕ}
    (hi : i < t.rows.items.length) (hj : j < t.rows.items.length) (hij : i ≠ j) :
    t.schema.primary.sameKey t.rows.items[i] t.rows.items[j] = false := by
  have hsound := sound_after h
  have hunique := List.pairwise_iff_getElem.mp hsound.rows.unique
  rw [← hsound.keys_eq]
  rcases Nat.lt_or_gt_of_ne hij with hlt | hgt
  · exact hunique i j hi hj hlt
  · rw [KeySchema.sameKey_comm]
    exact hunique j i hj hi hgt

theorem keys_unique_after_sample :
    ∃ (hi : 0 < Sample.table.rows.items.length) (hj : 1 < Sample.table.rows.items.length),
      Sample.table.schema.primary.sameKey Sample.table.rows.items[0] Sample.table.rows.items[1]
        = false := by
  have hlength : Sample.table.rows.items.length = 2 := by decide +kernel
  refine ⟨by omega, by omega, ?_⟩
  exact keys_unique_after Sample.get?_table (by omega) (by omega) Nat.zero_ne_one

/-- **Every stored item is whole and can be found.**  It has each key attribute, with a value of the
declared type if types are enforced; its numbers are numerals at every depth; and its own key
attributes are a key under which a client gets this very item. -/
theorem stored_item_after (h : ((new settings).after events).catalog.get? name = some t)
    {item : Item} (hitem : item ∈ t.rows.items) :
    (∀ a ∈ t.schema.primary.attributes, ∃ v, item.get? a.name = some v ∧
        (settings.enforceTypes = true →
          (a.type = some .text ∧ ∃ s, v = .text s) ∨
            (a.type = some .number ∧ ∃ n, v = .number n))) ∧
      (∀ attributeName v, item.get? attributeName = some v →
        ∀ n ∈ v.numerals, isNumeral n = true) ∧
      ((new settings).after events).Gets name (item.restrict t.schema.primary.hasName)
        (some item) := by
  have hsound := sound_after h
  have hkey := hsound.rows.hasKey item hitem
  have hvalid := hsound.rows.valid item hitem
  have hself := KeySchema.sameKey_self hkey hvalid
  refine ⟨fun a ha => ?_, hvalid, ?_⟩
  · have hadmits := hkey a (hsound.keys_eq ▸ ha)
    rw [hsound.enforceTypes_eq] at hadmits
    obtain ⟨v, hv, hadmits⟩ := hadmits
    refine ⟨v, hv, fun henforce => ?_⟩
    rcases hsound.typed.type a ha with htype | htype
    · exact Or.inl ⟨htype, ScalarType.fits_text (hadmits henforce _ htype)⟩
    · exact Or.inr ⟨htype, ScalarType.fits_number (hadmits henforce _ htype)⟩
  · rw [gets_iff, ← hsound.keys_eq]
    have hsame : ∀ n ∈ t.rows.keys.names,
        (item.restrict t.rows.keys.hasName).get? n = item.get? n :=
      fun n hn => KeySchema.get?_restrict_hasName hn item
    refine ⟨t, h, checkKey_restrict hsound.nodup hkey hvalid, hkey.of_get?_eq hsame, ?_⟩
    rw [Rows.at?_eq_of_get?_eq hsame]
    exact (hsound.rows.unique.at?_eq_some hitem hself).symm

theorem stored_item_after_sample :
    Sample.reading "5e0" "third" ∈ Sample.table.rows.items ∧
      Sample.store.Gets "Readings"
        ((Sample.reading "5e0" "third").restrict Sample.table.schema.primary.hasName)
        (some (Sample.reading "5e0" "third")) := by
  have hitem : Sample.reading "5e0" "third" ∈ Sample.table.rows.items := by decide +kernel
  exact ⟨hitem, (stored_item_after Sample.get?_table hitem).2.2⟩

end Store

end ItemStore
