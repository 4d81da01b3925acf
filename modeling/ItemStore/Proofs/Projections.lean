import ItemStore.Proofs.Entrywise
import ItemStore.Proofs.ReadPaths
import ItemStore.Proofs.Renderings

/-!
# Reading parts of items

A client may list the attributes that it wants to see.  What is found does not depend on this list.
Keys, filters and conditions are put to whole items, and only what was found is cut down, so that
the same request without the list finds as many items in the same order, each with everything that
the list leaves out of it.

* `Item.CutTo`, `Response.CutTo`, `Response.BatchCutTo` — an item that keeps the listed attributes
  of another one, and a response made of such items.
* `Carries` — two computations of which the second succeeds wherever the first does, with a related
  result; `Carries.bind` follows them step by step.
* `Answer.getItem_carries`, `Answer.query_carries`, `Answer.scan_carries`,
  `Answer.executeStatement_carries`, `Answer.batchGetItem_carries` — the five ways to read items.
* **`Store.reads_cut`** — all of them, in every store.
-/

namespace ItemStore

open Answer

/-! ## Parts of items -/

/-- What an item keeps of another one where attributes are listed.  No list keeps them all. -/
def Item.CutTo (attributes : List String) (part whole : Item) : Prop :=
  ∀ name, part.get? name = if attributes = [] ∨ name ∈ attributes then whole.get? name else none

namespace Item

/-- Projection keeps the listed attributes. -/
lemma project_cutTo (attributes : List String) (item : Item) :
    CutTo attributes (item.project attributes) item := by
  intro name
  rw [project]
  cases attributes with
  | nil => simp
  | cons a attributes =>
      rw [List.isEmpty_cons, if_neg Bool.false_ne_true, NameMap.get?_restrict]
      simp

/-- Items that were cut down, next to the whole ones. -/
lemma forall₂_project (attributes : List String) (items : List Item) :
    List.Forall₂ (CutTo attributes) (items.map fun item => item.project attributes)
      (items.map fun item => item.project []) := by
  rw [List.forall₂_map_left_iff, List.forall₂_map_right_iff]
  exact List.forall₂_same.mpr fun item _ => project_cutTo attributes item

end Item

/-- A response with the items of another one, in their order, each cut down.  Both count as many
items as looked at. -/
inductive Response.CutTo (attributes : List String) : Response → Response → Prop
  | item {part whole : Option Item} (h : Option.Rel (Item.CutTo attributes) part whole) :
      CutTo attributes (.item part) (.item whole)
  | found {parts wholes : List Item} (h : List.Forall₂ (Item.CutTo attributes) parts wholes)
      (scanned : ℕ) : CutTo attributes (.found parts scanned) (.found wholes scanned)
  | selected {parts wholes : List Item} (h : List.Forall₂ (Item.CutTo attributes) parts wholes) :
      CutTo attributes (.selected parts) (.selected wholes)

/-- A response with the items of another one, table by table and in their order, each cut down to
the list for its table. -/
inductive Response.BatchCutTo (lists : String → List String) : Response → Response → Prop
  | batch {parts wholes : NameMap (List Item)}
      (h : ∀ table, Option.Rel (List.Forall₂ (Item.CutTo (lists table)))
        (parts.get? table) (wholes.get? table)) :
      BatchCutTo lists (.batch parts) (.batch wholes)

/-! ## Computations with related results -/

/-- Where the first computation succeeds the second does so too, with a related result. -/
def Carries {ε α : Type} (R : α → α → Prop) (x y : Except ε α) : Prop :=
  ∀ a, x = .ok a → ∃ b, y = .ok b ∧ R a b

namespace Carries

variable {ε α β : Type} {R : α → α → Prop} {S : β → β → Prop} {x y : Except ε α}

lemma ok {a b : α} (h : R a b) : Carries R (.ok a : Except ε α) (.ok b) := by
  rintro _ ⟨⟩
  exact ⟨b, rfl, h⟩

lemma bind {f g : α → Except ε β} (h : Carries R x y) (hfg : ∀ a b, R a b → Carries S (f a) (g b)) :
    Carries S (x >>= f) (y >>= g) := by
  intro c hc
  obtain ⟨a, ha, hc⟩ := bind_eq_ok.mp hc
  obtain ⟨b, hb, hab⟩ := h a ha
  obtain ⟨d, hd, hcd⟩ := hfg a b hab c hc
  exact ⟨d, bind_eq_ok.mpr ⟨b, hb, hd⟩, hcd⟩

/-- A step that both computations make. -/
lemma bind_same {f g : α → Except ε β} (hfg : ∀ a, Carries S (f a) (g a)) :
    Carries S (x >>= f) (x >>= g) := by
  intro c hc
  obtain ⟨a, ha, hc⟩ := bind_eq_ok.mp hc
  obtain ⟨d, hd, hcd⟩ := hfg a c hc
  exact ⟨d, bind_eq_ok.mpr ⟨a, ha, hd⟩, hcd⟩

end Carries

/-! ## Reading without a list -/

/-- No list of attributes is refused for being empty. -/
lemma Answer.checkAttributes_carries (attributes : List String) :
    Carries (fun _ _ => True) (checkAttributes attributes) (checkAttributes []) :=
  fun _ _ => ⟨(), rfl, trivial⟩

/-- The same lookup finds the whole item. -/
lemma Table.find_carries (t : Table) (key : Item) (attributes : List String) :
    Carries (Option.Rel (Item.CutTo attributes)) (t.find key attributes) (t.find key []) := by
  refine .bind_same fun _ => .bind_same fun primary => .ok ?_
  cases t.rows.get? primary with
  | none => exact .none
  | some item => exact .some (item.project_cutTo attributes)

namespace Answer

variable (c : Catalog)

theorem getItem_carries (r : GetItem) :
    Carries (Response.CutTo r.attributes) (getItem r c)
      (getItem { r with attributes := [] } c) := by
  refine .bind_same fun t => (checkAttributes_carries _).bind fun _ _ _ => ?_
  exact (t.find_carries r.key r.attributes).bind fun _ _ hfound => .ok (.item hfound)

theorem query_carries (q : Query) :
    Carries (Response.CutTo q.attributes) (query q c) (query { q with attributes := [] } c) := by
  refine .bind_same fun t => (checkAttributes_carries _).bind fun _ _ _ => ?_
  -- Neither the key query nor what it and the filter are put to depends on the list.
  refine .bind_same fun keys => .bind_same fun _ => .bind_same fun keyQuery => ?_
  refine .bind_same fun candidates => .bind_same fun items => .ok ?_
  exact .found (Item.forall₂_project q.attributes items) candidates.length

theorem scan_carries (r : Scan) :
    Carries (Response.CutTo r.attributes) (scan r c) (scan { r with attributes := [] } c) := by
  refine .bind_same fun t => (checkAttributes_carries _).bind fun _ _ _ => ?_
  refine .bind_same fun _ => .bind_same fun items => .ok ?_
  exact .found (Item.forall₂_project r.attributes items) t.rows.count

theorem executeStatement_carries {text text' : String} {s : Select}
    (h : Select.read text = .ok s) (h' : Select.read text' = .ok { s with selection := .all }) :
    Carries (Response.CutTo s.selection.names) (executeStatement text c)
      (executeStatement text' c) := by
  have hselect : Carries (List.Forall₂ (Item.CutTo s.selection.names)) (select s c)
      (select { s with selection := .all } c) := by
    refine .bind_same fun _ => .bind_same fun _ => .bind_same fun items => .ok ?_
    exact Item.forall₂_project s.selection.names items
  rw [executeStatement, executeStatement, h, h']
  exact hselect.bind fun _ _ hitems => .ok (.selected hitems)

end Answer

/-! ## Batches without lists -/

namespace KeyBatch

/-- A batch without its list, if the list is to be left out. -/
def without (leftOut : Bool) (b : KeyBatch) : KeyBatch :=
  if leftOut then { b with attributes := [] } else b

/-- The list that a batch has and its counterpart has not. -/
def missing (leftOut : Bool) (b : KeyBatch) : List String :=
  if leftOut then b.attributes else []

end KeyBatch

/-- Batches of which those for some tables have no list any more. -/
def withoutLists (leftOut : String → Bool) (batches : NameList KeyBatch) : NameList KeyBatch :=
  ⟨batches.entries.map fun e => (e.1, e.2.without (leftOut e.1)),
    by simpa [Function.comp_def] using batches.nodup⟩

/-- The list that is missing for a table. -/
def missingList (leftOut : String → Bool) (batches : NameList KeyBatch) (table : String) :
    List String :=
  ((batches.get? table).map fun b => b.missing (leftOut table)).getD []

namespace Table

variable (t : Table)

lemma findAll_carries (attributes : List String) (keys : List Item) :
    Carries (List.Forall₂ (Item.CutTo attributes)) (t.findAll attributes keys)
      (t.findAll [] keys) := by
  induction keys with
  | nil => exact .ok .nil
  | cons key keys ih =>
      refine (t.find_carries key attributes).bind fun _ _ hfound => ih.bind fun _ _ hitems => .ok ?_
      cases hfound with
      | none => exact hitems
      | some hitem => exact .cons hitem hitems

/-- Looking up one batch, with or without its list. -/
lemma findBatch_carries {β : Type} {S : β → β → Prop} (leftOut : Bool) (b : KeyBatch)
    {f g : List Item → Except Fault β}
    (hfg : ∀ items items', List.Forall₂ (Item.CutTo (b.missing leftOut)) items items' →
      Carries S (f items) (g items')) :
    Carries S
      (checkAttributes b.attributes >>= fun _ => t.findAll b.attributes b.keys >>= f)
      (checkAttributes (b.without leftOut).attributes >>= fun _ =>
        t.findAll (b.without leftOut).attributes (b.without leftOut).keys >>= g) := by
  cases leftOut with
  | true =>
      exact (checkAttributes_carries _).bind fun _ _ _ =>
        (t.findAll_carries b.attributes b.keys).bind hfg
  | false =>
      refine .bind_same fun _ => .bind_same fun items => hfg items items ?_
      exact List.forall₂_same.mpr fun item _ => item.project_cutTo []

end Table

/-- Entries under the same names, cut down to the list for each name. -/
def CutEntries (lists : String → List String) (es es' : List (String × List Item)) : Prop :=
  List.Forall₂ (fun e e' => e.1 = e'.1 ∧ List.Forall₂ (Item.CutTo (lists e.1)) e.2 e'.2) es es'

lemma Catalog.findAll_carries (c : Catalog) (leftOut : String → Bool)
    {lists : String → List String} {es : List (String × KeyBatch)}
    (hlists : ∀ e ∈ es, lists e.1 = e.2.missing (leftOut e.1)) :
    Carries (CutEntries lists) (c.findAll es)
      (c.findAll (es.map fun e => (e.1, e.2.without (leftOut e.1)))) := by
  induction es with
  | nil => exact .ok .nil
  | cons e es ih =>
      obtain ⟨hlist, hrest⟩ := List.forall_mem_cons.mp hlists
      refine .bind_same fun t => t.findBatch_carries (leftOut e.1) e.2 fun _ _ hitems => ?_
      exact (ih hrest).bind fun _ _ hothers => .ok (.cons ⟨rfl, hlist ▸ hitems⟩ hothers)

lemma Catalog.names_findAll {c : Catalog} {es : List (String × KeyBatch)}
    {found : List (String × List Item)} (h : c.findAll es = .ok found) :
    found.map Prod.fst = es.map Prod.fst := by
  induction es generalizing found with
  | nil => cases h; rfl
  | cons e es ih =>
      obtain ⟨t, -, h⟩ := bind_eq_ok.mp h
      obtain ⟨_, -, h⟩ := bind_eq_ok.mp h
      obtain ⟨items, -, h⟩ := bind_eq_ok.mp h
      obtain ⟨others, hothers, h⟩ := bind_eq_ok.mp h
      cases h
      exact congrArg (e.1 :: ·) (ih hothers)

lemma CutEntries.lookup {lists : String → List String} {es es' : List (String × List Item)}
    (h : CutEntries lists es es') (name : String) :
    Option.Rel (List.Forall₂ (Item.CutTo (lists name))) (es.lookup name) (es'.lookup name) :=
  lookup_rel (R := fun name => List.Forall₂ (Item.CutTo (lists name))) h name

lemma CutEntries.names_eq {lists : String → List String} {es es' : List (String × List Item)}
    (h : CutEntries lists es es') : es.map Prod.fst = es'.map Prod.fst := by
  induction h with
  | nil => rfl
  | cons he _ ih => rw [List.map_cons, List.map_cons, he.1, ih]

namespace Answer

theorem batchGetItem_carries (c : Catalog) (leftOut : String → Bool)
    (batches : NameList KeyBatch) :
    Carries (Response.BatchCutTo (missingList leftOut batches)) (batchGetItem batches c)
      (batchGetItem (withoutLists leftOut batches) c) := by
  have hlists : ∀ e ∈ batches.entries,
      missingList leftOut batches e.1 = e.2.missing (leftOut e.1) := by
    intro e he
    rw [missingList, NameList.get?_eq_some_iff.mpr he]
    rfl
  intro response hresponse
  obtain ⟨found, hfound, hresponse⟩ := bind_eq_ok.mp hresponse
  cases hresponse
  obtain ⟨found', hfound', hcut⟩ := c.findAll_carries leftOut hlists found hfound
  have hnodup : (found.map Prod.fst).Nodup := Catalog.names_findAll hfound ▸ batches.nodup
  refine ⟨_, bind_eq_ok.mpr ⟨found', hfound', rfl⟩, .batch fun table => ?_⟩
  rw [NameMap.get?_ofList hnodup, NameMap.get?_ofList (hcut.names_eq ▸ hnodup)]
  exact hcut.lookup table

end Answer

/-! ## In every store -/

namespace Store

/-- **Reading parts of items is reading items and cutting them down.**  Where a request with a list
of attributes succeeds, the same request without the list does so too.  It finds as many items, in
the same order, and has looked at as many; each item of the first response is what the list keeps of
its counterpart in the second.  In a batch the lists may be left out for any of the tables.  A
statement that lists columns has a counterpart that selects them all. -/
theorem reads_cut (s : Store) (stamp : Stamp) :
    (∀ r : GetItem, Carries (Response.CutTo r.attributes) (s.answer stamp (.getItem r)).1
      (s.answer stamp (.getItem { r with attributes := [] })).1) ∧
    (∀ (batches : NameList KeyBatch) (leftOut : String → Bool),
      Carries (Response.BatchCutTo (missingList leftOut batches))
        (s.answer stamp (.batchGetItem batches)).1
        (s.answer stamp (.batchGetItem (withoutLists leftOut batches))).1) ∧
    (∀ q : Query, Carries (Response.CutTo q.attributes) (s.answer stamp (.query q)).1
      (s.answer stamp (.query { q with attributes := [] })).1) ∧
    (∀ r : Scan, Carries (Response.CutTo r.attributes) (s.answer stamp (.scan r)).1
      (s.answer stamp (.scan { r with attributes := [] })).1) ∧
    ∀ text response, (s.answer stamp (.executeStatement text)).1 = .ok response →
      ∃ select, Select.read text = .ok select ∧
        (∃ text', Select.read text' = .ok { select with selection := .all }) ∧
        ∀ text', Select.read text' = .ok { select with selection := .all } →
          ∃ whole, (s.answer stamp (.executeStatement text')).1 = .ok whole ∧
            response.CutTo select.selection.names whole := by
  refine ⟨getItem_carries s.catalog, fun batches leftOut => ?_, query_carries s.catalog,
    scan_carries s.catalog, fun text response hresponse => ?_⟩
  · exact batchGetItem_carries s.catalog leftOut batches
  · obtain ⟨select, hselect, -⟩ := bind_eq_ok.mp hresponse
    have hread : Select.read text = .ok select := (mapError_eq_ok _).mp hselect
    refine ⟨select, hread, Select.exists_read_all hread, fun text' hread' => ?_⟩
    exact executeStatement_carries s.catalog hread hread' response hresponse

end Store

namespace Sample

/-- The numbers of the readings whose note begins in some way. -/
def numberScan : Scan where
  table := "Readings"
  filter := .ofList [("note", ⟨.beginsWith, [.text "th"]⟩)]
  combinator := none
  attributes := ["id"]

/-- The notes of a reading and of one that is not there. -/
def noteBatch : NameList KeyBatch :=
  .ofList [("Readings", ⟨[key "5", key "7"], ["note"]⟩)]

end Sample

/-- All five ways to read: a lookup, a batch, a query, a scan and a statement. -/
theorem Store.reads_cut_sample :
    (∃ whole, (Sample.store.answer Sample.stamp (.getItem ⟨"Readings", Sample.key "5", []⟩)).1
        = .ok whole ∧
      Response.CutTo ["note"] (.item (some (.ofList [("note", .text "third")]))) whole) ∧
    (∃ whole, (Sample.store.answer Sample.stamp
        (.batchGetItem (withoutLists (fun _ => true) Sample.noteBatch))).1 = .ok whole ∧
      Response.BatchCutTo (missingList (fun _ => true) Sample.noteBatch)
        (.batch (.ofList [("Readings", [.ofList [("note", .text "third")]])])) whole) ∧
    (∃ whole, (Sample.store.answer Sample.stamp
        (.query { Sample.query with attributes := [] })).1 = .ok whole ∧
      Response.CutTo ["note"] (.found [.ofList [("note", .text "third")]] 1) whole) ∧
    (∃ whole, (Sample.store.answer Sample.stamp
        (.scan { Sample.numberScan with attributes := [] })).1 = .ok whole ∧
      Response.CutTo ["id"] (.found [.ofList [("id", .number "5e0")]] 2) whole) ∧
    ∃ text' whole, Select.read text' = .ok { Sample.select with selection := .all } ∧
      (Sample.store.answer Sample.stamp (.executeStatement text')).1 = .ok whole ∧
      Response.CutTo ["note"] (.selected [.ofList [("note", .text "second")]]) whole := by
  obtain ⟨hlookup, hbatch, hquery, hscan, hstatement⟩ := reads_cut Sample.store Sample.stamp
  refine ⟨hlookup ⟨"Readings", Sample.key "5", ["note"]⟩ _ (by decide +kernel),
    hbatch _ _ _ (by decide +kernel), hquery _ _ (by decide +kernel),
    hscan _ _ (by decide +kernel), ?_⟩
  obtain ⟨select, hread, ⟨text', hread'⟩, hcut⟩ :=
    hstatement Sample.statement (.selected [.ofList [("note", .text "second")]]) (by decide +kernel)
  have hsample : Select.read Sample.statement = .ok Sample.select := by decide +kernel
  obtain rfl : select = Sample.select := Except.ok.inj (hread.symm.trans hsample)
  obtain ⟨whole, hwhole, hselected⟩ := hcut text' hread'
  exact ⟨text', whole, hread', hwhole, hselected⟩

end ItemStore
