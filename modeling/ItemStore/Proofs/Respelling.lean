import ItemStore.Proofs.AlikeRows
import ItemStore.Proofs.Statements
import ItemStore.Proofs.StoredItems

/-!
# Spelling makes no difference

Two clients send the same requests, except that they spell the numbers in them in different ways.
The tables of the two stores drift apart, as spellings are kept, but they stay alike, and nobody can
tell from the answers which spelling was used: the stores refuse the same requests for the same
reason, and what they give back agrees.  Only the sizes of tables show the spelling.

* `Request.Respelled` — one request in two spellings.
* `Response.Alike` — responses that differ in spelling, in stamps and in sizes of tables.
* `Table.Alike`, `Catalog.Alike`, `Store.Alike` — the relation of the two stores.
* `Answer.putItem_alike`, … — each operation answers alike and keeps the stores alike.
* **`Store.answer_alike`** — one step.
* **`Store.run_alike`** — all runs.
-/

namespace ItemStore

open Answer

/-! ## Requests in two spellings -/

/-- Two valid values that agree. -/
structure Value.Respelled (v w : Value) : Prop where
  valid : v.Valid
  valid' : w.Valid
  alike : v.Alike w

/-- The same attributes, with valid values that agree. -/
def Item.Respelled (a b : Item) : Prop :=
  Entrywise Value.Respelled a.entries b.entries

structure Condition.Respelled (c c' : Condition) : Prop where
  operator_eq : c.operator = c'.operator
  operands : List.Forall₂ Value.Respelled c.operands c'.operands

structure AttributeUpdate.Respelled (u u' : AttributeUpdate) : Prop where
  value : Option.Rel Value.Respelled u.value u'.value
  action_eq : u.action = u'.action

structure KeyBatch.Respelled (b b' : KeyBatch) : Prop where
  keys : List.Forall₂ Item.Respelled b.keys b'.keys
  attributes_eq : b.attributes = b'.attributes

structure BatchedWrite.Respelled (w w' : BatchedWrite) : Prop where
  put : Option.Rel Item.Respelled w.put w'.put
  delete : Option.Rel Item.Respelled w.delete w'.delete

/-- One request with its values in two spellings.  Names, operators, limits and statements are the
same on both sides. -/
inductive Request.Respelled : Request → Request → Prop
  | createTable (d : TableDeclaration) : Respelled (.createTable d) (.createTable d)
  | deleteTable (table : String) : Respelled (.deleteTable table) (.deleteTable table)
  | describeTable (table : String) : Respelled (.describeTable table) (.describeTable table)
  | listTables (r : ListTables) : Respelled (.listTables r) (.listTables r)
  | putItem (table : String) (returned : Option Returned) {item item' : Item}
      (hitem : Item.Respelled item item') :
      Respelled (.putItem ⟨table, item, returned⟩) (.putItem ⟨table, item', returned⟩)
  | getItem (table : String) (attributes : List String) {key key' : Item}
      (hkey : Item.Respelled key key') :
      Respelled (.getItem ⟨table, key, attributes⟩) (.getItem ⟨table, key', attributes⟩)
  | updateItem (table : String) (returned : Option Returned) {key key' : Item}
      {updates updates' : NameList AttributeUpdate} (hkey : Item.Respelled key key')
      (hupdates : Entrywise AttributeUpdate.Respelled updates.entries updates'.entries) :
      Respelled (.updateItem ⟨table, key, updates, returned⟩)
        (.updateItem ⟨table, key', updates', returned⟩)
  | deleteItem (table : String) (returned : Option Returned) {key key' : Item}
      (hkey : Item.Respelled key key') :
      Respelled (.deleteItem ⟨table, key, returned⟩) (.deleteItem ⟨table, key', returned⟩)
  | query (table : String) (index : Option String) (combinator : Option Combinator)
      (attributes : List String) {conditions conditions' filter filter' : NameList Condition}
      (hconditions : Entrywise Condition.Respelled conditions.entries conditions'.entries)
      (hfilter : Entrywise Condition.Respelled filter.entries filter'.entries) :
      Respelled (.query ⟨table, index, conditions, filter, combinator, attributes⟩)
        (.query ⟨table, index, conditions', filter', combinator, attributes⟩)
  | scan (table : String) (combinator : Option Combinator) (attributes : List String)
      {filter filter' : NameList Condition}
      (hfilter : Entrywise Condition.Respelled filter.entries filter'.entries) :
      Respelled (.scan ⟨table, filter, combinator, attributes⟩)
        (.scan ⟨table, filter', combinator, attributes⟩)
  | batchGetItem {batches batches' : NameList KeyBatch}
      (h : Entrywise KeyBatch.Respelled batches.entries batches'.entries) :
      Respelled (.batchGetItem batches) (.batchGetItem batches')
  | batchWriteItem {batches batches' : NameList (List BatchedWrite)}
      (h : Entrywise (List.Forall₂ BatchedWrite.Respelled) batches.entries batches'.entries) :
      Respelled (.batchWriteItem batches) (.batchWriteItem batches')
  | executeStatement (text : String) : Respelled (.executeStatement text) (.executeStatement text)

/-! ## Responses and stores that are alike -/

/-- Descriptions of tables that differ in stamp and size at most. -/
structure TableDescription.Alike (d d' : TableDescription) : Prop where
  declaration_eq : d.declaration = d'.declaration
  status_eq : d.status = d'.status
  address_eq : d.address = d'.address
  itemCount_eq : d.itemCount = d'.itemCount

/-- The same kind of response, with alike items in the same order and the same counts and names. -/
inductive Response.Alike : Response → Response → Prop
  | changedTable {d d' : TableDescription} (h : d.Alike d') :
      Alike (.changedTable d) (.changedTable d')
  | table {d d' : TableDescription} (h : d.Alike d') : Alike (.table d) (.table d')
  | tableNames (names : List String) (last : Option String) :
      Alike (.tableNames names last) (.tableNames names last)
  | attributes {a b : Option Item} (h : Option.Rel Item.Alike a b) :
      Alike (.attributes a) (.attributes b)
  | item {a b : Option Item} (h : Option.Rel Item.Alike a b) : Alike (.item a) (.item b)
  | found {items items' : List Item} (h : List.Forall₂ Item.Alike items items') (scanned : ℕ) :
      Alike (.found items scanned) (.found items' scanned)
  | batch {found found' : NameMap (List Item)}
      (h : Entrywise (List.Forall₂ Item.Alike) found.entries found'.entries) :
      Alike (.batch found) (.batch found')
  | written : Alike .written .written
  | selected {items items' : List Item} (h : List.Forall₂ Item.Alike items items') :
      Alike (.selected items) (.selected items')

structure Table.Alike (t t' : Table) : Prop where
  schema_eq : t.schema = t'.schema
  region_eq : t.region = t'.region
  rows : t.rows.Alike t'.rows

/-- Tables of the same names, each alike. -/
def Catalog.Alike (c c' : Catalog) : Prop :=
  Entrywise Table.Alike c.entries c'.entries

structure Store.Alike (s s' : Store) : Prop where
  settings_eq : s.settings = s'.settings
  catalog : Catalog.Alike s.catalog s'.catalog

/-! ## Checks of respelled inputs -/

lemma Item.Respelled.alike {a b : Item} (h : Item.Respelled a b) : Item.Alike a b :=
  h.imp fun _ _ hv => hv.alike

lemma Item.Respelled.values {a b : Item} (h : Item.Respelled a b) :
    List.Forall₂ Value.Respelled a.values b.values :=
  Entrywise.map_snd h

lemma Condition.Respelled.alike {c c' : Condition} (h : c.Respelled c') : c.Alike c' :=
  ⟨h.operator_eq, h.operands.imp fun _ _ hv => hv.alike⟩

namespace Answer

/-- Valid values pass the check of numbers on both sides. -/
lemma checkNumerals_eq {vs ws : List Value} (h : List.Forall₂ Value.Respelled vs ws) :
    checkNumerals vs = checkNumerals ws := by
  have hvalid : (∀ v ∈ vs, v.Valid) ∧ ∀ w ∈ ws, w.Valid := by
    induction h with
    | nil => exact ⟨List.forall_mem_nil _, List.forall_mem_nil _⟩
    | cons hv _ ih =>
        exact ⟨List.forall_mem_cons.mpr ⟨hv.valid, ih.1⟩,
          List.forall_mem_cons.mpr ⟨hv.valid', ih.2⟩⟩
  rw [checkNumerals_eq_ok.mpr hvalid.1, checkNumerals_eq_ok.mpr hvalid.2]

lemma checkKey_eq (keys : KeySchema) {key key' : Item} (h : Item.Respelled key key') :
    checkKey keys key = checkKey keys key' := by
  rw [checkKey, checkKey, h.alike.size_eq, h.alike.names_eq, checkNumerals_eq h.values]

lemma checkOperators_eq {cs cs' : List Condition} (h : List.Forall₂ Condition.Respelled cs cs') :
    checkOperators cs = checkOperators cs' := by
  have hfirst : firstUnsupported? cs = firstUnsupported? cs' := by
    induction h with
    | nil => rfl
    | cons hc _ ih =>
        rw [firstUnsupported?, firstUnsupported?] at ih ⊢
        rw [List.findSome?_cons, List.findSome?_cons, hc.operator_eq, ih]
  rw [checkOperators, checkOperators, hfirst]

lemma checkConditions_eq {cs cs' : List Condition} (h : List.Forall₂ Condition.Respelled cs cs') :
    checkConditions cs = checkConditions cs' := by
  have hoperands : List.Forall₂ Value.Respelled (cs.flatMap Condition.operands)
      (cs'.flatMap Condition.operands) := by
    induction h with
    | nil => exact .nil
    | cons hc _ ih => exact List.rel_append hc.operands ih
  rw [checkConditions, checkConditions, checkOperators_eq h, checkNumerals_eq hoperands]

end Answer

/-! ## Tables -/

namespace Catalog.Alike

variable {c c' : Catalog} {name : String}

lemma get? (h : Alike c c') (name : String) :
    Option.Rel Table.Alike (c.get? name) (c'.get? name) :=
  Entrywise.lookup h name

lemma require (h : Alike c c') (name : String) :
    SameOutcome Table.Alike (c.require name) (c'.require name) := by
  have hget := h.get? name
  rw [Catalog.require, Catalog.require]
  generalize c.get? name = t, c'.get? name = t' at hget
  cases hget with
  | none => exact .error _
  | some ht => exact .ok ht

lemma insert (h : Alike c c') (name : String) {t t' : Table} (ht : t.Alike t') :
    Alike (c.insert name t) (c'.insert name t') :=
  Entrywise.insertEntry h name ht

lemma erase (h : Alike c c') (name : String) : Alike (c.erase name) (c'.erase name) :=
  Entrywise.filter h fun other => other != name

lemma names_eq (h : Alike c c') : c.names = c'.names :=
  Entrywise.map_fst h

end Catalog.Alike

/-- Updates that agree ask for changes that agree. -/
lemma AttributeUpdate.Respelled.change {u u' : AttributeUpdate} (h : u.Respelled u')
    (keys : KeySchema) (name : String) :
    SameOutcome Change.Alike (u.change keys name) (u'.change keys name) := by
  obtain ⟨value, action⟩ := u
  obtain ⟨value', action'⟩ := u'
  obtain ⟨hvalue, rfl⟩ := h
  rw [AttributeUpdate.change, AttributeUpdate.change]
  split
  · exact .error _
  · dsimp only
    cases hvalue with
    | none => cases action.getD .put <;> first | exact .error _ | exact .ok .remove
    | some hv =>
        cases action.getD .put <;> dsimp only
        · rw [checkNumerals_eq (.cons hv .nil)]
          exact .bind_same _ fun _ => .ok (.set hv.alike)
        · exact .error _
        · exact .error _

lemma changesOf_alike (keys : KeySchema) {us us' : List (String × AttributeUpdate)}
    (h : Entrywise AttributeUpdate.Respelled us us') :
    SameOutcome (Entrywise Change.Alike) (changesOf keys us) (changesOf keys us') := by
  induction h with
  | nil => exact .ok .nil
  | @cons e e' _ _ he _ ih =>
      obtain ⟨name, u⟩ := e
      obtain ⟨name', u'⟩ := e'
      obtain ⟨rfl, hu⟩ := he
      exact (hu.change keys name).bind fun _ _ hc => ih.bind fun _ _ hcs =>
        .ok (.cons ⟨rfl, hc⟩ hcs)

namespace Table.Alike

variable {t t' : Table}

lemma address_eq (h : t.Alike t') : t.address = t'.address := by
  obtain ⟨schema, region, stamp, rows⟩ := t
  obtain ⟨schema', region', stamp', rows'⟩ := t'
  obtain ⟨rfl, rfl, _⟩ := h
  rfl

lemma describe (h : t.Alike t') (status : TableStatus) :
    (t.describe status).Alike (t'.describe status) :=
  ⟨congrArg TableSchema.declaration h.schema_eq, rfl, h.address_eq, h.rows.count_eq⟩

lemma withRows (h : t.Alike t') {rows rows' : Rows} (hrows : rows.Alike rows') :
    Alike { t with rows } { t' with rows := rows' } :=
  ⟨h.schema_eq, h.region_eq, hrows⟩

lemma store (h : t.Alike t') {item item' : Item} (hitem : Item.Respelled item item') :
    SameOutcome (Both (Option.Rel Item.Alike) Alike) ((Table.store item).attempt t)
      ((Table.store item').attempt t') := by
  rw [attempt_store, attempt_store, checkNumerals_eq hitem.values]
  refine .bind_same _ fun _ => ((h.rows.put hitem.alike).mapError _).bind fun x y hxy => ?_
  exact .ok ⟨hxy.1, h.withRows hxy.2⟩

lemma find (h : t.Alike t') {key key' : Item} (hkey : Item.Respelled key key')
    (attributes : List String) :
    SameOutcome (Option.Rel Item.Alike) (t.find key attributes) (t'.find key' attributes) := by
  rw [Table.find, Table.find, h.rows.keys_eq, checkKey_eq _ hkey]
  refine .bind_same _ fun _ => ((h.rows.primaryKey hkey.alike).mapError _).bind fun k k' hk => ?_
  have hget := h.rows.get? hk
  refine .ok ?_
  generalize t.rows.get? k = found, t'.rows.get? k' = found' at hget
  cases hget with
  | none => exact .none
  | some hitem => exact .some (hitem.project attributes)

lemma remove (h : t.Alike t') {key key' : Item} (hkey : Item.Respelled key key') :
    SameOutcome (Both (Option.Rel Item.Alike) Alike) ((Table.remove key).attempt t)
      ((Table.remove key').attempt t') := by
  rw [attempt_remove, attempt_remove, h.rows.keys_eq, checkKey_eq _ hkey]
  refine .bind_same _ fun _ => ((h.rows.primaryKey hkey.alike).mapError _).bind fun k k' hk => ?_
  have hdelete := h.rows.delete hk
  exact .ok ⟨hdelete.1, h.withRows hdelete.2⟩

lemma amend (h : t.Alike t') {key key' : Item} (hkey : Item.Respelled key key')
    {updates updates' : NameList AttributeUpdate}
    (hupdates : Entrywise AttributeUpdate.Respelled updates.entries updates'.entries) :
    SameOutcome (Both (Both (Option.Rel Item.Alike) Item.Alike) Alike)
      ((Table.amend key updates).attempt t) ((Table.amend key' updates').attempt t') := by
  rw [attempt_amend, attempt_amend, h.rows.keys_eq, checkKey_eq _ hkey]
  refine .bind_same _ fun _ => (changesOf_alike _ hupdates).bind fun cs cs' hcs => ?_
  refine ((h.rows.update hkey.alike hcs).mapError _).bind fun x y hxy => ?_
  exact .ok ⟨hxy.1, h.withRows hxy.2⟩

lemma findAll (h : t.Alike t') (attributes : List String) {keys keys' : List Item}
    (hkeys : List.Forall₂ Item.Respelled keys keys') :
    SameOutcome (List.Forall₂ Item.Alike) (t.findAll attributes keys)
      (t'.findAll attributes keys') := by
  induction hkeys with
  | nil => exact .ok .nil
  | cons hkey _ ih =>
      refine (h.find hkey attributes).bind fun found found' hfound => ih.bind fun _ _ hitems => ?_
      cases hfound with
      | none => exact .ok hitems
      | some hitem => exact .ok (.cons hitem hitems)

lemma write (h : t.Alike t') {w w' : BatchedWrite} (hw : w.Respelled w') :
    SameOutcome (Both (· = ·) Alike) ((Table.write w).attempt t)
      ((Table.write w').attempt t') := by
  rw [attempt_write, attempt_write]
  obtain ⟨put, delete⟩ := w
  obtain ⟨put', delete'⟩ := w'
  obtain ⟨hput, hdelete⟩ := hw
  cases hput with
  | none =>
      cases hdelete with
      | none => exact .error _
      | some hkey => exact (h.remove hkey).bind fun _ _ hxy => .ok ⟨rfl, hxy.2⟩
  | some hitem =>
      cases hdelete with
      | none => exact (h.store hitem).bind fun _ _ hxy => .ok ⟨rfl, hxy.2⟩
      | some _ => exact .error _

/-- The writes of a batch stop at the same one. -/
lemma writeAll (h : t.Alike t') {ws ws' : List BatchedWrite}
    (hws : List.Forall₂ BatchedWrite.Respelled ws ws') :
    Both (· = ·) Alike ((Table.writeAll ws).on t) ((Table.writeAll ws').on t') := by
  induction hws generalizing t t' with
  | nil => exact ⟨rfl, h⟩
  | @cons w w' _ _ hw _ ih =>
      have hwrite := h.write hw
      rw [on_writeAll_cons, on_writeAll_cons]
      generalize (Table.write w).attempt t = written, (Table.write w').attempt t' = written'
        at hwrite
      cases hwrite with
      | error _ => exact ⟨rfl, h⟩
      | ok hnext => exact ih hnext.2

end Table.Alike

namespace Catalog.Alike

variable {c c' : Catalog}

lemma findAll (h : Alike c c') {batches batches' : List (String × KeyBatch)}
    (hbatches : Entrywise KeyBatch.Respelled batches batches') :
    SameOutcome (Entrywise (List.Forall₂ Item.Alike)) (c.findAll batches)
      (c'.findAll batches') := by
  induction hbatches with
  | nil => exact .ok .nil
  | @cons e e' _ _ he _ ih =>
      obtain ⟨name, keys, attributes⟩ := e
      obtain ⟨name', keys', attributes'⟩ := e'
      obtain ⟨rfl, hkeys, rfl⟩ := he
      refine (h.require name).bind fun t t' ht => .bind_same _ fun _ => ?_
      refine (ht.findAll attributes hkeys).bind fun _ _ hitems => ih.bind fun _ _ hothers => ?_
      exact .ok (.cons ⟨rfl, hitems⟩ hothers)

/-- The writes of all tables stop at the same one. -/
lemma writeAll (h : Alike c c') {batches batches' : List (String × List BatchedWrite)}
    (hbatches : Entrywise (List.Forall₂ BatchedWrite.Respelled) batches batches') :
    Both (· = ·) Alike ((Catalog.writeAll batches).on c) ((Catalog.writeAll batches').on c') := by
  induction hbatches generalizing c c' with
  | nil => exact ⟨rfl, h⟩
  | @cons e e' _ _ he _ ih =>
      obtain ⟨name, ws⟩ := e
      obtain ⟨name', ws'⟩ := e'
      obtain ⟨rfl, hws⟩ := he
      have hrequire := h.require name
      rw [on_writeAll_cons, on_writeAll_cons]
      generalize c.require name = required, c'.require name = required' at hrequire
      cases hrequire with
      | error _ => exact ⟨rfl, h⟩
      | ok ht =>
          obtain ⟨result, _, _, hx, hx', hnext⟩ := (ht.writeAll hws).exists_of_eq
          simp only [hx, hx']
          cases result with
          | ok _ => exact ih (h.insert name hnext)
          | error e => exact ⟨rfl, h.insert name hnext⟩

end Catalog.Alike

/-! ## Operations -/

namespace KeySchema

variable {cs cs' : NameList Condition}

lemma hashValue_alike (keys : KeySchema)
    (h : Entrywise Condition.Respelled cs.entries cs'.entries) :
    SameOutcome Value.Alike (keys.hashValue cs) (keys.hashValue cs') := by
  have hget : Option.Rel Condition.Respelled (cs.get? keys.hash.name) (cs'.get? keys.hash.name) :=
    Entrywise.lookup h _
  rw [hashValue, hashValue]
  match cs.get? keys.hash.name, cs'.get? keys.hash.name, hget with
  | _, _, .none => exact .error _
  | some ⟨operator, operands⟩, some ⟨operator', operands'⟩, .some hc =>
      obtain ⟨rfl, hoperands⟩ := hc
      cases hoperands with
      | nil => cases operator <;> exact .error _
      | cons hv hmore =>
          cases hmore with
          | nil => cases operator <;> first | exact .ok hv.alike | exact .error _
          | cons _ _ => cases operator <;> exact .error _

lemma checkRange_eq (keys : KeySchema) (name : String) {c c' : Condition}
    (h : c.Respelled c') : keys.checkRange name c = keys.checkRange name c' := by
  rw [checkRange, checkRange, h.operator_eq, h.operands.length_eq]

lemma rangeCondition_alike (keys : KeySchema) {es es' : List (String × Condition)}
    (h : Entrywise Condition.Respelled es es') :
    SameOutcome (Option.Rel fun e e' => e.1 = e'.1 ∧ e.2.Alike e'.2) (keys.rangeCondition es)
      (keys.rangeCondition es') := by
  induction h with
  | nil => exact .ok .none
  | @cons e e' _ _ he _ ih =>
      obtain ⟨name, c⟩ := e
      obtain ⟨name', c'⟩ := e'
      obtain ⟨rfl, hc⟩ := he
      rw [rangeCondition, rangeCondition]
      split
      · exact ih
      · rw [keys.checkRange_eq _ hc]
        refine .bind_same _ fun _ => ih.bind fun later later' hlater => .ok ?_
        cases hlater with
        | none => exact .some ⟨rfl, hc.alike⟩
        | some hlater => exact .some hlater

lemma keyQuery_alike (keys : KeySchema)
    (h : Entrywise Condition.Respelled cs.entries cs'.entries) :
    SameOutcome KeyQuery.Alike (keys.keyQuery cs) (keys.keyQuery cs') :=
  (keys.hashValue_alike h).bind fun _ _ hvalue => (keys.rangeCondition_alike h).bind
    fun _ _ hrange => .ok ⟨rfl, hvalue, hrange⟩

end KeySchema

namespace Answer

variable {c c' : Catalog}

lemma project_rel {items items' : List Item} (h : List.Forall₂ Item.Alike items items')
    (attributes : List String) :
    List.Forall₂ Item.Alike (items.map fun item => item.project attributes)
      (items'.map fun item => item.project attributes) := by
  rw [List.forall₂_map_left_iff, List.forall₂_map_right_iff]
  exact h.imp fun _ _ hitem => hitem.project attributes

lemma oldAttributes_alike (returned : Option Returned) {old old' : Option Item}
    (h : Option.Rel Item.Alike old old') :
    (oldAttributes returned old).Alike (oldAttributes returned old') := by
  rw [oldAttributes, oldAttributes]
  split
  · exact .attributes h
  · exact .attributes .none

lemma givenBack_alike (returned : Returned) (names : List String) {old old' : Option Item}
    {new new' : Item} (hold : Option.Rel Item.Alike old old') (hnew : Item.Alike new new') :
    Option.Rel Item.Alike (givenBack returned names old new)
      (givenBack returned names old' new') := by
  have hfilter : ∀ {a b : Option Item}, Option.Rel Item.Alike a b →
      Option.Rel Item.Alike (a.filter fun item => !item.isEmpty)
        (b.filter fun item => !item.isEmpty) := by
    rintro _ _ (h | _)
    · rw [Option.filter_some, Option.filter_some, h.isEmpty_eq]
      split
      · exact .some h
      · exact .none
    · exact .none
  refine hfilter ?_
  cases returned with
  | nothing => exact .none
  | allOld => exact hold
  | allNew => exact .some hnew
  | updatedOld =>
      cases hold with
      | none => exact .none
      | some hold => exact .some (hold.restrict _)
  | updatedNew => exact .some (hnew.restrict _)

lemma createTable_alike (h : Catalog.Alike c c') (settings : Settings) (stamp stamp' : Stamp)
    (d : TableDeclaration) :
    SameOutcome (Both Response.Alike Catalog.Alike) ((createTable settings stamp d).attempt c)
      ((createTable settings stamp' d).attempt c') := by
  rw [attempt_createTable, attempt_createTable]
  refine .bind_same _ fun _ => .bind_same _ fun schema => ?_
  have hnew : (Table.new settings stamp schema).Alike (Table.new settings stamp' schema) :=
    ⟨rfl, rfl, ⟨rfl, rfl, .nil⟩⟩
  exact .ok ⟨.changedTable (hnew.describe .active), h.insert _ hnew⟩

lemma deleteTable_alike (h : Catalog.Alike c c') (name : String) :
    SameOutcome (Both Response.Alike Catalog.Alike) ((deleteTable name).attempt c)
      ((deleteTable name).attempt c') := by
  rw [attempt_deleteTable, attempt_deleteTable]
  exact (h.require name).bind fun _ _ ht =>
    .ok ⟨.changedTable (ht.describe .deleting), h.erase name⟩

lemma describeTable_alike (h : Catalog.Alike c c') (name : String) :
    SameOutcome Response.Alike (describeTable name c) (describeTable name c') :=
  (h.require name).bind fun _ _ ht => .ok (.table (ht.describe .active))

lemma listTables_alike (h : Catalog.Alike c c') (r : ListTables) :
    SameOutcome Response.Alike (listTables r c) (listTables r c') := by
  rw [listTables, listTables, h.names_eq]
  exact .bind_same _ fun _ => .ok (.tableNames _ _)

lemma putItem_alike (h : Catalog.Alike c c') (table : String) (returned : Option Returned)
    {item item' : Item} (hitem : Item.Respelled item item') :
    SameOutcome (Both Response.Alike Catalog.Alike) ((putItem ⟨table, item, returned⟩).attempt c)
      ((putItem ⟨table, item', returned⟩).attempt c') := by
  rw [attempt_putItem, attempt_putItem]
  exact (h.require table).bind fun _ _ ht => .bind_same _ fun _ => (ht.store hitem).bind
    fun _ _ hxy => .ok ⟨oldAttributes_alike returned hxy.1, h.insert table hxy.2⟩

lemma getItem_alike (h : Catalog.Alike c c') (table : String) (attributes : List String)
    {key key' : Item} (hkey : Item.Respelled key key') :
    SameOutcome Response.Alike (getItem ⟨table, key, attributes⟩ c)
      (getItem ⟨table, key', attributes⟩ c') :=
  (h.require table).bind fun _ _ ht => .bind_same _ fun _ => (ht.find hkey attributes).bind
    fun _ _ hfound => .ok (.item hfound)

lemma deleteItem_alike (h : Catalog.Alike c c') (table : String) (returned : Option Returned)
    {key key' : Item} (hkey : Item.Respelled key key') :
    SameOutcome (Both Response.Alike Catalog.Alike) ((deleteItem ⟨table, key, returned⟩).attempt c)
      ((deleteItem ⟨table, key', returned⟩).attempt c') := by
  rw [attempt_deleteItem, attempt_deleteItem]
  exact (h.require table).bind fun _ _ ht => .bind_same _ fun _ => (ht.remove hkey).bind
    fun _ _ hxy => .ok ⟨oldAttributes_alike returned hxy.1, h.insert table hxy.2⟩

lemma updateItem_alike (h : Catalog.Alike c c') (table : String) (returned : Option Returned)
    {key key' : Item} (hkey : Item.Respelled key key') {updates updates' : NameList AttributeUpdate}
    (hupdates : Entrywise AttributeUpdate.Respelled updates.entries updates'.entries) :
    SameOutcome (Both Response.Alike Catalog.Alike)
      ((updateItem ⟨table, key, updates, returned⟩).attempt c)
      ((updateItem ⟨table, key', updates', returned⟩).attempt c') := by
  rw [attempt_updateItem, attempt_updateItem]
  refine (h.require table).bind fun t t' ht => (ht.amend hkey hupdates).bind fun x y hxy => ?_
  have hnames : updates.names = updates'.names := hupdates.map_fst
  refine .ok ⟨.attributes ?_, h.insert table hxy.2⟩
  dsimp only
  rw [hnames]
  exact givenBack_alike _ _ hxy.1.1 hxy.1.2

lemma batchGetItem_alike (h : Catalog.Alike c c') {batches batches' : NameList KeyBatch}
    (hbatches : Entrywise KeyBatch.Respelled batches.entries batches'.entries) :
    SameOutcome Response.Alike (batchGetItem batches c) (batchGetItem batches' c') :=
  (h.findAll hbatches).bind fun _ _ hfound => .ok (.batch hfound.arrange)

lemma batchWriteItem_alike (h : Catalog.Alike c c')
    {batches batches' : NameList (List BatchedWrite)}
    (hbatches : Entrywise (List.Forall₂ BatchedWrite.Respelled) batches.entries
      batches'.entries) :
    Both (SameOutcome Response.Alike) Catalog.Alike ((batchWriteItem batches).on c)
      ((batchWriteItem batches').on c') := by
  rw [on_batchWriteItem, on_batchWriteItem]
  obtain ⟨result, _, _, hx, hx', hnext⟩ := (h.writeAll hbatches).exists_of_eq
  rw [hx, hx']
  cases result with
  | ok _ => exact ⟨.ok .written, hnext⟩
  | error e => exact ⟨.error e, hnext⟩

lemma filterTest_eq_of_alike (combinator : Option Combinator) {filter filter' : NameList Condition}
    (h : Entrywise Condition.Respelled filter.entries filter'.entries) (a b : Item)
    (hab : Item.Alike a b) : filterTest combinator filter a = filterTest combinator filter' b :=
  (combinator.getD .all).evaluate_eq_of_alike hab (h.imp fun _ _ hc => hc.alike)

lemma query_alike (h : Catalog.Alike c c') (table : String) (index : Option String)
    (combinator : Option Combinator) (attributes : List String)
    {conditions conditions' filter filter' : NameList Condition}
    (hconditions : Entrywise Condition.Respelled conditions.entries conditions'.entries)
    (hfilter : Entrywise Condition.Respelled filter.entries filter'.entries) :
    SameOutcome Response.Alike
      (query ⟨table, index, conditions, filter, combinator, attributes⟩ c)
      (query ⟨table, index, conditions', filter', combinator, attributes⟩ c') := by
  have hall : List.Forall₂ Condition.Respelled (conditions.values ++ filter.values)
      (conditions'.values ++ filter'.values) := List.rel_append hconditions.map_snd hfilter.map_snd
  rw [query, query]
  refine (h.require table).bind fun t t' ht => .bind_same _ fun _ => ?_
  have hkeys : t.keysFor index = t'.keysFor index := by
    rw [Table.keysFor.eq_def, Table.keysFor.eq_def, ht.schema_eq]
  rw [hkeys, checkConditions_eq hall]
  refine .bind_same _ fun keys => .bind_same _ fun _ => ?_
  refine (keys.keyQuery_alike hconditions).bind fun q q' hq => ?_
  have hcandidates := selectRows_alike (fun _ _ hab => hq.test_eq hab) ht.rows.items
  refine (hcandidates.mapError _).bind fun rows rows' hrows => ?_
  have hselected := selectRows_alike (filterTest_eq_of_alike combinator hfilter) hrows
  refine (hselected.mapError _).bind fun items items' hitems => .ok ?_
  rw [hrows.length_eq]
  exact .found (project_rel hitems attributes) _

lemma scan_alike (h : Catalog.Alike c c') (table : String) (combinator : Option Combinator)
    (attributes : List String) {filter filter' : NameList Condition}
    (hfilter : Entrywise Condition.Respelled filter.entries filter'.entries) :
    SameOutcome Response.Alike (scan ⟨table, filter, combinator, attributes⟩ c)
      (scan ⟨table, filter', combinator, attributes⟩ c') := by
  have hvalues : List.Forall₂ Condition.Respelled filter.values filter'.values := hfilter.map_snd
  rw [scan, scan, checkConditions_eq hvalues]
  refine (h.require table).bind fun t t' ht => .bind_same _ fun _ => .bind_same _ fun _ => ?_
  have hselected := selectRows_alike (filterTest_eq_of_alike combinator hfilter) ht.rows.items
  refine (hselected.mapError _).bind fun items items' hitems => .ok ?_
  rw [ht.rows.count_eq]
  exact .found (project_rel hitems attributes) _

/-- A statement has its operands in one spelling, which is a valid one. -/
lemma executeStatement_alike (h : Catalog.Alike c c') (text : String) :
    SameOutcome Response.Alike (executeStatement text c) (executeStatement text c') := by
  rw [executeStatement, executeStatement]
  cases hread : Select.read text with
  | error e => exact .error _
  | ok s =>
      have hself : Entrywise Condition.Alike s.conditions s.conditions :=
        List.forall₂_same.mpr fun e he => ⟨rfl, (Select.checked_of_read hread e he).alike_self⟩
      have hselect : SameOutcome (List.Forall₂ Item.Alike) (select s c) (select s c') := by
        refine (h.require s.table).bind fun t t' ht => .bind_same _ fun _ => ?_
        have htest : ∀ a b, Item.Alike a b →
            s.combinator.evaluate s.conditions a = s.combinator.evaluate s.conditions b :=
          fun _ _ hab => s.combinator.evaluate_eq_of_alike hab hself
        exact ((selectRows_alike htest ht.rows.items).mapError _).bind fun _ _ hitems =>
          .ok (project_rel hitems _)
      exact hselect.bind fun _ _ hitems => .ok (.selected hitems)

end Answer

/-! ## Runs -/

namespace Store

variable {s s' : Store}

lemma Alike.reading (h : s.Alike s') {answer answer' : Catalog → Except Fault Response}
    (hanswer : SameOutcome Response.Alike (answer s.catalog) (answer' s'.catalog)) :
    Both (SameOutcome Response.Alike) Alike (s.reading answer) (s'.reading answer') :=
  ⟨hanswer, h⟩

lemma Alike.writing (h : s.Alike s') {answer answer' : Work Fault Catalog Response}
    (hatomic : answer.Atomic) (hatomic' : answer'.Atomic)
    (hanswer : SameOutcome (Both Response.Alike Catalog.Alike) (answer.attempt s.catalog)
      (answer'.attempt s'.catalog)) :
    Both (SameOutcome Response.Alike) Alike (s.writing answer) (s'.writing answer') := by
  rw [writing_eq hatomic, writing_eq hatomic']
  generalize answer.attempt s.catalog = answered, answer'.attempt s'.catalog = answered' at hanswer
  cases hanswer with
  | error e => exact ⟨.error e, h⟩
  | ok hxy => exact ⟨.ok hxy.1, h.settings_eq, hxy.2⟩

/-- **One request in two spellings** is answered alike by stores that are alike, and leaves them
alike. -/
theorem answer_alike (h : s.Alike s') (stamp stamp' : Stamp) {r r' : Request}
    (hr : r.Respelled r') :
    Both (SameOutcome Response.Alike) Alike (s.answer stamp r) (s'.answer stamp' r') := by
  cases hr with
  | createTable d =>
      have hcreate := createTable_alike h.catalog s.settings stamp stamp' d
      have hsettings : s'.settings = s.settings := h.settings_eq.symm
      change Both _ Alike (s.writing _) (s'.writing (createTable s'.settings stamp' d))
      rw [hsettings]
      exact h.writing (createTable_atomic _ _ _) (createTable_atomic _ _ _) hcreate
  | deleteTable table =>
      have hdelete := deleteTable_alike h.catalog table
      exact (h.writing (deleteTable_atomic _) (deleteTable_atomic _) hdelete :)
  | describeTable table => exact h.reading (describeTable_alike h.catalog table)
  | listTables r => exact h.reading (listTables_alike h.catalog r)
  | putItem table returned hitem =>
      have hput := putItem_alike h.catalog table returned hitem
      exact (h.writing (putItem_atomic _) (putItem_atomic _) hput :)
  | getItem table attributes hkey =>
      exact h.reading (getItem_alike h.catalog table attributes hkey)
  | updateItem table returned hkey hupdates =>
      have hupdate := updateItem_alike h.catalog table returned hkey hupdates
      exact (h.writing (updateItem_atomic _) (updateItem_atomic _) hupdate :)
  | deleteItem table returned hkey =>
      have hdelete := deleteItem_alike h.catalog table returned hkey
      exact (h.writing (deleteItem_atomic _) (deleteItem_atomic _) hdelete :)
  | query table index combinator attributes hconditions hfilter =>
      exact h.reading (query_alike h.catalog table index combinator attributes hconditions hfilter)
  | scan table combinator attributes hfilter =>
      exact h.reading (scan_alike h.catalog table combinator attributes hfilter)
  | batchGetItem hbatches => exact h.reading (batchGetItem_alike h.catalog hbatches)
  | batchWriteItem hbatches =>
      have hbatch := batchWriteItem_alike h.catalog hbatches
      exact ⟨hbatch.1, h.settings_eq, hbatch.2⟩
  | executeStatement text => exact h.reading (executeStatement_alike h.catalog text)

/-- Runs of requests in two spellings keep stores alike. -/
lemma Alike.run (h : s.Alike s') {steps steps' : List (Stamp × Request)}
    (hsteps : List.Forall₂ (fun x y => x.2.Respelled y.2) steps steps') :
    List.Forall₂ (SameOutcome Response.Alike) (s.run steps).1 (s'.run steps').1 := by
  induction hsteps generalizing s s' with
  | nil => exact .nil
  | @cons x y _ _ hstep _ ih =>
      have hanswer := answer_alike h x.1 y.1 hstep
      exact .cons hanswer.1 (ih hanswer.2)

/-- **The spelling of numbers makes no difference.**  Take two runs of new stores with the same
settings, with any stamps, whose requests are the same but for the spelling of valid values.  Then
step by step both fail for the same reason, or both answer: with the same counts and names, and with
as many items in the same order, of the same attributes with values that agree. -/
theorem run_alike (settings : Settings) {steps steps' : List (Stamp × Request)}
    (hsteps : List.Forall₂ (fun x y => x.2.Respelled y.2) steps steps') :
    List.Forall₂ (SameOutcome Response.Alike) ((new settings).run steps).1
      ((new settings).run steps').1 := by
  have hnew : (new settings).Alike (new settings) := ⟨rfl, .nil⟩
  exact hnew.run hsteps

end Store

/-! ### A run in two spellings -/

namespace Sample

/-- A run that puts two readings, one in place of the other if their keys are equal, looks one up
and lists some. -/
def spelled (first second sought : String) : List (Stamp × Request) :=
  [ (stamp, .createTable declaration),
    (stamp, .putItem ⟨"Readings", reading first "first", none⟩),
    (stamp, .putItem ⟨"Readings", reading second "second", some .allOld⟩),
    (stamp, .getItem ⟨"Readings", key sought, []⟩),
    (stamp, .scan ⟨"Readings", .ofList [("id", ⟨.le, [.number sought]⟩)], none, []⟩),
    (stamp, .executeStatement "SELECT note FROM Readings WHERE id > 4.5") ]

variable {n m : String}

lemma number_respelled (hn : isNumeral n = true) (hm : isNumeral m = true)
    (h : (Value.number n).Alike (.number m)) : (Value.number n).Respelled (.number m) :=
  ⟨Value.valid_number.mpr hn, Value.valid_number.mpr hm, h⟩

lemma text_respelled (s : String) : (Value.text s).Respelled (.text s) := by
  have hvalid : (Value.text s).Valid := by simp [Value.Valid, Value.numerals]
  exact ⟨hvalid, hvalid, Value.agrees_self hvalid⟩

lemma reading_respelled (h : (Value.number n).Respelled (.number m)) (note : String) :
    Item.Respelled (reading n note) (reading m note) :=
  Entrywise.arrange (.cons ⟨rfl, h⟩ (.cons ⟨rfl, text_respelled note⟩ .nil))

lemma key_respelled (h : (Value.number n).Respelled (.number m)) :
    Item.Respelled (key n) (key m) :=
  Entrywise.arrange (.cons ⟨rfl, h⟩ .nil)

end Sample

/-- The second put takes the place of the first, whichever way the keys are spelled. -/
theorem Store.run_alike_sample :
    List.Forall₂ (SameOutcome Response.Alike) ((new {}).run (Sample.spelled "5" "5.0" "5e0")).1
        ((new {}).run (Sample.spelled "+5" "50E-1" "5")).1 ∧
      ((new {}).run (Sample.spelled "5" "5.0" "5e0")).1[4]?
        = some (.ok (.found [Sample.reading "5.0" "second"] 1)) := by
  have hfirst := Sample.number_respelled (n := "5") (m := "+5") (by decide) (by decide)
    (by unfold Value.Alike; decide +kernel)
  have hsecond := Sample.number_respelled (n := "5.0") (m := "50E-1") (by decide) (by decide)
    (by unfold Value.Alike; decide +kernel)
  have hsought := Sample.number_respelled (n := "5e0") (m := "5") (by decide) (by decide)
    (by unfold Value.Alike; decide +kernel)
  refine ⟨run_alike {} ?_, by decide +kernel⟩
  exact .cons (.createTable _) <| .cons (.putItem _ _ (Sample.reading_respelled hfirst _)) <|
    .cons (.putItem _ _ (Sample.reading_respelled hsecond _)) <|
    .cons (.getItem _ _ (Sample.key_respelled hsought)) <|
    .cons (.scan _ _ _ (.cons ⟨rfl, rfl, .cons hsought .nil⟩ .nil)) <|
    .cons (.executeStatement _) .nil

end ItemStore
