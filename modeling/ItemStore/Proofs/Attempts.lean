import ItemStore.Proofs.Rows
import ItemStore.Answer.Batch
import ItemStore.Answer.Tables

/-!
# Checks come before changes

The requests that change a catalog do it by steps on its tables and on their rows, and most of these
steps can fail: a table may be missing, a number may be none, a key may not fit, an update may not
be allowed.  Nothing rolls back what was done by then.  Each of these requests still leaves no trace
where it fails, because the last step that can fail comes before the first one that changes
anything.  This is proved here request by request, from the rows up.

* `Table.attempt_store`, …, `Answer.attempt_updateItem` — what each of them does, fault for fault,
  as a sequence of checks that ends in one change.
* **`Table.store_atomic`**, `Table.remove_atomic`, `Table.amend_atomic` — writes to a table that
  fail leave the table alone.
* **`Answer.createTable_atomic`**, …, **`Answer.deleteItem_atomic`** — and so for the requests.
* `Table.on_writeAll_cons`, `Catalog.on_writeAll_cons` — batches of writes are not of this kind:
  each goes on from what the writes before it have left.
-/

namespace ItemStore

open Answer Work

/-! ## Writes to a table -/

namespace Table

variable {α : Type}

lemma on_onRows (x : Work KeyFault Rows α) (t : Table) :
    (onRows x).on t = (liftKey (x.on t.rows).1, { t with rows := (x.on t.rows).2 }) := rfl

lemma attempt_onRows (x : Work KeyFault Rows α) (t : Table) : (onRows x).attempt t = do
    let (a, rows) ← liftKey (x.attempt t.rows)
    return (a, { t with rows }) := by
  rw [attempt, on_onRows, attempt]
  rcases x.on t.rows with ⟨e | a, rows⟩ <;> rfl

/-- Rows that are as they were make the table that it was. -/
lemma onRows_atomic {x : Work KeyFault Rows α} (h : x.Atomic) : (onRows x).Atomic := by
  intro t e he
  rw [on_onRows] at he ⊢
  cases hx : (x.on t.rows).1 with
  | error fault => rw [h t.rows fault hx]
  | ok a =>
      rw [hx] at he
      cases he

lemma attempt_store (item : Item) (t : Table) : (store item).attempt t = do
    checkNumerals item.values
    let (old, rows) ← liftKey ((Rows.put item).attempt t.rows)
    return (old, { t with rows }) := by
  simp only [store, attempt_lift_bind, attempt_onRows]

lemma attempt_remove (key : Item) (t : Table) : (remove key).attempt t = do
    checkKey t.rows.keys key
    let primary ← liftKey (t.rows.primaryKey key)
    return ((t.rows.delete primary).1, { t with rows := (t.rows.delete primary).2 }) := by
  simp only [remove, attempt_get_bind, attempt_lift_bind, attempt_set_bind, attempt_pure]

lemma attempt_amend (key : Item) (updates : NameList AttributeUpdate) (t : Table) :
    (amend key updates).attempt t = do
      checkKey t.rows.keys key
      let changes ← changesOf t.rows.keys updates.entries
      let (items, rows) ← liftKey ((Rows.update key changes).attempt t.rows)
      return (items, { t with rows }) := by
  simp only [amend, attempt_get_bind, attempt_lift_bind, attempt_onRows]

/-- **Storing an item fails before it changes the table.** -/
theorem store_atomic (item : Item) : (store item).Atomic :=
  (reads_lift _).bind_atomic fun _ => onRows_atomic (Rows.put_atomic item)

theorem remove_atomic (key : Item) : (remove key).Atomic := by
  refine reads_get.bind_atomic fun t => ?_
  refine (reads_lift _).bind_atomic fun _ => (reads_lift _).bind_atomic fun primary => ?_
  exact ((sure_set _).bind fun _ => sure_pure _).atomic

/-- **All updates of an item are checked before any of them is made.** -/
theorem amend_atomic (key : Item) (updates : NameList AttributeUpdate) :
    (amend key updates).Atomic := by
  refine reads_get.bind_atomic fun t => ?_
  refine (reads_lift _).bind_atomic fun _ => (reads_lift _).bind_atomic fun changes => ?_
  exact onRows_atomic (Rows.update_atomic key changes)

end Table

/-! ## Work on one table of a catalog -/

namespace Catalog

variable {α : Type}

lemma on_onTable (name : String) (x : Work Fault Table α) (c : Catalog) :
    (onTable name x).on c = match c.require name with
      | .ok t => ((x.on t).1, c.insert name (x.on t).2)
      | .error e => (.error e, c) := by
  change (((liftM (c.require name) : Work Fault Catalog Table) >>= _).on c) = _
  rw [on_bind, on_lift]
  cases c.require name <;> rfl

lemma attempt_onTable (name : String) (x : Work Fault Table α) (c : Catalog) :
    (onTable name x).attempt c = do
      let t ← c.require name
      let (a, t) ← x.attempt t
      return (a, c.insert name t) := by
  rw [attempt, on_onTable]
  cases c.require name with
  | error e => rfl
  | ok t =>
      change _ = (x.attempt t >>= fun r => pure (r.1, c.insert name r.2))
      rw [attempt]
      rcases hx : x.on t with ⟨e | a, t'⟩ <;> simp only [hx] <;> rfl

/-- Where a table is put back as it was, the catalog is the one that it was. -/
lemma onTable_atomic {x : Work Fault Table α} (h : x.Atomic) (name : String) :
    (onTable name x).Atomic := by
  intro c e
  rw [on_onTable, require]
  cases hget : c.get? name with
  | none => exact fun _ => rfl
  | some t =>
      intro he
      change c.insert name (x.on t).2 = c
      rw [h t e he, NameMap.insert_eq_self hget]

end Catalog

/-! ## Requests -/

namespace Answer

variable (c : Catalog)

lemma attempt_createTable (settings : Settings) (stamp : Stamp) (d : TableDeclaration) :
    (createTable settings stamp d).attempt c = do
      checkTableName d.name
      let schema ← (TableSchema.ofDeclaration d).mapError Fault.schemaFault
      let t := Table.new settings stamp schema
      return (.changedTable (t.describe .active), c.insert t.name t) := by
  simp only [createTable, attempt_lift_bind, attempt_modify_bind, attempt_pure]

lemma attempt_deleteTable (name : String) : (deleteTable name).attempt c = do
    let t ← c.require name
    return (.changedTable (t.describe .deleting), c.erase name) := by
  simp only [deleteTable, attempt_get_bind, attempt_lift_bind, attempt_modify_bind, attempt_pure]

lemma attempt_putItem (r : PutItem) : (putItem r).attempt c = do
    let t ← c.require r.table
    checkReturned r.returned
    let (old, t) ← (Table.store r.item).attempt t
    return (oldAttributes r.returned old, c.insert r.table t) := by
  simp only [putItem, Catalog.attempt_onTable, attempt_lift, attempt_bind, attempt_pure, bind_assoc,
    pure_bind]

lemma attempt_deleteItem (r : DeleteItem) : (deleteItem r).attempt c = do
    let t ← c.require r.table
    checkReturned r.returned
    let (old, t) ← (Table.remove r.key).attempt t
    return (oldAttributes r.returned old, c.insert r.table t) := by
  simp only [deleteItem, Catalog.attempt_onTable, attempt_lift, attempt_bind, attempt_pure,
    bind_assoc, pure_bind]

lemma attempt_updateItem (r : UpdateItem) : (updateItem r).attempt c = do
    let t ← c.require r.table
    let ((old, new), t) ← (Table.amend r.key r.updates).attempt t
    let given := givenBack (r.returned.getD .nothing) r.updates.names old new
    return (.attributes given, c.insert r.table t) := by
  simp only [updateItem, Catalog.attempt_onTable, attempt_bind, attempt_pure, bind_assoc, pure_bind]

/-- **A table is created when its declaration has passed all checks.** -/
theorem createTable_atomic (settings : Settings) (stamp : Stamp) (d : TableDeclaration) :
    (createTable settings stamp d).Atomic := by
  refine (reads_lift _).bind_atomic fun _ => (reads_lift _).bind_atomic fun schema => ?_
  exact ((sure_modify _).bind fun _ => sure_pure _).atomic

theorem deleteTable_atomic (name : String) : (deleteTable name).Atomic := by
  refine reads_get.bind_atomic fun _ => (reads_lift _).bind_atomic fun t => ?_
  exact ((sure_modify _).bind fun _ => sure_pure _).atomic

/-- **An item that is refused leaves no trace**: neither the old item under its key is gone nor is
anything put in its place. -/
theorem putItem_atomic (r : PutItem) : (putItem r).Atomic := by
  refine Catalog.onTable_atomic ((reads_lift _).bind_atomic fun _ => ?_) r.table
  exact (Table.store_atomic r.item).bind_sure fun _ => sure_pure _

theorem deleteItem_atomic (r : DeleteItem) : (deleteItem r).Atomic := by
  refine Catalog.onTable_atomic ((reads_lift _).bind_atomic fun _ => ?_) r.table
  exact (Table.remove_atomic r.key).bind_sure fun _ => sure_pure _

/-- **An update of an item that is refused leaves no trace**, wherever in the list of updates the
refused one stands. -/
theorem updateItem_atomic (r : UpdateItem) : (updateItem r).Atomic :=
  Catalog.onTable_atomic ((Table.amend_atomic r.key r.updates).bind_sure fun _ => sure_pure _)
    r.table

end Answer

/-! ## Batches of writes -/

namespace Table

lemma attempt_write (w : BatchedWrite) (t : Table) :
    (write w).attempt t = match w.put, w.delete with
      | some item, none => (store item).attempt t >>= fun r => pure ((), r.2)
      | none, some key => (remove key).attempt t >>= fun r => pure ((), r.2)
      | _, _ => refuse .unclearWrite := by
  obtain ⟨put, delete⟩ := w
  cases put <;> cases delete <;> first | rfl | exact attempt_bind _ _ _

theorem write_atomic (w : BatchedWrite) : (write w).Atomic := by
  obtain ⟨put, delete⟩ := w
  cases put <;> cases delete
  · exact (reads_lift _).atomic
  · exact (remove_atomic _).bind_sure fun _ => sure_pure _
  · exact (store_atomic _).bind_sure fun _ => sure_pure _
  · exact (reads_lift _).atomic

/-- The writes after one that is made go on from what it leaves. -/
lemma on_writeAll_cons (w : BatchedWrite) (rest : List BatchedWrite) (t : Table) :
    (writeAll (w :: rest)).on t = match (write w).attempt t with
      | .ok (_, t) => (writeAll rest).on t
      | .error e => (.error e, t) := by
  rw [writeAll, on_bind, (write_atomic w).on_eq]
  cases (write w).attempt t <;> rfl

end Table

/-- What the writes in one table have changed by the time one of them fails is in the catalog. -/
lemma Catalog.on_writeAll_cons (name : String) (writes : List BatchedWrite)
    (rest : List (String × List BatchedWrite)) (c : Catalog) :
    (writeAll ((name, writes) :: rest)).on c = match c.require name with
      | .error e => (.error e, c)
      | .ok t =>
        match (Table.writeAll writes).on t with
        | (.error e, t) => (.error e, c.insert name t)
        | (.ok (), t) => (writeAll rest).on (c.insert name t) := by
  rw [writeAll, on_bind, on_onTable]
  cases c.require name with
  | error e => rfl
  | ok t => rcases hall : (Table.writeAll writes).on t with ⟨e | a, t'⟩ <;> simp only [hall]

lemma Answer.on_batchWriteItem (b : NameList (List BatchedWrite)) (c : Catalog) :
    (batchWriteItem b).on c
      = (((Catalog.writeAll b.entries).on c).1.map fun _ => .written,
          ((Catalog.writeAll b.entries).on c).2) := by
  rw [batchWriteItem, on_bind]
  rcases (Catalog.writeAll b.entries).on c with ⟨e | a, c'⟩ <;> rfl

end ItemStore
