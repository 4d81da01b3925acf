import ItemStore.Proofs.StoredItems

/-!
# Batches of writes

A batch of writes is a list of turns: each table that it lists is looked up, and each write for the
table is made.  A turn can also be taken on its own, as the request that a client would send for it.
The batch works on a table and puts it back, a single request on the store, and the two share no
loop; still they come to the same.

* `Turn` — what a batch does at one time, and `Store.turn` — the same as a request on its own.
* `Store.takeTurns` — turns one after the other up to the first that is refused;
  `Store.takeTurns_eq_ok` and `Store.takeTurns_eq_error` say how it ends.
* **`Store.batchWriteItem_eq_takeTurns`** — a batch of writes is its turns.
-/

namespace ItemStore

open Answer

/-! ## Turns -/

/-- A turn of a batch of writes. -/
inductive Turn where
  | table (name : String)
  | put (table : String) (item : Item)
  | delete (table : String) (key : Item)
  | unclear

/-- The turn of a write.  A write that neither puts nor deletes, or does both, is unclear. -/
def BatchedWrite.turn (table : String) (w : BatchedWrite) : Turn :=
  match w.put, w.delete with
  | some item, none => .put table item
  | none, some key => .delete table key
  | _, _ => .unclear

/-- The turns of a batch, in the order in which it lists them. -/
def Turn.ofBatches (batches : List (String × List BatchedWrite)) : List Turn :=
  batches.flatMap fun e => .table e.1 :: e.2.map (BatchedWrite.turn e.1)

namespace Store

/-- Take a turn on its own: ask for the table, put the item or delete the key. -/
def turn (s : Store) (stamp : Stamp) : Turn → Except Fault Response × Store
  | .table name => s.answer stamp (.describeTable name)
  | .put table item => s.answer stamp (.putItem ⟨table, item, none⟩)
  | .delete table key => s.answer stamp (.deleteItem ⟨table, key, none⟩)
  | .unclear => (.error (.requestFault .unclearWrite), s)

/-- Take turns one after the other until one is refused. -/
def takeTurns (s : Store) (stamp : Stamp) : List Turn → Except Fault Unit × Store
  | [] => (.ok (), s)
  | turn :: rest =>
    match s.turn stamp turn with
    | (.ok _, s') => s'.takeTurns stamp rest
    | (.error e, s') => (.error e, s')

/-- Turns that are all accepted, one after the other, lead from one store to another. -/
inductive Accepts (stamp : Stamp) : Store → List Turn → Store → Prop where
  | nil (s : Store) : Accepts stamp s [] s
  | cons {s s' s'' : Store} {turn : Turn} {rest : List Turn} {response : Response}
      (hturn : s.turn stamp turn = (.ok response, s')) (hrest : Accepts stamp s' rest s'') :
      Accepts stamp s (turn :: rest) s''

variable {s s' : Store} {stamp : Stamp}

/-! ## How turns end -/

/-- Turns succeed when all of them do. -/
theorem takeTurns_eq_ok {turns : List Turn} :
    s.takeTurns stamp turns = (.ok (), s') ↔ Accepts stamp s turns s' := by
  induction turns generalizing s with
  | nil =>
      simp only [takeTurns, Prod.mk.injEq, true_and]
      constructor
      · rintro rfl
        exact .nil s
      · rintro ⟨⟩
        rfl
  | cons turn rest ih =>
      rw [takeTurns]
      constructor
      · intro h
        split at h
        · rename_i hturn
          exact .cons hturn (ih.mp h)
        · cases h
      · rintro (_ | ⟨hturn, hrest⟩)
        rw [hturn]
        exact ih.mpr hrest

/-- A turn that is refused leaves the store alone. -/
lemma turn_failed {turn : Turn} {e : Fault} (h : s.turn stamp turn = (.error e, s')) : s' = s := by
  have hwriting : ∀ {answer}, answer.Atomic → s.writing answer = (.error e, s') → s' = s := by
    intro answer hatomic h
    rw [writing_eq hatomic] at h
    split at h <;> cases h
    rfl
  cases turn with
  | table name => exact (congrArg Prod.snd h).symm
  | put table item => exact hwriting (putItem_atomic _) h
  | delete table key => exact hwriting (deleteItem_atomic _) h
  | unclear => exact (congrArg Prod.snd h).symm

/-- Turns fail with the first that is refused.  The ones before it stay taken, and the ones behind
it are not. -/
theorem takeTurns_eq_error {turns : List Turn} {e : Fault} :
    s.takeTurns stamp turns = (.error e, s') ↔
      ∃ made turn later, turns = made ++ turn :: later ∧ Accepts stamp s made s' ∧
        s'.turn stamp turn = (.error e, s') := by
  induction turns generalizing s with
  | nil => simp [takeTurns]
  | cons first rest ih =>
      rw [takeTurns]
      constructor
      · intro h
        split at h
        · rename_i hfirst
          obtain ⟨made, turn, later, rfl, hmade, hturn⟩ := ih.mp h
          exact ⟨first :: made, turn, later, rfl, .cons hfirst hmade, hturn⟩
        · rename_i hfirst
          cases h
          obtain rfl := turn_failed hfirst
          exact ⟨[], first, rest, rfl, .nil _, hfirst⟩
      · rintro ⟨made, turn, later, hturns, hmade, hturn⟩
        cases hmade with
        | nil =>
            cases hturns
            rw [hturn]
        | cons hfirst hmade =>
            cases hturns
            rw [hfirst]
            exact ih.mpr ⟨_, turn, later, rfl, hmade, hturn⟩

lemma takeTurns_append (s : Store) (turns more : List Turn) :
    s.takeTurns stamp (turns ++ more)
      = match s.takeTurns stamp turns with
        | (.ok (), s') => s'.takeTurns stamp more
        | (.error e, s') => (.error e, s') := by
  induction turns generalizing s with
  | nil => rfl
  | cons turn rest ih =>
      rw [List.cons_append, takeTurns, takeTurns]
      rcases s.turn stamp turn with ⟨_ | _, s'⟩
      · rfl
      · exact ih s'

/-! ## Turns in one table -/

variable {name : String} {t : Table}

/-- A turn at a table finds it, or fails. -/
lemma turn_table (s : Store) (stamp : Stamp) (name : String) :
    s.turn stamp (.table name)
      = (match s.catalog.get? name with
          | some t => .ok (.table (t.describe .active))
          | none => .error (.tableNotFound name), s) := by
  show (describeTable name s.catalog, s) = _
  rw [describeTable, Catalog.require]
  cases s.catalog.get? name <;> rfl

/-- A write of a batch and the request for it on its own make the same of a table. -/
lemma turn_write (hget : s.catalog.get? name = some t) (w : BatchedWrite) :
    (∃ t' response, (Table.write w).attempt t = .ok ((), t') ∧
      s.turn stamp (w.turn name)
        = (.ok response, { s with catalog := s.catalog.insert name t' })) ∨
    ∃ e, (Table.write w).attempt t = .error e ∧
      s.turn stamp (w.turn name) = (.error e, s) := by
  have hrequire := Catalog.require_eq_ok.mpr hget
  obtain ⟨put, delete⟩ := w
  rw [Table.attempt_write]
  cases put <;> cases delete
  · exact Or.inr ⟨_, rfl, rfl⟩
  · rename_i key
    have hturn : s.turn stamp (BatchedWrite.turn name ⟨none, some key⟩)
        = s.writing (deleteItem ⟨name, key, none⟩) := rfl
    rw [hturn, writing_eq (deleteItem_atomic _), attempt_deleteItem, hrequire]
    dsimp only [checkReturned, bind, Except.bind]
    cases (Table.remove key).attempt t with
    | error e => exact Or.inr ⟨e, rfl, rfl⟩
    | ok r => exact Or.inl ⟨r.2, _, rfl, rfl⟩
  · rename_i item
    have hturn : s.turn stamp (BatchedWrite.turn name ⟨some item, none⟩)
        = s.writing (putItem ⟨name, item, none⟩) := rfl
    rw [hturn, writing_eq (putItem_atomic _), attempt_putItem, hrequire]
    dsimp only [checkReturned, bind, Except.bind]
    cases (Table.store item).attempt t with
    | error e => exact Or.inr ⟨e, rfl, rfl⟩
    | ok r => exact Or.inl ⟨r.2, _, rfl, rfl⟩
  · exact Or.inr ⟨_, rfl, rfl⟩

/-- The writes in one table are their turns.  By induction on the writes; the table that the batch
has at hand is at each point the one in the store of the single requests. -/
lemma takeTurns_writes : ∀ (writes : List BatchedWrite) {s : Store} {t : Table},
    s.catalog.get? name = some t →
      s.takeTurns stamp (writes.map (BatchedWrite.turn name))
        = (((Table.writeAll writes).on t).1,
            { s with catalog := s.catalog.insert name ((Table.writeAll writes).on t).2 })
  | [], s, t, hget => by
      rw [Table.writeAll, Work.on_pure, NameMap.insert_eq_self hget]
      rfl
  | w :: rest, s, t, hget => by
      rw [List.map_cons, takeTurns, Table.on_writeAll_cons]
      rcases turn_write hget w with ⟨t', response, hwrite, hturn⟩ | ⟨e, hwrite, hturn⟩
      · have hget' : (s.catalog.insert name t').get? name = some t' := by
          rw [NameMap.get?_insert, if_pos rfl]
        rw [hturn, hwrite]
        dsimp only
        rw [takeTurns_writes rest hget', NameMap.insert_insert]
      · rw [hturn, hwrite]
        dsimp only
        rw [NameMap.insert_eq_self hget]

/-! ## Turns of a batch -/

/-- The writes of a batch are its turns. -/
lemma takeTurns_batches : ∀ (batches : List (String × List BatchedWrite)) (s : Store),
    s.takeTurns stamp (Turn.ofBatches batches)
      = (((Catalog.writeAll batches).on s.catalog).1,
          { s with catalog := ((Catalog.writeAll batches).on s.catalog).2 })
  | [], s => rfl
  | (name, writes) :: rest, s => by
      rw [Turn.ofBatches, List.flatMap_cons, List.cons_append, takeTurns, turn_table,
        Catalog.on_writeAll_cons, Catalog.require]
      cases hget : s.catalog.get? name with
      | none => rfl
      | some t =>
          dsimp only
          rw [takeTurns_append, takeTurns_writes writes hget]
          rcases (Table.writeAll writes).on t with ⟨_ | _, t'⟩
          · rfl
          · exact takeTurns_batches rest _

/-- **A batch of writes is the sequence of its single writes**, up to the first that fails.

The batch leaves the very store that the turns leave, down to the order of the rows.  It succeeds
when all of its turns are accepted.  Otherwise it fails as the first turn does that is refused, with
the turns before it taken and none behind it.  A turn at a table that is not there fails, whatever
is to be written to it; so does an unclear write, and it changes nothing. -/
theorem batchWriteItem_eq_takeTurns (s : Store) (stamp : Stamp)
    (b : NameList (List BatchedWrite)) :
    s.answer stamp (.batchWriteItem b)
        = ((s.takeTurns stamp (Turn.ofBatches b.entries)).1.map fun _ => .written,
            (s.takeTurns stamp (Turn.ofBatches b.entries)).2) ∧
      (∀ s', s.takeTurns stamp (Turn.ofBatches b.entries) = (.ok (), s') ↔
        Accepts stamp s (Turn.ofBatches b.entries) s') ∧
      (∀ e s', s.takeTurns stamp (Turn.ofBatches b.entries) = (.error e, s') ↔
        ∃ made turn later, Turn.ofBatches b.entries = made ++ turn :: later ∧
          Accepts stamp s made s' ∧ s'.turn stamp turn = (.error e, s')) ∧
      (∀ name, s.turn stamp (.table name)
        = (match s.catalog.get? name with
            | some t => .ok (.table (t.describe .active))
            | none => .error (.tableNotFound name), s)) ∧
      ∀ table w, w.put.isSome = w.delete.isSome →
        ∃ e, s.turn stamp (BatchedWrite.turn table w) = (.error e, s) ∧
          e.code = .validationError := by
  refine ⟨?_, fun _ => takeTurns_eq_ok, fun _ _ => takeTurns_eq_error, turn_table s stamp, ?_⟩
  · change s.writing (Answer.batchWriteItem b) = _
    rw [takeTurns_batches, writing, on_batchWriteItem]
  · rintro table ⟨put, delete⟩ hsides
    refine ⟨.requestFault .unclearWrite, ?_, rfl⟩
    cases put <;> cases delete <;> first | rfl | cases hsides

end Store

/-- A write that puts a reading, one that is unclear, and one that deletes the reading. -/
def Sample.batch : NameList (List BatchedWrite) :=
  .ofList [("Readings", [⟨some (reading "7" "new"), none⟩, ⟨none, none⟩, ⟨none, some (key "7")⟩])]

theorem Store.batchWriteItem_eq_takeTurns_sample :
    (Sample.store.answer Sample.stamp (.batchWriteItem Sample.batch)).1
        = .error (.requestFault .unclearWrite) ∧
      (Sample.store.answer Sample.stamp (.batchWriteItem Sample.batch)).2
        = (Sample.store.answer Sample.stamp
            (.putItem ⟨"Readings", Sample.reading "7" "new", none⟩)).2 ∧
      ∃ e, Sample.store.turn Sample.stamp (BatchedWrite.turn "Readings" ⟨none, none⟩)
          = (.error e, Sample.store) ∧
        e.code = .validationError := by
  obtain ⟨hbatch, _, _, _, hunclear⟩ :=
    batchWriteItem_eq_takeTurns Sample.store Sample.stamp Sample.batch
  refine ⟨?_, ?_, hunclear "Readings" ⟨none, none⟩ rfl⟩
  · rw [hbatch]
    decide +kernel
  · rw [hbatch]
    decide +kernel

end ItemStore
