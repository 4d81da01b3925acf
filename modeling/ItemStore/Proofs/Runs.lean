import ItemStore.Proofs.Writes
import ItemStore.Store

/-!
# Runs of a store

A run is any sequence of requests, accepted or not, with resets in between.  What it makes of the
tables is told by its *effects*: an accepted request has one at most, a refused one has none, and a
batch has one for each write it makes before the first that fails.

* `Catalog.Makes` — what one effect makes of a catalog.  `Catalog.Makes.get?_cases` says where each
  table comes from.
* **`Catalog.History`** — the effects that lead from no tables to a catalog.  It carries every
  invariant of stores: what holds of no tables and is kept by each effect holds after each run.
* `Answer.putItem_eq_ok`, … — what each writing request does where it is accepted.
* **`Store.history_after`** — the catalog after a run has the effects of the run as its history.
* **`Store.sound_after`** — every table of every run is sound.
-/

namespace ItemStore

open Answer

/-! ## Effects -/

/-- A change of a catalog. -/
inductive Effect where
  | create (table : String)
  | drop (table : String)
  | clear
  | write (table : String) (w : Write)

/-- The writes to a table since it was last created, when one more effect has happened. -/
def Effect.extend (table : String) (writes : List Write) : Effect → List Write
  | create other | drop other => if table = other then [] else writes
  | clear => []
  | write other w => if table = other then writes ++ [w] else writes

namespace Catalog

variable {settings : Settings} {c c' : Catalog} {effects : List Effect}

lemma require_eq_ok {name : String} {t : Table} :
    c.require name = .ok t ↔ c.get? name = some t := by
  rw [require]
  cases c.get? name <;> simp

/-- What an effect makes of a catalog.  A new table has the schema of an accepted declaration and
takes the place of an older one of its name; a write is one that its table accepts. -/
inductive Makes (settings : Settings) (c : Catalog) : Effect → Catalog → Prop where
  | create {stamp : Stamp} {d : TableDeclaration} {schema : TableSchema}
      (h : TableSchema.ofDeclaration d = .ok schema) :
      Makes settings c (.create d.name) (c.insert d.name (Table.new settings stamp schema))
  | drop (name : String) : Makes settings c (.drop name) (c.erase name)
  | clear : Makes settings c .clear .empty
  | write {name : String} {w : Write} {t t' : Table} {old : Option Item}
      (hget : c.get? name = some t) (h : t.apply w = .ok (old, t')) :
      Makes settings c (.write name w) (c.insert name t')

/-- The effects that lead from no tables to a catalog. -/
inductive History (settings : Settings) : List Effect → Catalog → Prop where
  | nil : History settings [] .empty
  | snoc {effects : List Effect} {e : Effect} {c c' : Catalog} (h : History settings effects c)
      (hmakes : c.Makes settings e c') : History settings (effects ++ [e]) c'

/-- Every table of a catalog is sound. -/
def Sound (settings : Settings) (c : Catalog) : Prop :=
  ∀ name t, c.get? name = some t → t.Sound settings.enforceTypes

lemma sound_empty (settings : Settings) : Sound settings .empty := by
  intro name t h
  cases h

/-- **Where a table comes from that is there after an effect**: it was there before, or it is new,
or it comes from an older one by a write. -/
theorem Makes.get?_cases {e : Effect} {name : String} {t' : Table} (h : c.Makes settings e c')
    (hget : c'.get? name = some t') :
    (c.get? name = some t' ∧ ∀ writes, e.extend name writes = writes) ∨
    (∃ stamp d schema, TableSchema.ofDeclaration d = .ok schema ∧
      t' = Table.new settings stamp schema ∧ ∀ writes, e.extend name writes = []) ∨
    ∃ t w old, c.get? name = some t ∧ t.apply w = .ok (old, t') ∧
      ∀ writes, e.extend name writes = writes ++ [w] := by
  cases h with
  | create hschema =>
      rw [NameMap.get?_insert] at hget
      split at hget
      · rename_i hname
        cases hget
        exact Or.inr (Or.inl ⟨_, _, _, hschema, rfl, fun _ => if_pos hname⟩)
      · rename_i hname
        exact Or.inl ⟨hget, fun _ => if_neg hname⟩
  | drop _ =>
      rw [NameMap.get?_erase] at hget
      split at hget
      · cases hget
      · rename_i hname
        exact Or.inl ⟨hget, fun _ => if_neg hname⟩
  | clear => cases hget
  | write hold happly =>
      rw [NameMap.get?_insert] at hget
      split at hget
      · rename_i hname
        subst hname
        cases hget
        exact Or.inr (Or.inr ⟨_, _, _, hold, happly, fun _ => if_pos rfl⟩)
      · rename_i hname
        exact Or.inl ⟨hget, fun _ => if_neg hname⟩

/-- Each effect keeps tables sound. -/
lemma Makes.sound {e : Effect} (h : c.Makes settings e c') (hs : c.Sound settings) :
    c'.Sound settings := by
  intro name t' hget
  rcases h.get?_cases hget with ⟨hold, _⟩ | ⟨_, _, _, hschema, rfl, _⟩ | ⟨t, _, _, hold, happly, _⟩
  · exact hs name t' hold
  · exact Table.sound_new hschema
  · have ht := hs name t hold
    exact (Table.apply_spec ht happly).sound ht

/-- **Tables with a history are sound.** -/
theorem History.sound (h : History settings effects c) : c.Sound settings := by
  induction h with
  | nil => exact sound_empty settings
  | snoc _ hmakes ih => exact hmakes.sound ih

end Catalog

/-! ## Accepted requests -/

namespace Answer

variable {settings : Settings} {stamp : Stamp} {response : Response} {c c' : Catalog}

lemma createTable_eq_ok {d : TableDeclaration}
    (h : (createTable settings stamp d).attempt c = .ok (response, c')) :
    ∃ schema, TableSchema.ofDeclaration d = .ok schema ∧
      c' = c.insert d.name (Table.new settings stamp schema) := by
  rw [attempt_createTable] at h
  obtain ⟨_, _, h⟩ := bind_eq_ok.mp h
  obtain ⟨schema, hschema, h⟩ := bind_eq_ok.mp h
  cases h
  rw [mapError_eq_ok] at hschema
  exact ⟨schema, hschema, by rw [Table.name, Table.new, TableSchema.name_eq hschema]⟩

lemma deleteTable_eq_ok {name : String} (h : (deleteTable name).attempt c = .ok (response, c')) :
    c' = c.erase name := by
  rw [attempt_deleteTable] at h
  obtain ⟨t, _, h⟩ := bind_eq_ok.mp h
  cases h
  rfl

/-- An accepted put writes its item.  It gives back what stood under the key, if that is asked
for. -/
lemma putItem_eq_ok {r : PutItem} (h : (putItem r).attempt c = .ok (response, c')) :
    ∃ t old t', c.get? r.table = some t ∧ t.apply (.put r.item) = .ok (old, t') ∧
      response = oldAttributes r.returned old ∧ c' = c.insert r.table t' := by
  rw [attempt_putItem] at h
  obtain ⟨t, ht, h⟩ := bind_eq_ok.mp h
  obtain ⟨_, _, h⟩ := bind_eq_ok.mp h
  obtain ⟨⟨old, t'⟩, happly, h⟩ := bind_eq_ok.mp h
  cases h
  exact ⟨t, old, t', Catalog.require_eq_ok.mp ht, happly, rfl, rfl⟩

lemma deleteItem_eq_ok {r : DeleteItem} (h : (deleteItem r).attempt c = .ok (response, c')) :
    ∃ t old t', c.get? r.table = some t ∧ t.apply (.remove r.key) = .ok (old, t') ∧
      response = oldAttributes r.returned old ∧ c' = c.insert r.table t' := by
  rw [attempt_deleteItem] at h
  obtain ⟨t, ht, h⟩ := bind_eq_ok.mp h
  obtain ⟨_, _, h⟩ := bind_eq_ok.mp h
  obtain ⟨⟨old, t'⟩, happly, h⟩ := bind_eq_ok.mp h
  cases h
  exact ⟨t, old, t', Catalog.require_eq_ok.mp ht, happly, rfl, rfl⟩

lemma updateItem_eq_ok {r : UpdateItem} (h : (updateItem r).attempt c = .ok (response, c')) :
    ∃ t old t', c.get? r.table = some t ∧ t.apply (.update r.key r.updates) = .ok (old, t') ∧
      c' = c.insert r.table t' := by
  rw [attempt_updateItem] at h
  obtain ⟨t, ht, h⟩ := bind_eq_ok.mp h
  obtain ⟨⟨⟨old, new⟩, t'⟩, hamend, h⟩ := bind_eq_ok.mp h
  cases h
  exact ⟨t, old, t', Catalog.require_eq_ok.mp ht, map_eq_ok.mpr ⟨_, hamend, rfl⟩, rfl⟩

end Answer

/-! ## Batches of writes -/

/-- The write that a part of a batch asks for. -/
def BatchedWrite.write? (w : BatchedWrite) : Option Write :=
  match w.put, w.delete with
  | some item, none => some (.put item)
  | none, some key => some (.remove key)
  | _, _ => none

/-- The writes of a batch that a table makes before one fails. -/
def Table.made (t : Table) : List BatchedWrite → List Write
  | [] => []
  | w :: rest =>
    match (write w).attempt t with
    | .ok (_, t) => w.write?.toList ++ t.made rest
    | .error _ => []

/-- The effects of a batch of writes before one fails. -/
def Catalog.made (c : Catalog) : List (String × List BatchedWrite) → List Effect
  | [] => []
  | (name, writes) :: rest =>
    match c.require name with
    | .error _ => []
    | .ok t =>
      (t.made writes).map (Effect.write name) ++
        match (Table.writeAll writes).on t with
        | (.error _, _) => []
        | (.ok (), t) => Catalog.made (c.insert name t) rest

namespace Catalog

variable {settings : Settings} {c : Catalog} {effects : List Effect}

lemma write_eq_ok {t t' : Table} {w : BatchedWrite}
    (h : (Table.write w).attempt t = .ok ((), t')) :
    ∃ write old, w.write? = some write ∧ t.apply write = .ok (old, t') := by
  rw [Table.attempt_write] at h
  obtain ⟨put, delete⟩ := w
  cases put <;> cases delete
  · cases h
  · obtain ⟨⟨old, _⟩, happly, h⟩ := bind_eq_ok.mp h
    cases h
    exact ⟨_, old, rfl, happly⟩
  · obtain ⟨⟨old, _⟩, happly, h⟩ := bind_eq_ok.mp h
    cases h
    exact ⟨_, old, rfl, happly⟩
  · cases h

/-- The writes of a batch in one table are effects one after the other. -/
lemma History.writeAll {name : String} : ∀ (writes : List BatchedWrite) {t : Table} {c : Catalog}
    {effects : List Effect}, History settings effects c → c.get? name = some t →
      History settings (effects ++ (t.made writes).map (Effect.write name))
        (c.insert name ((Table.writeAll writes).on t).2)
  | [], t, c, effects, h, hget => by
      rw [Table.writeAll, Work.on_pure, NameMap.insert_eq_self hget]
      simpa [Table.made] using h
  | w :: rest, t, c, effects, h, hget => by
      rw [Table.on_writeAll_cons]
      cases hw : (Table.write w).attempt t with
      | error e => simpa [Table.made, hw, NameMap.insert_eq_self hget] using h
      | ok r =>
          obtain ⟨write, old, hwrite, happly⟩ := write_eq_ok hw
          have hnext := h.snoc (.write hget happly)
          have hget' : (c.insert name r.2).get? name = some r.2 := by
            rw [NameMap.get?_insert, if_pos rfl]
          have hrest := hnext.writeAll rest hget'
          rw [NameMap.insert_insert] at hrest
          simpa [Table.made, hw, hwrite] using hrest

/-- The writes of a batch are effects one after the other, whether or not one of them fails. -/
lemma History.batch : ∀ {batches : List (String × List BatchedWrite)} {c : Catalog}
    {effects : List Effect}, History settings effects c →
      History settings (effects ++ c.made batches) ((Catalog.writeAll batches).on c).2
  | [], c, effects, h => by
      rw [Catalog.writeAll, Work.on_pure]
      simpa [made] using h
  | (name, writes) :: rest, c, effects, h => by
      rw [on_writeAll_cons]
      cases ht : c.require name with
      | error e => simpa [made, ht] using h
      | ok t =>
          have hwrites := h.writeAll writes (require_eq_ok.mp ht)
          rcases hall : (Table.writeAll writes).on t with ⟨e | _, t'⟩
          · rw [hall] at hwrites
            simpa [made, ht, hall] using hwrites
          · rw [hall] at hwrites
            simpa [made, ht, hall] using hwrites.batch

end Catalog

/-! ## Runs -/

/-- What can happen to a store. -/
inductive Event where
  | request (stamp : Stamp) (request : Request)
  | reset

/-- The effect that a request has if it is accepted, batches apart. -/
def Request.effect? : Request → Option Effect
  | .createTable d => some (.create d.name)
  | .deleteTable name => some (.drop name)
  | .putItem r => some (.write r.table (.put r.item))
  | .updateItem r => some (.write r.table (.update r.key r.updates))
  | .deleteItem r => some (.write r.table (.remove r.key))
  | _ => none

namespace Store

/-- The store that an event leaves behind. -/
def next (s : Store) : Event → Store
  | .request stamp request => (s.answer stamp request).2
  | .reset => s.reset

/-- The store that a run leaves behind. -/
def after (s : Store) (events : List Event) : Store :=
  events.foldl next s

/-- The effects that a request has. -/
def requestEffects (s : Store) (stamp : Stamp) : Request → List Effect
  | .batchWriteItem b => s.catalog.made b.entries
  | r => if (s.answer stamp r).1.isOk then r.effect?.toList else []

/-- The effects that an event has. -/
def eventEffects (s : Store) : Event → List Effect
  | .request stamp request => s.requestEffects stamp request
  | .reset => [.clear]

/-- The effects of a run. -/
def effects (s : Store) : List Event → List Effect
  | [] => []
  | e :: rest => s.eventEffects e ++ (s.next e).effects rest

/-- A run of requests is a run without resets. -/
theorem run_snd (s : Store) (steps : List (Stamp × Request)) :
    (s.run steps).2 = s.after (steps.map fun step => .request step.1 step.2) := by
  induction steps generalizing s with
  | nil => rfl
  | cons step rest ih =>
      show ((s.answer step.1 step.2).2.run rest).2 = _
      rw [ih]
      rfl

variable {s : Store} {history : List Effect}

lemma writing_eq_ok {s' : Store} {response : Response} (answer : Work Fault Catalog Response)
    (h : s.writing answer = (.ok response, s')) :
    ∃ c', answer.attempt s.catalog = .ok (response, c') ∧ s' = { s with catalog := c' } := by
  rw [writing] at h
  rcases hon : answer.on s.catalog with ⟨result, c'⟩
  rw [hon] at h
  cases h
  exact ⟨c', Work.attempt_eq_ok.mpr hon, rfl⟩

/-- Atomic work succeeds or leaves the store as it was. -/
lemma writing_eq {answer : Work Fault Catalog Response} (h : answer.Atomic) (s : Store) :
    s.writing answer = match answer.attempt s.catalog with
      | .ok (response, c') => (.ok response, { s with catalog := c' })
      | .error e => (.error e, s) := by
  rw [writing, h.on_eq]
  cases answer.attempt s.catalog <;> rfl

/-- Events leave the settings alone. -/
lemma next_settings (s : Store) (e : Event) : (s.next e).settings = s.settings := by
  cases e with
  | reset => rfl
  | request stamp request => cases request <;> rfl

/-- A request that changes the catalog where it is accepted adds its effect to the history. -/
lemma history_writing (h : Catalog.History s.settings history s.catalog) {e : Effect}
    {answer : Work Fault Catalog Response} (hatomic : answer.Atomic)
    (hmakes : ∀ response c', answer.attempt s.catalog = .ok (response, c') →
      s.catalog.Makes s.settings e c') :
    Catalog.History s.settings (history ++ if (s.writing answer).1.isOk then [e] else [])
      (s.writing answer).2.catalog := by
  rw [writing_eq hatomic]
  cases hattempt : answer.attempt s.catalog with
  | ok r => exact h.snoc (hmakes r.1 r.2 hattempt)
  | error e => simpa [Except.isOk, Except.toBool] using h

/-- **The effects of a request lead to the catalog it leaves behind.** -/
theorem history_answer (h : Catalog.History s.settings history s.catalog) (stamp : Stamp)
    (request : Request) :
    Catalog.History s.settings (history ++ s.requestEffects stamp request)
      (s.answer stamp request).2.catalog := by
  have hreading : ∀ accepted : Bool,
      Catalog.History s.settings (history ++ if accepted then [] else []) s.catalog := by
    simpa using h
  cases request with
  | createTable d =>
      refine (history_writing h (createTable_atomic _ _ d) fun response c' hok => ?_ :)
      obtain ⟨schema, hschema, rfl⟩ := createTable_eq_ok hok
      exact .create hschema
  | deleteTable name =>
      refine (history_writing h (deleteTable_atomic name) fun response c' hok => ?_ :)
      rw [deleteTable_eq_ok hok]
      exact .drop name
  | putItem r =>
      refine (history_writing h (putItem_atomic r) fun response c' hok => ?_ :)
      obtain ⟨t, old, t', hget, happly, _, rfl⟩ := putItem_eq_ok hok
      exact .write hget happly
  | updateItem r =>
      refine (history_writing h (updateItem_atomic r) fun response c' hok => ?_ :)
      obtain ⟨t, old, t', hget, happly, rfl⟩ := updateItem_eq_ok hok
      exact .write hget happly
  | deleteItem r =>
      refine (history_writing h (deleteItem_atomic r) fun response c' hok => ?_ :)
      obtain ⟨t, old, t', hget, happly, _, rfl⟩ := deleteItem_eq_ok hok
      exact .write hget happly
  | batchWriteItem b =>
      show Catalog.History s.settings (history ++ s.catalog.made b.entries)
        ((Answer.batchWriteItem b).on s.catalog).2
      rw [on_batchWriteItem]
      exact h.batch
  | describeTable _ => exact hreading _
  | listTables _ => exact hreading _
  | getItem _ => exact hreading _
  | query _ => exact hreading _
  | scan _ => exact hreading _
  | batchGetItem _ => exact hreading _
  | executeStatement _ => exact hreading _

lemma history_effects : ∀ {events : List Event} {s : Store} {history : List Effect},
    Catalog.History s.settings history s.catalog →
      Catalog.History s.settings (history ++ s.effects events) (s.after events).catalog
  | [], s, history, h => by simpa [effects, after] using h
  | e :: rest, s, history, h => by
      have hnext : Catalog.History s.settings (history ++ s.eventEffects e) (s.next e).catalog := by
        cases e with
        | request stamp request => exact history_answer h stamp request
        | reset => exact h.snoc .clear
      rw [← next_settings s e] at hnext ⊢
      rw [effects, ← List.append_assoc]
      exact history_effects hnext

/-- **A run leads where its effects lead.** -/
theorem history_after (settings : Settings) (events : List Event) :
    Catalog.History settings ((new settings).effects events)
      ((new settings).after events).catalog :=
  history_effects (s := new settings) .nil

/-- **Every table is sound after every run.** -/
theorem sound_after {settings : Settings} {events : List Event} {name : String} {t : Table}
    (h : ((new settings).after events).catalog.get? name = some t) :
    t.Sound settings.enforceTypes :=
  (history_after settings events).sound name t h

end Store

end ItemStore
