import ItemStore.Proofs.AlikeItems
import ItemStore.Proofs.KeyedMap

/-!
# Requests for writes

A request for a write looks its table up, makes the write there and puts the table back.  Whether it
is refused, and for what reason, is decided by the key of the table and never by its items; and what
it gives back depends on the one item under the key that it addresses.

* `Table.bare` — a table without its items; **`Table.apply_bare`** — a write is refused, or
  accepted, whatever the items.
* `Table.SameItems`, `Store.SameItems` — the same items, perhaps in another order;
  **`Table.sameItems_of_at?_eq`** — sound tables have the same items if the same ones are found.
* `Table.respond` — what a request for a write answers and makes of its table;
  **`Store.answer_request`** — it makes nothing else of the store.
* **`Table.respond_fst_eq`** — what a request is answered depends on the bare table and on the item
  under its key.
* `Table.KeptByWrites` — what single writes keep, batches of them keep.
* `Catalog.SameBare` — the same tables, items apart.  **`Catalog.SameBare.writeAll`** — whether a
  batch of writes succeeds depends on no more.
-/

namespace ItemStore

open Answer

/-! ## Tables without their items -/

namespace Rows

/-- What there is to rows apart from the items. -/
def bare (t : Rows) : Rows :=
  { t with items := [] }

variable {t t' : Rows}

lemma keys_eq_of_bare (h : t.bare = t'.bare) : t.keys = t'.keys :=
  (Rows.mk.inj h).1

lemma primaryKey_eq_of_bare (h : t.bare = t'.bare) (item : Item) :
    t.primaryKey item = t'.primaryKey item := by
  rw [primaryKey, primaryKey, (Rows.mk.inj h).1, (Rows.mk.inj h).2.1]

/-- Both outcomes leave rows that differ from `t` in their items at most. -/
def BothBare {α : Type} (t : Rows) (x y : α × Rows) : Prop :=
  x.2.bare = t.bare ∧ y.2.bare = t.bare

lemma delete_bare (t : Rows) (key : PrimaryKey) : (t.delete key).2.bare = t.bare := by
  rw [delete]
  cases t.position? key <;> rfl

lemma put_bare (h : t.bare = t'.bare) (item : Item) :
    SameOutcome t.BothBare ((put item).attempt t) ((put item).attempt t') := by
  rw [attempt_put, attempt_put, ← primaryKey_eq_of_bare h]
  refine .bind_same _ fun key => .ok ⟨t.delete_bare key, ?_⟩
  exact (t'.delete_bare key).trans h.symm

lemma update_bare (h : t.bare = t'.bare) (key : Item) (changes : List (String × Change)) :
    SameOutcome t.BothBare ((update key changes).attempt t) ((update key changes).attempt t') := by
  rw [attempt_update, attempt_update, ← primaryKey_eq_of_bare h]
  refine .bind_same _ fun primary => ?_
  cases t.position? primary <;> cases t'.position? primary <;> exact .ok ⟨rfl, h.symm⟩

end Rows

namespace Table

/-- A table without its items. -/
def bare (t : Table) : Table :=
  { t with rows := t.rows.bare }

/-- Two tables that have the same items, each as often. -/
structure SameItems (t t' : Table) : Prop where
  bare_eq : t.bare = t'.bare
  perm : t.rows.items.Perm t'.rows.items

variable {t t' : Table}

/-- Tables that differ in their items at most are one table with two sets of rows. -/
lemma exists_of_bare (h : t.bare = t'.bare) :
    ∃ rows, t.rows.bare = rows.bare ∧ t' = { t with rows } := by
  obtain ⟨hschema, hregion, hstamp, hrows⟩ := Table.mk.inj h
  obtain ⟨schema, region, stamp, rows⟩ := t'
  cases hschema
  cases hregion
  cases hstamp
  exact ⟨rows, hrows, rfl⟩

lemma schema_eq_of_bare (h : t.bare = t'.bare) : t.schema = t'.schema :=
  (Table.mk.inj h).1

lemma bare_of_rows {rows : Rows} (h : rows.bare = t.rows.bare) : { t with rows }.bare = t.bare := by
  rw [bare, h, bare]

/-- **Sound tables in which the same items are found have the same items.** -/
theorem sameItems_of_at?_eq {enforce : Bool} (hs : t.Sound enforce) (hs' : t'.Sound enforce)
    (hbare : t.bare = t'.bare) (h : ∀ q, t.rows.at? q = t'.rows.at? q) : t.SameItems t' :=
  ⟨hbare, hs.rows.perm_of_at?_eq hs'.rows h⟩

/-- **Whether a write is accepted, and why not, is no matter of the items**, and a write changes
nothing but the items. -/
theorem apply_bare (h : t.bare = t'.bare) (w : Write) :
    SameOutcome (fun x y => x.2.bare = t.bare ∧ y.2.bare = t.bare) (t.apply w) (t'.apply w) := by
  obtain ⟨rows, hrows, rfl⟩ := exists_of_bare h
  cases w with
  | put item =>
      rw [apply, apply, attempt_store, attempt_store]
      refine .bind_same _ fun _ => ((Rows.put_bare hrows item).mapError _).bind fun x y hxy => ?_
      exact .ok ⟨bare_of_rows hxy.1, bare_of_rows hxy.2⟩
  | remove key =>
      rw [apply, apply, attempt_remove, attempt_remove, ← Rows.keys_eq_of_bare hrows,
        ← Rows.primaryKey_eq_of_bare hrows]
      refine .bind_same _ fun _ => .bind_same _ fun primary => ?_
      exact .ok ⟨bare_of_rows (t.rows.delete_bare primary),
        bare_of_rows ((rows.delete_bare primary).trans hrows.symm)⟩
  | update key updates =>
      rw [apply, apply, attempt_amend, attempt_amend, ← Rows.keys_eq_of_bare hrows]
      refine SameOutcome.map (.bind_same _ fun _ => .bind_same _ fun changes =>
        ((Rows.update_bare hrows key changes).mapError _).bind fun x y hxy => ?_) fun _ _ => id
      exact .ok ⟨bare_of_rows hxy.1, bare_of_rows hxy.2⟩

lemma bare_of_apply {w : Write} {old : Option Item} (h : t.apply w = .ok (old, t')) :
    t'.bare = t.bare := by
  have houtcome := apply_bare (t := t) rfl w
  rw [h] at houtcome
  cases houtcome with
  | ok hbare => exact hbare.1

end Table

namespace Catalog

variable {c c' : Catalog}

/-- Catalogs of which a view shows the same under a name give tables of which it shows the same, or
fail alike. -/
lemma sameOutcome_require {α : Type} {view : Table → α} {name : String}
    (h : (c.get? name).map view = (c'.get? name).map view) :
    SameOutcome (fun t t' => view t = view t') (c.require name) (c'.require name) := by
  rw [require, require]
  cases hc : c.get? name <;> cases hc' : c'.get? name <;> rw [hc, hc'] at h
  · exact .error _
  · cases h
  · cases h
  · exact .ok (Option.some.inj h)

/-- Two catalogs with the same tables, items apart. -/
def SameBare (c c' : Catalog) : Prop :=
  ∀ name, (c.get? name).map Table.bare = (c'.get? name).map Table.bare

lemma SameBare.insert (h : SameBare c c') (name : String) {t t' : Table} (ht : t.bare = t'.bare) :
    SameBare (c.insert name t) (c'.insert name t') := by
  intro other
  rw [NameMap.get?_insert, NameMap.get?_insert]
  split
  · rw [Option.map_some, Option.map_some, ht]
  · exact h other

/-- Putting back a table with other items changes nothing else. -/
lemma sameBare_insert {name : String} {t t' : Table} (hget : c.get? name = some t)
    (ht : t'.bare = t.bare) : SameBare (c.insert name t') c := by
  have h := SameBare.insert (c := c) (fun _ => rfl) name ht
  rwa [NameMap.insert_eq_self hget] at h

end Catalog

/-- Two stores whose tables have the same items. -/
structure Store.SameItems (s s' : Store) : Prop where
  settings_eq : s.settings = s'.settings
  tables : ∀ name, Option.Rel Table.SameItems (s.catalog.get? name) (s'.catalog.get? name)

/-! ## What a request answers -/

namespace Write

/-- What a write may ask to be given back.  An update may ask for anything. -/
def checkReturned (returned : Option Returned) : Write → Except Fault Unit
  | put _ | remove _ => Answer.checkReturned returned
  | update _ _ => .ok ()

/-- What the request for a write is answered, where `old` stood under its key. -/
def response (returned : Option Returned) (old : Option Item) : Write → Response
  | put _ | remove _ => oldAttributes returned old
  | update key updates =>
    .attributes (givenBack (returned.getD .nothing) updates.names old
      ((old.getD key).updated updates.entries))

end Write

namespace Table

/-- What the request for a write answers, and what it makes of its table. -/
def respond (t : Table) (returned : Option Returned) (w : Write) :
    Except Fault (Response × Table) := do
  w.checkReturned returned
  let (old, t') ← t.apply w
  return (w.response returned old, t')

variable {t t' : Table} {w : Write} {old : Option Item} {returned : Option Returned}
  {response : Response}

lemma respond_eq_ok (h : t.respond returned w = .ok (response, t')) :
    ∃ old, t.apply w = .ok (old, t') ∧ response = w.response returned old := by
  obtain ⟨_, _, h⟩ := bind_eq_ok.mp h
  obtain ⟨⟨old, t''⟩, happly, h⟩ := bind_eq_ok.mp h
  cases h
  exact ⟨old, happly, rfl⟩

/-- **What a request is answered depends on the item under its key** and on no other. -/
theorem respond_fst_eq {enforce : Bool} (hs : t.Sound enforce) (hs' : t'.Sound enforce)
    (hbare : t.bare = t'.bare) (hat : t.rows.at? w.key = t'.rows.at? w.key) :
    (t.respond returned w).map Prod.fst = (t'.respond returned w).map Prod.fst := by
  rw [respond, respond]
  cases w.checkReturned returned with
  | error e => rfl
  | ok _ =>
      have houtcome := apply_bare hbare w
      generalize hx : t.apply w = x, hy : t'.apply w = y at houtcome
      cases houtcome with
      | error e => rfl
      | @ok a b _ =>
          obtain ⟨old, _⟩ := a
          obtain ⟨old', _⟩ := b
          obtain rfl : old = old' :=
            (apply_spec hs hx).old_eq.trans (hat.trans (apply_spec hs' hy).old_eq.symm)
          rfl

/-- An accepted update leaves the item with the updates made to it. -/
lemma amend_eq_ok {key new : Item} {updates : NameList AttributeUpdate}
    (h : (amend key updates).attempt t = .ok ((old, new), t')) :
    new = (old.getD key).updated updates.entries := by
  rw [attempt_amend] at h
  obtain ⟨_, _, h⟩ := bind_eq_ok.mp h
  obtain ⟨changes, hchanges, h⟩ := bind_eq_ok.mp h
  obtain ⟨⟨⟨old', new'⟩, rows⟩, hupdate, h⟩ := bind_eq_ok.mp h
  cases h
  obtain ⟨-, -, hnew, -⟩ := Rows.update_spec (liftKey_eq_ok.mp hupdate)
  rw [hnew, (changesOf_eq_ok hchanges).2]

end Table

namespace Write

/-- The work on a catalog that the request for a write asks for. -/
def work (table : String) (returned : Option Returned) : Write → Work Fault Catalog Response
  | put item => putItem ⟨table, item, returned⟩
  | remove key => deleteItem ⟨table, key, returned⟩
  | update key updates => updateItem ⟨table, key, updates, returned⟩

lemma work_atomic (table : String) (returned : Option Returned) (w : Write) :
    (w.work table returned).Atomic := by
  cases w with
  | put item => exact putItem_atomic _
  | remove key => exact deleteItem_atomic _
  | update key updates => exact updateItem_atomic _

/-- The three requests for writes do the same around what they do in their table. -/
lemma attempt_work (table : String) (returned : Option Returned) (w : Write) (c : Catalog) :
    (w.work table returned).attempt c = do
      let t ← c.require table
      let (response, t) ← t.respond returned w
      return (response, c.insert table t) := by
  cases w with
  | put item =>
      simp only [work, attempt_putItem, Table.respond, bind_assoc]
      rfl
  | remove key =>
      simp only [work, attempt_deleteItem, Table.respond, bind_assoc]
      rfl
  | update key updates =>
      rw [work, attempt_updateItem]
      refine congrArg (c.require table >>= ·) (funext fun t => ?_)
      rw [Table.respond, Table.apply]
      cases hamend : (Table.amend key updates).attempt t with
      | error e => rfl
      | ok r =>
          obtain ⟨⟨old, new⟩, t'⟩ := r
          obtain rfl := Table.amend_eq_ok hamend
          rfl

end Write

namespace Store

/-- **A request for a write is about its table only.**  It looks the table up, and if it is accepted
there it puts the table back as the write leaves it. -/
theorem answer_request (s : Store) (stamp : Stamp) (table : String) (returned : Option Returned)
    (w : Write) :
    s.answer stamp (w.request table returned)
      = match s.catalog.require table >>= fun t => t.respond returned w with
        | .ok (response, t) => (.ok response, { s with catalog := s.catalog.insert table t })
        | .error e => (.error e, s) := by
  have hwriting : s.answer stamp (w.request table returned)
      = s.writing (w.work table returned) := by
    cases w <;> rfl
  rw [hwriting, writing_eq (w.work_atomic table returned), Write.attempt_work]
  cases s.catalog.require table with
  | error e => rfl
  | ok t =>
      simp only [bind, Except.bind]
      cases t.respond returned w <;> rfl

/-- A request for a write is refused and leaves the store alone, or it makes its write. -/
lemma answer_request_cases (s : Store) (stamp : Stamp) (table : String)
    (returned : Option Returned) (w : Write) :
    (∃ e, s.answer stamp (w.request table returned) = (.error e, s)) ∨
      ∃ t old t', s.catalog.get? table = some t ∧ t.apply w = .ok (old, t') ∧
        s.answer stamp (w.request table returned)
          = (.ok (w.response returned old), { s with catalog := s.catalog.insert table t' }) := by
  rw [answer_request]
  cases hx : s.catalog.require table >>= fun t => t.respond returned w with
  | error e => exact Or.inl ⟨e, rfl⟩
  | ok r =>
      obtain ⟨t, hrequire, hrespond⟩ := bind_eq_ok.mp hx
      obtain ⟨old, happly, hresponse⟩ := Table.respond_eq_ok hrespond
      exact Or.inr ⟨t, old, r.2, Catalog.require_eq_ok.mp hrequire, happly, by rw [← hresponse]⟩

lemma answer_request_fst (s : Store) (stamp : Stamp) (table : String)
    (returned : Option Returned) (w : Write) :
    (s.answer stamp (w.request table returned)).1
      = s.catalog.require table >>= fun t => (t.respond returned w).map Prod.fst := by
  rw [answer_request]
  cases s.catalog.require table with
  | error e => rfl
  | ok t =>
      simp only [bind, Except.bind]
      cases t.respond returned w <;> rfl

/-- A request for a write creates no table and drops none, and changes no schema. -/
lemma answer_request_bare (s : Store) (stamp : Stamp) (table : String)
    (returned : Option Returned) (w : Write) :
    Catalog.SameBare (s.answer stamp (w.request table returned)).2.catalog s.catalog := by
  rcases s.answer_request_cases stamp table returned w with
    ⟨e, h⟩ | ⟨t, old, t', hget, happly, h⟩ <;> rw [h]
  · exact fun _ => rfl
  · exact Catalog.sameBare_insert hget (Table.bare_of_apply happly)

end Store

/-! ## Batches of writes -/

namespace Table

/-- A relation of tables that no write tells apart and every write keeps. -/
def KeptByWrites (R : Table → Table → Prop) : Prop :=
  ∀ t t', R t t' → ∀ w, SameOutcome (fun x y => R x.2 y.2) (t.apply w) (t'.apply w)

namespace KeptByWrites

variable {R : Table → Table → Prop}

lemma write (hR : KeptByWrites R) {t t' : Table} (h : R t t') (w : BatchedWrite) :
    SameOutcome (fun x y => R x.2 y.2) ((Table.write w).attempt t)
      ((Table.write w).attempt t') := by
  rw [attempt_write, attempt_write]
  obtain ⟨put, delete⟩ := w
  cases put <;> cases delete
  · exact .error _
  · rename_i key
    exact (hR t t' h (.remove key)).bind fun _ _ hxy => .ok hxy
  · rename_i item
    exact (hR t t' h (.put item)).bind fun _ _ hxy => .ok hxy
  · exact .error _

/-- The writes of a batch keep what each of them keeps. -/
lemma writeAll (hR : KeptByWrites R) : ∀ {t t' : Table} (_ : R t t') (writes : List BatchedWrite),
    ((Table.writeAll writes).on t).1 = ((Table.writeAll writes).on t').1 ∧
      R ((Table.writeAll writes).on t).2 ((Table.writeAll writes).on t').2
  | _, _, h, [] => ⟨rfl, h⟩
  | t, t', h, w :: rest => by
      have hwrite := hR.write h w
      rw [on_writeAll_cons, on_writeAll_cons]
      generalize (Table.write w).attempt t = x, (Table.write w).attempt t' = y at hwrite
      cases hwrite with
      | error e => exact ⟨rfl, h⟩
      | ok hxy => exact writeAll hR hxy rest

end KeptByWrites

lemma keptByWrites_bare (b : Table) : KeptByWrites fun t t' => t.bare = b ∧ t'.bare = b := by
  rintro t t' ⟨ht, ht'⟩ w
  have houtcome := apply_bare (ht.trans ht'.symm) w
  rwa [ht] at houtcome

end Table

namespace Catalog

/-- **Whether a batch of writes succeeds is no matter of the items**. -/
lemma SameBare.writeAll : ∀ {batches : List (String × List BatchedWrite)} {c c' : Catalog},
    SameBare c c' → ((Catalog.writeAll batches).on c).1 = ((Catalog.writeAll batches).on c').1
  | [], _, _, _ => rfl
  | (name, writes) :: rest, c, c', h => by
      have hrequire := sameOutcome_require (h name)
      rw [on_writeAll_cons, on_writeAll_cons]
      generalize c.require name = x, c'.require name = y at hrequire
      cases hrequire with
      | error e => rfl
      | @ok t t' ht =>
          obtain ⟨hfirst, hbare, hbare'⟩ :=
            (Table.keptByWrites_bare t.bare).writeAll ⟨rfl, ht.symm⟩ writes
          dsimp only
          generalize (Table.writeAll writes).on t = p, (Table.writeAll writes).on t' = p'
            at hfirst hbare hbare'
          obtain ⟨result, u⟩ := p
          obtain ⟨_, u'⟩ := p'
          obtain rfl := hfirst
          cases result with
          | error e => rfl
          | ok _ => exact writeAll (h.insert name (hbare.trans hbare'.symm))

/-- A batch of writes changes nothing but items. -/
lemma sameBare_writeAll : ∀ (batches : List (String × List BatchedWrite)) (c : Catalog),
    SameBare ((Catalog.writeAll batches).on c).2 c
  | [], _ => fun _ => rfl
  | (name, writes) :: rest, c => by
      rw [on_writeAll_cons]
      cases ht : c.require name with
      | error e => exact fun _ => rfl
      | ok t =>
          have hget := require_eq_ok.mp ht
          obtain ⟨-, hbare, -⟩ := (Table.keptByWrites_bare t.bare).writeAll ⟨rfl, rfl⟩ writes
          dsimp only
          generalize (Table.writeAll writes).on t = p at hbare
          have hinsert : SameBare (c.insert name p.2) c := sameBare_insert hget hbare
          obtain ⟨_ | _, u⟩ := p
          · exact hinsert
          · exact fun other => (sameBare_writeAll rest _ other).trans (hinsert other)

end Catalog

namespace Store

lemma answer_batchWriteItem (s : Store) (stamp : Stamp) (b : NameList (List BatchedWrite)) :
    s.answer stamp (.batchWriteItem b)
      = (((Catalog.writeAll b.entries).on s.catalog).1.map fun _ => .written,
          { s with catalog := ((Catalog.writeAll b.entries).on s.catalog).2 }) := by
  change s.writing (Answer.batchWriteItem b) = _
  rw [writing, on_batchWriteItem]

lemma answer_batchWriteItem_bare (s : Store) (stamp : Stamp) (b : NameList (List BatchedWrite)) :
    Catalog.SameBare (s.answer stamp (.batchWriteItem b)).2.catalog s.catalog := by
  rw [answer_batchWriteItem]
  exact Catalog.sameBare_writeAll b.entries s.catalog

end Store

end ItemStore
