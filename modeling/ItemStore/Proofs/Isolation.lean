import ItemStore.Proofs.Lifecycle

/-!
# Isolation of tables

What a client sees of one table is no matter of the others.  A request that does not name a table
leaves it as it is, and a request that names no other table finds out nothing about the others.  So
runs that differ in requests which do not name a table agree on what is answered to those that do,
stamps apart.  Neither does anything of an earlier table show through a later one of its name.

Batches may name several tables, and a batch of writes stops at the first that fails, so it carries
news from one table to another.  The theorems are about runs whose batches name one table each.

* `Request.tables` — the tables that a request names; `Request.Focused` — they are not several.
* `Store.SameAt` — two stores with the same table of a name, stamps apart.
* **`Store.get?_answer_of_not_mem`** — a request leaves alone what it does not name.
* **`Store.SameAt.answer`** — a request about a table is answered the same in stores that agree
  there, and they agree there afterwards.
* `Thinned` — a run from which requests are left out that do not name a table.
* **`Store.tables_isolated`** — what is answered about a table in a run and in a thinner one.
-/

namespace ItemStore

open Answer

/-! ## The tables of a request -/

/-- The tables that a request names. -/
def Request.tables : Request → List String
  | .createTable d => [d.name]
  | .batchGetItem b => b.names
  | .batchWriteItem b => b.names
  | r => r.target?.toList

/-- A request that does not name several tables. -/
def Request.Focused (r : Request) : Prop :=
  r.tables.length ≤ 1

/-- A name list that has a name, and not several, has one entry. -/
lemma NameList.exists_entries_eq {α : Type} {l : NameList α} {name : String}
    (hlength : l.names.length ≤ 1) (hname : name ∈ l.names) :
    ∃ value, l.entries = [(name, value)] := by
  obtain ⟨entries, _⟩ := l
  match entries with
  | [] => cases hname
  | [(first, value)] =>
      obtain rfl : name = first := List.mem_singleton.mp hname
      exact ⟨value, rfl⟩
  | _ :: _ :: _ =>
      simp only [names, List.map_cons, List.length_cons] at hlength
      omega

/-! ## What a request does not name -/

namespace Catalog

lemma get?_writeAll_of_not_mem {name : String} :
    ∀ {batches : List (String × List BatchedWrite)} {c : Catalog},
      name ∉ batches.map Prod.fst → ((writeAll batches).on c).2.get? name = c.get? name
  | [], _, _ => rfl
  | (table, writes) :: rest, c, h => by
      have hne : name ≠ table := List.ne_of_not_mem_cons h
      rw [on_writeAll_cons]
      cases c.require table with
      | error e => rfl
      | ok t =>
          have hinsert : ∀ t' : Table, (c.insert table t').get? name = c.get? name := fun t' => by
            rw [NameMap.get?_insert, if_neg hne]
          dsimp only
          rcases (Table.writeAll writes).on t with ⟨_ | _, t'⟩
          · exact hinsert t'
          · exact (get?_writeAll_of_not_mem (List.not_mem_of_not_mem_cons h)).trans (hinsert t')

end Catalog

namespace Store

variable {s s' : Store} {name : String} {r : Request}

/-- **A request leaves alone what it does not name.** -/
theorem get?_answer_of_not_mem (h : name ∉ r.tables) (s : Store) (stamp : Stamp) :
    (s.answer stamp r).2.catalog.get? name = s.catalog.get? name := by
  have hwrite : ∀ (table : String) (returned : Option Returned) (w : Write), name ∉ [table] →
      (s.answer stamp (w.request table returned)).2.catalog.get? name = s.catalog.get? name := by
    intro table returned w hne
    rcases s.answer_request_cases stamp table returned w with
      ⟨e, h⟩ | ⟨t, old, t', _, _, h⟩ <;> rw [h]
    dsimp only
    rw [NameMap.get?_insert, if_neg (List.ne_of_not_mem_cons hne)]
  cases r with
  | createTable d =>
      rcases createTable_cases d with ⟨schema, hlegal, hschema⟩ | ⟨e, hrefused⟩
      · rw [answer_createTable_of_ok hlegal hschema]
        dsimp only
        rw [NameMap.get?_insert, if_neg (List.ne_of_not_mem_cons h)]
      · rw [hrefused]
  | deleteTable table =>
      rcases s.answer_deleteTable stamp table with ⟨t, _, hanswer⟩ | ⟨e, hanswer⟩ <;> rw [hanswer]
      dsimp only
      rw [NameMap.get?_erase, if_neg (List.ne_of_not_mem_cons h)]
  | putItem r => exact hwrite r.table r.returned (.put r.item) h
  | updateItem r => exact hwrite r.table r.returned (.update r.key r.updates) h
  | deleteItem r => exact hwrite r.table r.returned (.remove r.key) h
  | batchWriteItem b =>
      rw [answer_batchWriteItem]
      exact Catalog.get?_writeAll_of_not_mem h
  | describeTable _ | listTables _ | getItem _ | query _ | scan _ | batchGetItem _
    | executeStatement _ => rfl

/-! ## Stores that agree on a table -/

/-- Two stores that have the same table of a name, stamps apart, or both have none. -/
structure SameAt (name : String) (s s' : Store) : Prop where
  settings_eq : s.settings = s'.settings
  table_eq : (s.catalog.get? name).map Table.unstamped = (s'.catalog.get? name).map Table.unstamped

/-- Two answers that are the same, stamps apart, and leave stores that agree on a table. -/
structure SameStep (name : String) (x y : Except Fault Response × Store) : Prop where
  answer_eq : x.1.map Response.unstamped = y.1.map Response.unstamped
  sameAt : SameAt name x.2 y.2

lemma SameAt.require (h : s.SameAt name s') :
    SameOutcome (fun t t' => t.unstamped = t'.unstamped) (s.catalog.require name)
      (s'.catalog.require name) :=
  Catalog.sameOutcome_require h.table_eq

lemma SameAt.insert (h : s.SameAt name s') {t t' : Table} (ht : t.unstamped = t'.unstamped) :
    SameAt name { s with catalog := s.catalog.insert name t }
      { s' with catalog := s'.catalog.insert name t' } where
  settings_eq := h.settings_eq
  table_eq := by
    rw [NameMap.get?_insert, NameMap.get?_insert, if_pos rfl, if_pos rfl, Option.map_some,
      Option.map_some, ht]

/-! ### Requests about the table -/

variable {stamp stamp' : Stamp}

/-- A request that only reads is answered the same, and changes nothing. -/
lemma SameAt.reading (h : s.SameAt name s') {answer : Catalog → Except Fault Response}
    (houtcome : SameOutcome (fun x y => x.unstamped = y.unstamped) (answer s.catalog)
      (answer s'.catalog)) : SameStep name (s.reading answer) (s'.reading answer) :=
  ⟨houtcome.map_eq, h⟩

lemma SameAt.request (h : s.SameAt name s') (returned : Option Returned) (w : Write) :
    SameStep name (s.answer stamp (w.request name returned))
      (s'.answer stamp' (w.request name returned)) := by
  have houtcome := h.require.bind fun t t' ht => Table.respond_unstamped ht returned w
  rw [answer_request, answer_request]
  generalize (s.catalog.require name >>= fun t => t.respond returned w) = x,
    (s'.catalog.require name >>= fun t => t.respond returned w) = y at houtcome
  cases houtcome with
  | error e => exact ⟨rfl, h⟩
  | @ok a b hab =>
      obtain ⟨response, t⟩ := a
      obtain ⟨_, t'⟩ := b
      obtain ⟨rfl, ht⟩ := hab
      exact ⟨rfl, h.insert ht⟩

/-- An accepted declaration leads to one table, whatever there was before. -/
lemma sameStep_createTable {d : TableDeclaration} {schema : TableSchema}
    (hsettings : s.settings = s'.settings) (hlegal : checkTableName d.name = .ok ())
    (hschema : TableSchema.ofDeclaration d = .ok schema) (stamp stamp' : Stamp) :
    SameStep d.name (s.answer stamp (.createTable d)) (s'.answer stamp' (.createTable d)) := by
  rw [answer_createTable_of_ok hlegal hschema, answer_createTable_of_ok hlegal hschema, hsettings]
  refine ⟨rfl, rfl, ?_⟩
  dsimp only
  rw [NameMap.get?_insert, NameMap.get?_insert, if_pos rfl, if_pos rfl]
  rfl

lemma SameAt.createTable {d : TableDeclaration} (h : s.SameAt d.name s') :
    SameStep d.name (s.answer stamp (.createTable d)) (s'.answer stamp' (.createTable d)) := by
  rcases createTable_cases d with ⟨schema, hlegal, hschema⟩ | ⟨e, hrefused⟩
  · exact sameStep_createTable h.settings_eq hlegal hschema stamp stamp'
  · rw [hrefused, hrefused]
    exact ⟨rfl, h⟩

lemma SameAt.deleteTable (h : s.SameAt name s') :
    SameStep name (s.answer stamp (.deleteTable name)) (s'.answer stamp' (.deleteTable name)) := by
  have hrequire := h.require
  show SameStep name (s.writing (Answer.deleteTable name)) (s'.writing (Answer.deleteTable name))
  rw [writing_eq (Answer.deleteTable_atomic name), writing_eq (Answer.deleteTable_atomic name),
    Answer.attempt_deleteTable, Answer.attempt_deleteTable]
  generalize s.catalog.require name = x, s'.catalog.require name = y at hrequire
  cases hrequire with
  | error e => exact ⟨rfl, h⟩
  | ok ht =>
      obtain ⟨stamp, rfl⟩ := Table.exists_of_unstamped ht
      refine ⟨rfl, h.settings_eq, ?_⟩
      show ((s.catalog.erase name).get? name).map _ = ((s'.catalog.erase name).get? name).map _
      rw [NameMap.get?_erase, NameMap.get?_erase, if_pos rfl, if_pos rfl]

end Store

/-! ### Batches about the table -/

namespace Table

variable {t t' : Table}

lemma findAll_unstamped (h : t.unstamped = t'.unstamped) (attributes : List String)
    (keys : List Item) : t.findAll attributes keys = t'.findAll attributes keys := by
  obtain ⟨stamp, rfl⟩ := exists_of_unstamped h
  induction keys with
  | nil => rfl
  | cons key rest ih =>
      rw [findAll, findAll, ih]
      rfl

lemma keptByWrites_unstamped : KeptByWrites fun t t' => t.unstamped = t'.unstamped :=
  fun _ _ h w => (apply_unstamped h w).imp fun _ _ hxy => hxy.2

end Table

namespace Store

variable {s s' : Store} {name : String} {stamp stamp' : Stamp}

lemma SameAt.batchGetItem (h : s.SameAt name s') {b : NameList KeyBatch} {batch : KeyBatch}
    (hb : b.entries = [(name, batch)]) :
    SameStep name (s.answer stamp (.batchGetItem b)) (s'.answer stamp' (.batchGetItem b)) := by
  refine h.reading ?_
  rw [Answer.batchGetItem, Answer.batchGetItem, hb, Catalog.findAll, Catalog.findAll]
  refine SameOutcome.bind (R := Eq) (h.require.bind fun t t' ht => ?_)
    fun _ _ hxy => .ok (by rw [hxy])
  rw [Table.findAll_unstamped ht]
  exact .refl (fun _ => rfl) _

lemma SameAt.batchWriteItem (h : s.SameAt name s') {b : NameList (List BatchedWrite)}
    {writes : List BatchedWrite} (hb : b.entries = [(name, writes)]) :
    SameStep name (s.answer stamp (.batchWriteItem b)) (s'.answer stamp' (.batchWriteItem b)) := by
  have hrequire := h.require
  rw [answer_batchWriteItem, answer_batchWriteItem, hb, Catalog.on_writeAll_cons,
    Catalog.on_writeAll_cons]
  generalize s.catalog.require name = x, s'.catalog.require name = y at hrequire
  cases hrequire with
  | error e => exact ⟨rfl, h⟩
  | @ok t t' ht =>
      obtain ⟨hresult, hwritten⟩ := Table.keptByWrites_unstamped.writeAll ht writes
      dsimp only
      generalize (Table.writeAll writes).on t = p, (Table.writeAll writes).on t' = p'
        at hresult hwritten
      obtain ⟨result, u⟩ := p
      obtain ⟨_, u'⟩ := p'
      obtain rfl := hresult
      cases result with
      | error e => exact ⟨rfl, h.insert hwritten⟩
      | ok _ => exact ⟨rfl, h.insert hwritten⟩

/-! ### All requests -/

/-- **A request about a table is answered the same in stores that agree there**, stamps apart, and
leaves stores that agree there. -/
theorem SameAt.answer {r : Request} (h : s.SameAt name s') (hfocused : r.Focused)
    (hname : name ∈ r.tables) (stamp stamp' : Stamp) :
    SameStep name (s.answer stamp r) (s'.answer stamp' r) := by
  have hread : (∀ (s : Store) (stamp : Stamp), (s.answer stamp r).2 = s) → r.target? = some name →
      SameStep name (s.answer stamp r) (s'.answer stamp' r) := by
    intro hkeeps htarget
    obtain ⟨f, hreply⟩ := Request.exists_reply htarget
    refine ⟨?_, by rwa [hkeeps, hkeeps]⟩
    rw [hreply.answer_eq, hreply.answer_eq]
    exact (h.require.bind hreply.unstamped).map_eq
  cases r with
  | createTable d =>
      obtain rfl : name = d.name := List.mem_singleton.mp hname
      exact h.createTable
  | deleteTable table =>
      obtain rfl : name = table := List.mem_singleton.mp hname
      exact h.deleteTable
  | putItem r =>
      obtain rfl : name = r.table := List.mem_singleton.mp hname
      exact h.request r.returned (.put r.item)
  | updateItem r =>
      obtain rfl : name = r.table := List.mem_singleton.mp hname
      exact h.request r.returned (.update r.key r.updates)
  | deleteItem r =>
      obtain rfl : name = r.table := List.mem_singleton.mp hname
      exact h.request r.returned (.remove r.key)
  | batchGetItem b =>
      obtain ⟨batch, hb⟩ := NameList.exists_entries_eq hfocused hname
      exact h.batchGetItem hb
  | batchWriteItem b =>
      obtain ⟨writes, hb⟩ := NameList.exists_entries_eq hfocused hname
      exact h.batchWriteItem hb
  | describeTable _ | listTables _ | getItem _ | query _ | scan _ | executeStatement _ =>
      exact hread (fun _ _ => rfl) (Option.mem_toList.mp hname)

end Store

/-! ## Runs -/

/-- Requests do not name several tables. -/
def Event.Focused : Event → Prop
  | request _ r => r.Focused
  | reset => True

/-- A run from which requests are left out that do not name a table.  Those that stay may get other
stamps. -/
inductive Thinned (name : String) : List Event → List Event → Prop where
  | nil : Thinned name [] []
  | kept (stamp stamp' : Stamp) (r : Request) {events events' : List Event}
      (h : Thinned name events events') :
      Thinned name (.request stamp r :: events) (.request stamp' r :: events')
  | reset {events events' : List Event} (h : Thinned name events events') :
      Thinned name (.reset :: events) (.reset :: events')
  | left (stamp : Stamp) {r : Request} {events events' : List Event} (hr : name ∉ r.tables)
      (h : Thinned name events events') : Thinned name (.request stamp r :: events) events'

/-- What is seen of a table: the answer to a request that names it, without a stamp. -/
def Seen.about? (name : String) : Seen → Option (Except Fault Response)
  | answered r answer => if name ∈ r.tables then some (answer.map Response.unstamped) else none
  | reset => none

namespace Store

variable {s s' : Store} {name : String}

/-- What is answered about a table in a run, stamps apart. -/
def answersOn (s : Store) (name : String) (events : List Event) : List (Except Fault Response) :=
  (s.watch events).filterMap (Seen.about? name)

lemma answersOn_named {r : Request} (h : name ∈ r.tables) (s : Store) (stamp : Stamp)
    (events : List Event) :
    s.answersOn name (.request stamp r :: events)
      = (s.answer stamp r).1.map Response.unstamped
          :: (s.answer stamp r).2.answersOn name events :=
  List.filterMap_cons_some (if_pos h)

lemma answersOn_unnamed {r : Request} (h : name ∉ r.tables) (s : Store) (stamp : Stamp)
    (events : List Event) :
    s.answersOn name (.request stamp r :: events)
      = (s.answer stamp r).2.answersOn name events :=
  List.filterMap_cons_none (if_neg h)

/-- A request on one side that does not name a table makes no difference to it. -/
lemma SameAt.left (h : s.SameAt name s') {r : Request} (hr : name ∉ r.tables) (stamp : Stamp) :
    (s.answer stamp r).2.SameAt name s' where
  settings_eq := (s.next_settings (.request stamp r)).trans h.settings_eq
  table_eq := by rw [get?_answer_of_not_mem hr, h.table_eq]

lemma SameAt.symm (h : s.SameAt name s') : s'.SameAt name s :=
  ⟨h.settings_eq.symm, h.table_eq.symm⟩

lemma SameAt.reset (h : s.SameAt name s') : s.reset.SameAt name s'.reset :=
  ⟨h.settings_eq, rfl⟩

/-- **Stores that agree on a table give the same answers about it** in a run and in a thinner one.
By induction on what was left out. -/
theorem SameAt.answersOn_eq {events events' : List Event} (h : s.SameAt name s')
    (hfocused : ∀ e ∈ events, e.Focused) (hthin : Thinned name events events') :
    s.answersOn name events = s'.answersOn name events' := by
  induction hthin generalizing s s' with
  | nil => rfl
  | kept stamp stamp' r _ ih =>
      obtain ⟨hr, hrest⟩ := List.forall_mem_cons.mp hfocused
      by_cases hname : name ∈ r.tables
      · have hstep := h.answer hr hname stamp stamp'
        rw [answersOn_named hname, answersOn_named hname, hstep.answer_eq, ih hstep.sameAt hrest]
      · rw [answersOn_unnamed hname, answersOn_unnamed hname]
        exact ih ((h.left hname stamp).symm.left hname stamp').symm hrest
  | reset _ ih => exact ih h.reset (List.forall_mem_cons.mp hfocused).2
  | left stamp hr _ ih =>
      rw [answersOn_unnamed hr]
      exact ih (h.left hr stamp) (List.forall_mem_cons.mp hfocused).2

/-- **Tables are isolated.**

* A run and a thinner one, from which any requests are left out that do not name a table, give the
  same answers about the table, stamps apart.
* When a table is created, the answers about it from then on are the same whatever was asked before:
  they follow from its declaration and the later requests that name it. -/
theorem tables_isolated (settings : Settings) (name : String) :
    (∀ events events', (∀ e ∈ events, e.Focused) → Thinned name events events' →
        (new settings).answersOn name events = (new settings).answersOn name events') ∧
      ∀ d before before' later later' stamp stamp' response, d.name = name →
        (((new settings).after before).answer stamp (.createTable d)).1 = .ok response →
          (∀ e ∈ later, e.Focused) → Thinned name later later' →
            ((new settings).after before).answersOn name (.request stamp (.createTable d) :: later)
              = ((new settings).after before').answersOn name
                  (.request stamp' (.createTable d) :: later') := by
  constructor
  · intro events events' hfocused hthin
    have hsame : (new settings).SameAt name (new settings) := ⟨rfl, rfl⟩
    exact hsame.answersOn_eq hfocused hthin
  · rintro d before before' later later' stamp stamp' response rfl haccepted hfocused hthin
    have hname : d.name ∈ (Request.createTable d).tables := List.mem_cons_self
    have hsettings : ((new settings).after before).settings
        = ((new settings).after before').settings := by rw [after_settings, after_settings]
    rcases createTable_cases d with ⟨schema, hlegal, hschema⟩ | ⟨e, hrefused⟩
    · have hstep := sameStep_createTable hsettings hlegal hschema stamp stamp'
      rw [answersOn_named hname, answersOn_named hname, hstep.answer_eq,
        hstep.sameAt.answersOn_eq hfocused hthin]
    · rw [hrefused] at haccepted
      cases haccepted

end Store

namespace Sample

/-- Readings with other requests between them: about another table, about all tables, and a text
that is no statement. -/
def crowded : List Event :=
  [ .request stamp (.createTable { declaration with name := "Others" }),
    .request stamp (.createTable declaration), .request stamp (.listTables ⟨none, none⟩),
    put (reading "1" "first"), .request stamp (.executeStatement "SELECT"),
    .request stamp (.deleteTable "Others"),
    .request stamp (.executeStatement "SELECT * FROM Readings WHERE id = 1.0") ]

/-- The readings alone, at another time. -/
def alone : List Event :=
  [ .request ⟨"8", 1⟩ (.createTable declaration), put (reading "1" "first"),
    .request stamp (.executeStatement "SELECT * FROM Readings WHERE id = 1.0") ]

lemma focused_crowded : ∀ e ∈ crowded, e.Focused := by
  simp only [crowded, List.forall_mem_cons]
  refine ⟨?_, ?_, ?_, ?_, ?_, ?_, ?_, List.forall_mem_nil _⟩
  all_goals exact show List.length _ ≤ 1 by decide +kernel

lemma thinned_crowded : Thinned "Readings" crowded alone :=
  .left _ (by decide) <| .kept _ _ _ <| .left _ (by decide) <| .kept _ _ _ <|
    .left _ (by decide +kernel) <| .left _ (by decide) <| .kept _ _ _ .nil

end Sample

theorem Store.tables_isolated_sample :
    (new {}).answersOn "Readings" Sample.crowded = (new {}).answersOn "Readings" Sample.alone ∧
      Sample.store.answersOn "Readings" (.request Sample.stamp (.createTable Sample.declaration)
          :: Sample.crowded)
        = (new {}).answersOn "Readings" (.request ⟨"8", 1⟩ (.createTable Sample.declaration)
          :: Sample.alone) := by
  obtain ⟨hthinner, hcreated⟩ := tables_isolated {} "Readings"
  refine ⟨hthinner _ _ Sample.focused_crowded Sample.thinned_crowded, ?_⟩
  have haccepted : (Sample.store.answer Sample.stamp (.createTable Sample.declaration)).1
      = .ok (.changedTable ⟨Sample.declaration, .active, Sample.stamp,
          "arn:aws:dynamodb:us-east-1:000000000000:table/Readings", 0, 0⟩) := by decide +kernel
  exact hcreated Sample.declaration Sample.events [] _ _ _ _ _ rfl haccepted
    Sample.focused_crowded Sample.thinned_crowded

end ItemStore
