import ItemStore.Proofs.WriteRequests

/-!
# Requests about one table

Most requests are about one table.  They look it up before all else, and what they answer depends on
what they find in it.  Where a table came from is told by its stamp, which shows in descriptions and
nowhere else.

* `Table.unstamped`, `Response.unstamped` — tables and responses without stamps.
* `Answer.MissesNoTable` — a step that never fails for want of a table;
  **`Catalog.require_bind_eq_error`** — a lookup, with such a step behind it, fails for want of a
  table exactly where there is none.
* `Request.target?` — the table that a request is to find.
* **`Request.exists_reply`** — what a request is answered follows from its table, stamp apart.
-/

namespace ItemStore

open Answer

/-! ## Stamps -/

/-- A stamp like any other. -/
def Stamp.blank : Stamp := ⟨"", 0⟩

def Table.unstamped (t : Table) : Table :=
  { t with stamp := .blank }

/-- A response without the stamp of a table. -/
def Response.unstamped : Response → Response
  | .changedTable t => .changedTable { t with stamp := .blank }
  | .table t => .table { t with stamp := .blank }
  | r => r

namespace Table

variable {t t' : Table}

/-- Tables that differ in their stamps at most are one table with two stamps. -/
lemma exists_of_unstamped (h : t.unstamped = t'.unstamped) : ∃ stamp, t' = { t with stamp } := by
  obtain ⟨hschema, hregion, -, hrows⟩ := Table.mk.inj h
  obtain ⟨schema, region, stamp, rows⟩ := t'
  cases hschema
  cases hregion
  cases hrows
  exact ⟨stamp, rfl⟩

/-- The stamp makes no difference to a write. -/
lemma apply_unstamped (h : t.unstamped = t'.unstamped) (w : Write) :
    SameOutcome (fun x y => x.1 = y.1 ∧ x.2.unstamped = y.2.unstamped) (t.apply w)
      (t'.apply w) := by
  obtain ⟨stamp, rfl⟩ := exists_of_unstamped h
  cases w with
  | put item =>
      rw [apply, apply, attempt_store, attempt_store]
      exact .bind_same _ fun _ => .bind_same _ fun _ => .ok ⟨rfl, rfl⟩
  | remove key =>
      rw [apply, apply, attempt_remove, attempt_remove]
      exact .bind_same _ fun _ => .bind_same _ fun _ => .ok ⟨rfl, rfl⟩
  | update key updates =>
      rw [apply, apply, attempt_amend, attempt_amend]
      exact SameOutcome.map (R := fun x y => x.1 = y.1 ∧ x.2.unstamped = y.2.unstamped)
        (.bind_same _ fun _ => .bind_same _ fun _ => .bind_same _ fun _ => .ok ⟨rfl, rfl⟩)
        fun _ _ hxy => ⟨by rw [hxy.1], hxy.2⟩

lemma respond_unstamped (h : t.unstamped = t'.unstamped) (returned : Option Returned) (w : Write) :
    SameOutcome (fun x y => x.1 = y.1 ∧ x.2.unstamped = y.2.unstamped) (t.respond returned w)
      (t'.respond returned w) :=
  .bind_same _ fun _ => (apply_unstamped h w).bind fun _ _ hxy => .ok ⟨by rw [hxy.1], hxy.2⟩

end Table

/-! ## Failing for want of a table -/

namespace Answer

/-- A step that never fails for want of a table. -/
def MissesNoTable {α : Type} (x : Except Fault α) : Prop :=
  ∀ e, x = .error e → e.code ≠ .tableNotFound

namespace MissesNoTable

variable {α β : Type} {x : Except Fault α}

lemma ok (a : α) : MissesNoTable (.ok a : Except Fault α) := nofun

lemma error {e : Fault} (he : e.code ≠ .tableNotFound) :
    MissesNoTable (.error e : Except Fault α) := by
  rintro _ ⟨⟩
  exact he

lemma refuse (fault : RequestFault) : MissesNoTable (ItemStore.refuse fault : Except Fault α) :=
  error nofun

lemma bind {f : α → Except Fault β} (hx : MissesNoTable x) (hf : ∀ a, MissesNoTable (f a)) :
    MissesNoTable (x >>= f) := by
  cases x with
  | error e => exact error (hx e rfl)
  | ok a => exact hf a

lemma map (f : α → β) (hx : MissesNoTable x) : MissesNoTable (x.map f) := by
  cases x with
  | error e => exact error (hx e rfl)
  | ok a => exact ok (f a)

lemma liftKey (y : Except KeyFault α) : MissesNoTable (Answer.liftKey y) := by
  cases y with
  | error e => exact error nofun
  | ok a => exact ok a

lemma liftOperator (y : Except UnsupportedOperator α) : MissesNoTable (Answer.liftOperator y) := by
  cases y with
  | error e => exact error nofun
  | ok a => exact ok a

/-! ### Checks -/

lemma checkNumerals (values : List Value) : MissesNoTable (Answer.checkNumerals values) := by
  rw [Answer.checkNumerals]
  split
  · exact refuse _
  · exact ok _

lemma checkAttributes (attributes : List String) :
    MissesNoTable (Answer.checkAttributes attributes) := by
  rw [Answer.checkAttributes]
  split
  · exact refuse _
  · exact ok _

lemma checkKey (keys : KeySchema) (key : Item) : MissesNoTable (Answer.checkKey keys key) := by
  rw [Answer.checkKey]
  split
  · exact checkNumerals _
  · exact refuse _

lemma checkOperators (conditions : List Condition) :
    MissesNoTable (Answer.checkOperators conditions) := by
  rw [Answer.checkOperators]
  split
  · exact error (by rintro ⟨⟩)
  · exact ok _

lemma checkConditions (conditions : List Condition) :
    MissesNoTable (Answer.checkConditions conditions) :=
  (checkOperators conditions).bind fun _ => checkNumerals _

lemma checkReturned (returned : Option Returned) :
    MissesNoTable (Answer.checkReturned returned) := by
  rw [Answer.checkReturned.eq_def]
  split
  all_goals first | exact ok _ | exact refuse _

/-! ### Writes -/

lemma change (keys : KeySchema) (name : String) (u : AttributeUpdate) :
    MissesNoTable (u.change keys name) := by
  rw [AttributeUpdate.change]
  split
  · exact refuse _
  split
  · exact (checkNumerals _).bind fun _ => ok _
  · exact refuse _
  · exact ok _
  · exact refuse _
  · exact error (by rintro ⟨⟩)

lemma changesOf (keys : KeySchema) : ∀ updates : List (String × AttributeUpdate),
    MissesNoTable (ItemStore.changesOf keys updates)
  | [] => ok _
  | (name, u) :: rest => (change keys name u).bind fun _ => (changesOf keys rest).bind fun _ => ok _

lemma apply (t : Table) (w : Write) : MissesNoTable (t.apply w) := by
  cases w with
  | put item =>
      rw [Table.apply, Table.attempt_store]
      exact (checkNumerals _).bind fun _ => (liftKey _).bind fun _ => ok _
  | remove key =>
      rw [Table.apply, Table.attempt_remove]
      exact (checkKey _ _).bind fun _ => (liftKey _).bind fun _ => ok _
  | update key updates =>
      rw [Table.apply, Table.attempt_amend]
      exact ((checkKey _ _).bind fun _ => (changesOf _ _).bind fun _ =>
        (liftKey _).bind fun _ => ok _).map _

lemma respond (t : Table) (returned : Option Returned) (w : Write) :
    MissesNoTable (t.respond returned w) := by
  refine bind ?_ fun _ => (apply t w).bind fun _ => ok _
  cases w with
  | put _ | remove _ => exact checkReturned _
  | update _ _ => exact ok _

/-! ### Reads -/

lemma find (t : Table) (key : Item) (attributes : List String) :
    MissesNoTable (t.find key attributes) :=
  (checkKey _ _).bind fun _ => (liftKey _).bind fun _ => ok _

lemma keysFor (t : Table) (index : Option String) : MissesNoTable (t.keysFor index) := by
  rw [Table.keysFor.eq_def]
  split
  · exact ok _
  split
  · exact ok _
  · exact refuse _

lemma hashValue (keys : KeySchema) (conditions : NameList Condition) :
    MissesNoTable (keys.hashValue conditions) := by
  rw [KeySchema.hashValue]
  split
  · exact refuse _
  split
  · exact ok _
  · exact refuse _

lemma checkRange (keys : KeySchema) (name : String) (c : Condition) :
    MissesNoTable (keys.checkRange name c) := by
  rw [KeySchema.checkRange]
  split_ifs
  all_goals first | exact ok _ | exact refuse _

lemma rangeCondition (keys : KeySchema) : ∀ conditions : List (String × Condition),
    MissesNoTable (keys.rangeCondition conditions)
  | [] => ok _
  | (name, c) :: rest => by
      rw [KeySchema.rangeCondition]
      split
      · exact rangeCondition keys rest
      · exact (checkRange keys name c).bind fun _ => (rangeCondition keys rest).bind fun _ => ok _

lemma keyQuery (keys : KeySchema) (conditions : NameList Condition) :
    MissesNoTable (keys.keyQuery conditions) :=
  (hashValue _ _).bind fun _ => (rangeCondition _ _).bind fun _ => ok _

end MissesNoTable

end Answer

/-- A request that looks a table up first, and then never fails for want of one, fails for want of a
table where there is none and nowhere else. -/
lemma Catalog.require_bind_eq_error {c : Catalog} {name : String}
    {f : Table → Except Fault Response} (hf : ∀ t, MissesNoTable (f t)) :
    (c.require name >>= f = .error (.tableNotFound name) ↔ c.get? name = none) ∧
      ∀ e, c.require name >>= f = .error e → (e.code = .tableNotFound ↔ c.get? name = none) := by
  rw [Catalog.require]
  cases c.get? name with
  | none =>
      refine ⟨iff_of_true rfl rfl, ?_⟩
      rintro _ ⟨⟩
      exact iff_of_true rfl rfl
  | some t =>
      have hsome : ¬some t = none := Option.some_ne_none t
      exact ⟨iff_of_false (fun h => hf t _ h rfl) hsome, fun e h => iff_of_false (hf t e h) hsome⟩

/-! ## Requests about one table -/

/-- The table that a request is to find, if there is one that it cannot do without.  A statement
names its table in its text, if it can be read.  A batch may name many. -/
def Request.target? : Request → Option String
  | .deleteTable name | .describeTable name => some name
  | .putItem r => some r.table
  | .getItem r => some r.table
  | .updateItem r => some r.table
  | .deleteItem r => some r.table
  | .query q => some q.table
  | .scan r => some r.table
  | .executeStatement text =>
    match Select.read text with
    | .ok s => some s.table
    | .error _ => none
  | .createTable _ | .listTables _ | .batchGetItem _ | .batchWriteItem _ => none

/-- What a request is answered when its table is `t` is `f t`. -/
structure Request.Reply (r : Request) (name : String) (f : Table → Except Fault Response) :
    Prop where
  answer_eq : ∀ (s : Store) (stamp : Stamp), (s.answer stamp r).1 = s.catalog.require name >>= f
  misses : ∀ t, MissesNoTable (f t)
  unstamped : ∀ t t', t.unstamped = t'.unstamped →
    SameOutcome (fun x y => x.unstamped = y.unstamped) (f t) (f t')

lemma Write.exists_reply (name : String) (returned : Option Returned) (w : Write) :
    ∃ f, (w.request name returned).Reply name f :=
  ⟨fun t => (t.respond returned w).map Prod.fst,
    { answer_eq := fun s stamp => s.answer_request_fst stamp name returned w
      misses := fun t => (MissesNoTable.respond t returned w).map _
      unstamped := fun t t' ht => (Table.respond_unstamped ht returned w).map fun _ _ hxy => by
        rw [hxy.1] }⟩

namespace Request

variable {r : Request} {name : String} {f : Table → Except Fault Response}

/-- A reply that does not look at the stamp of a table. -/
lemma reply_of_stampless
    (hanswer : ∀ (s : Store) (stamp : Stamp),
      (s.answer stamp r).1 = s.catalog.require name >>= f)
    (hmisses : ∀ t, MissesNoTable (f t)) (hstamp : ∀ t stamp, f { t with stamp } = f t) :
    r.Reply name f where
  answer_eq := hanswer
  misses := hmisses
  unstamped t t' ht := by
    obtain ⟨stamp, rfl⟩ := Table.exists_of_unstamped ht
    rw [hstamp t stamp]
    refine .refl (fun _ => ?_) _
    rfl

lemma deleteTable_reply (name : String) :
    (deleteTable name).Reply name fun t => .ok (.changedTable (t.describe .deleting)) where
  answer_eq s stamp := by
    change (s.writing (Answer.deleteTable name)).1 = _
    rw [Store.writing_eq (Answer.deleteTable_atomic name), Answer.attempt_deleteTable]
    cases s.catalog.require name <;> rfl
  misses _ := .ok _
  unstamped t t' ht := by
    obtain ⟨stamp, rfl⟩ := Table.exists_of_unstamped ht
    exact .ok rfl

lemma describeTable_reply (name : String) :
    (describeTable name).Reply name fun t => .ok (.table (t.describe .active)) where
  answer_eq _ _ := rfl
  misses _ := .ok _
  unstamped t t' ht := by
    obtain ⟨stamp, rfl⟩ := Table.exists_of_unstamped ht
    exact .ok rfl

lemma exists_getItem_reply (r : GetItem) : ∃ f, (getItem r).Reply r.table f :=
  ⟨_, reply_of_stampless (fun _ _ => rfl) (fun t => (MissesNoTable.checkAttributes _).bind fun _ =>
    (MissesNoTable.find t _ _).bind fun _ => .ok _) fun _ _ => rfl⟩

lemma exists_query_reply (q : Query) : ∃ f, (query q).Reply q.table f :=
  ⟨_, reply_of_stampless (fun _ _ => rfl) (fun t => (MissesNoTable.checkAttributes _).bind fun _ =>
    (MissesNoTable.keysFor t _).bind fun _ => (MissesNoTable.checkConditions _).bind fun _ =>
    (MissesNoTable.keyQuery _ _).bind fun _ => (MissesNoTable.liftOperator _).bind fun _ =>
    (MissesNoTable.liftOperator _).bind fun _ => .ok _) fun _ _ => rfl⟩

lemma exists_scan_reply (r : Scan) : ∃ f, (scan r).Reply r.table f :=
  ⟨_, reply_of_stampless (fun _ _ => rfl) (fun _ => (MissesNoTable.checkAttributes _).bind fun _ =>
    (MissesNoTable.checkConditions _).bind fun _ =>
    (MissesNoTable.liftOperator _).bind fun _ => .ok _) fun _ _ => rfl⟩

/-- A statement looks its table up once it has been read. -/
lemma exists_statement_reply {text : String} {statement : Select}
    (hread : Select.read text = .ok statement) :
    ∃ f, (executeStatement text).Reply statement.table f := by
  obtain ⟨f, hselect, hmisses, hstamp⟩ : ∃ f : Table → Except Fault (List Item),
      (∀ c, select statement c = c.require statement.table >>= f) ∧
        (∀ t, MissesNoTable (f t)) ∧ ∀ t stamp, f { t with stamp } = f t :=
    ⟨_, fun _ => rfl, fun _ => (MissesNoTable.checkOperators _).bind fun _ =>
      (MissesNoTable.liftOperator _).bind fun _ => .ok _, fun _ _ => rfl⟩
  refine ⟨fun t => f t >>= fun items => .ok (.selected items), reply_of_stampless (fun s _ => ?_)
    (fun t => (hmisses t).bind fun _ => .ok _) fun t stamp => by rw [hstamp t stamp]⟩
  calc Answer.executeStatement text s.catalog
      = select statement s.catalog >>= fun items => .ok (.selected items) := by
        rw [Answer.executeStatement, hread]
        rfl
    _ = s.catalog.require statement.table
          >>= fun t => f t >>= fun items => .ok (.selected items) := by
        rw [hselect, bind_assoc]

/-- **The table of a request is looked up before all else**, and all that is answered follows from
it: when it is there nothing fails for want of a table, and its stamp makes no difference. -/
theorem exists_reply (h : r.target? = some name) : ∃ f, r.Reply name f := by
  cases r with
  | createTable _ | listTables _ | batchGetItem _ | batchWriteItem _ => cases h
  | deleteTable _ =>
      cases h
      exact ⟨_, deleteTable_reply name⟩
  | describeTable _ =>
      cases h
      exact ⟨_, describeTable_reply name⟩
  | putItem r =>
      cases h
      exact Write.exists_reply r.table r.returned (.put r.item)
  | updateItem r =>
      cases h
      exact Write.exists_reply r.table r.returned (.update r.key r.updates)
  | deleteItem r =>
      cases h
      exact Write.exists_reply r.table r.returned (.remove r.key)
  | getItem r =>
      cases h
      exact exists_getItem_reply r
  | query q =>
      cases h
      exact exists_query_reply q
  | scan r =>
      cases h
      exact exists_scan_reply r
  | executeStatement text =>
      rw [target?] at h
      split at h
      · rename_i statement hread
        cases h
        exact exists_statement_reply hread
      · cases h

end Request

end ItemStore
