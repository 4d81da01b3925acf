import ItemStore.Proofs.Replies
import Mathlib.Data.String.Basic

/-!
# The life of a table

A table is there from the request that creates it until it is dropped, by a request or by a reset.
Nothing else makes one and nothing else takes one away; writes change its items and reads do not
change it at all.  So what a client has seen of a run tells which tables there are and how each of
them was declared.

* `LegalName` — the names that tables may have.
* `Seen`, `Store.watch` — what is seen of a run: the requests with their answers, and the resets.
* `Seen.CreatedThen` — a table is created, and what is seen from then on is of some kind.
* **`Store.fate`** — what one event makes of the table of a name.
* **`Store.table_lifecycle`** — which tables there are after a run, what they are like, and which
  requests fail because there is none.
-/

namespace ItemStore

open Answer

/-! ## Names of tables -/

/-- A name that tables may have. -/
structure LegalName (name : String) : Prop where
  length_ge : 3 ≤ name.length
  length_le : name.length ≤ 255
  char : ∀ c ∈ name.toList, c.isAlphanum = true ∨ c = '.' ∨ c = '_' ∨ c = '-'

lemma utf8Size_of_isTableNameChar {c : Char} (h : isTableNameChar c = true) : c.utf8Size = 1 := by
  rw [Char.utf8Size_eq_one_iff]
  simp only [isTableNameChar, Char.isAlphanum, Char.isAlpha, Char.isUpper, Char.isLower,
    Char.isDigit, Bool.or_eq_true, Bool.and_eq_true, decide_eq_true_eq, beq_iff_eq] at h
  rcases h with ((((⟨-, h⟩ | ⟨-, h⟩) | ⟨-, h⟩) | rfl) | rfl) | rfl
  · exact UInt32.le_trans h (by decide)
  · exact UInt32.le_trans h (by decide)
  · exact UInt32.le_trans h (by decide)
  all_goals decide

/-- Characters of ASCII take one byte each, so the length that is checked is that of the text. -/
lemma utf8Len_eq_length : ∀ {chars : List Char}, chars.all isTableNameChar = true →
    String.utf8Len chars = chars.length
  | [], _ => rfl
  | c :: rest, h => by
      obtain ⟨hc, hrest⟩ := List.forall_mem_cons.mp (List.all_eq_true.mp h)
      rw [String.utf8Len_cons, utf8Len_eq_length (List.all_eq_true.mpr hrest),
        utf8Size_of_isTableNameChar hc, List.length_cons]

/-- The names that are accepted for new tables are the legal ones. -/
theorem LegalName.of_checkTableName {name : String} (h : checkTableName name = .ok ()) :
    LegalName name := by
  rw [checkTableName] at h
  split at h
  · cases h
  rename_i hsize
  split at h
  · rename_i hchars
    rw [← String.utf8Len_toList, utf8Len_eq_length hchars, String.length_toList] at hsize
    simp only [Bool.or_eq_true, decide_eq_true_eq, not_or, not_lt] at hsize
    refine ⟨hsize.1, hsize.2, fun c hc => ?_⟩
    have hchar := List.all_eq_true.mp hchars c hc
    simpa only [isTableNameChar, Bool.or_eq_true, beq_iff_eq, or_assoc] using hchar
  · cases h

/-! ## What is seen of a run -/

/-- What is seen of an event: a request with its answer, or a reset. -/
inductive Seen where
  | answered (request : Request) (answer : Except Fault Response)
  | reset

namespace Seen

/-- A table is created as it was declared. -/
def Creates (d : TableDeclaration) : Seen → Prop
  | answered request answer => request = .createTable d ∧ answer.isOk = true
  | reset => False

/-- A table is dropped: it is deleted, or everything is. -/
def Drops (name : String) : Seen → Prop
  | answered request answer => request = .deleteTable name ∧ answer.isOk = true
  | reset => True

/-- A table is created, and all that is seen later is quiet. -/
def CreatedThen (d : TableDeclaration) (quiet : Seen → Prop) (seen : List Seen) : Prop :=
  ∃ before created later, seen = before ++ created :: later ∧ created.Creates d ∧
    ∀ e ∈ later, quiet e

/-- A table of a name is created, and not dropped later. -/
def Stands (name : String) (d : TableDeclaration) (seen : List Seen) : Prop :=
  d.name = name ∧ CreatedThen d (fun e => ¬ e.Drops name) seen

/-- A table of a name is created, and later it is neither dropped nor created again. -/
def Latest (name : String) (d : TableDeclaration) (seen : List Seen) : Prop :=
  d.name = name ∧
    CreatedThen d (fun e => ¬ e.Drops name ∧ ∀ d', e.Creates d' → d'.name ≠ name) seen

variable {name : String} {d : TableDeclaration} {quiet quiet' : Seen → Prop} {seen : List Seen}
  {e : Seen}

lemma Creates.not_drops (h : e.Creates d) : ¬ e.Drops name := by
  cases e with
  | answered request answer =>
      rintro ⟨hdelete, -⟩
      cases h.1.symm.trans hdelete
  | reset => cases h

lemma createdThen_concat :
    CreatedThen d quiet (seen ++ [e]) ↔ e.Creates d ∨ CreatedThen d quiet seen ∧ quiet e := by
  constructor
  · rintro ⟨before, created, later, hseen, hcreated, hlater⟩
    rcases List.eq_nil_or_concat' later with rfl | ⟨front, last, rfl⟩
    · obtain ⟨-, hlast⟩ := List.append_inj' hseen rfl
      cases hlast
      exact Or.inl hcreated
    · rw [← List.cons_append, ← List.append_assoc] at hseen
      obtain ⟨rfl, hlast⟩ := List.append_inj' hseen rfl
      cases hlast
      rw [List.forall_mem_append] at hlater
      exact Or.inr ⟨⟨before, created, front, rfl, hcreated, hlater.1⟩,
        hlater.2 e List.mem_cons_self⟩
  · rintro (hcreated | ⟨⟨before, created, later, rfl, hcreated, hlater⟩, he⟩)
    · exact ⟨seen, e, [], rfl, hcreated, List.forall_mem_nil _⟩
    · refine ⟨before, created, later ++ [e], by simp, hcreated, ?_⟩
      exact List.forall_mem_append.mpr ⟨hlater, List.forall_mem_singleton.mpr he⟩

lemma CreatedThen.imp (h : CreatedThen d quiet seen) (himp : ∀ e, quiet e → quiet' e) :
    CreatedThen d quiet' seen := by
  obtain ⟨before, created, later, hseen, hcreated, hlater⟩ := h
  exact ⟨before, created, later, hseen, hcreated, fun e he => himp e (hlater e he)⟩

lemma Latest.stands (h : Latest name d seen) : Stands name d seen :=
  ⟨h.1, h.2.imp fun _ he => he.1⟩

end Seen

namespace Store

variable {s : Store}

/-- What is seen of an event. -/
def seen (s : Store) : Event → Seen
  | .request stamp request => .answered request (s.answer stamp request).1
  | .reset => .reset

/-- What is seen of a run. -/
def watch (s : Store) : List Event → List Seen
  | [] => []
  | e :: rest => s.seen e :: (s.next e).watch rest

lemma watch_append (s : Store) (events more : List Event) :
    s.watch (events ++ more) = s.watch events ++ (s.after events).watch more := by
  induction events generalizing s with
  | nil => rfl
  | cons e rest ih => exact congrArg (s.seen e :: ·) (ih (s.next e))

lemma after_concat (s : Store) (events : List Event) (e : Event) :
    s.after (events ++ [e]) = (s.after events).next e := by
  rw [after, List.foldl_append, after]
  rfl

lemma after_settings (s : Store) (events : List Event) :
    (s.after events).settings = s.settings := by
  induction events generalizing s with
  | nil => rfl
  | cons e rest ih => exact (ih (s.next e)).trans (s.next_settings e)

/-! ## Creating and dropping -/

/-- A declaration is accepted if its name is legal and it makes sense, whatever tables there are. -/
lemma answer_createTable_of_ok {d : TableDeclaration} {schema : TableSchema}
    (hname : checkTableName d.name = .ok ()) (hschema : TableSchema.ofDeclaration d = .ok schema)
    (s : Store) (stamp : Stamp) :
    s.answer stamp (.createTable d)
      = (.ok (.changedTable ((Table.new s.settings stamp schema).describe .active)),
          { s with catalog := s.catalog.insert d.name (Table.new s.settings stamp schema) }) := by
  show s.writing (createTable s.settings stamp d) = _
  rw [writing_eq (createTable_atomic _ _ _), attempt_createTable, hname, hschema,
    ← TableSchema.name_eq hschema]
  rfl

/-- A declaration that is not accepted is refused everywhere, and leaves the store alone. -/
lemma createTable_cases (d : TableDeclaration) :
    (∃ schema, checkTableName d.name = .ok () ∧ TableSchema.ofDeclaration d = .ok schema) ∨
      ∃ e, ∀ (s : Store) (stamp : Stamp), s.answer stamp (.createTable d) = (.error e, s) := by
  cases hname : checkTableName d.name with
  | error e =>
      refine Or.inr ⟨e, fun s stamp => ?_⟩
      show s.writing (createTable s.settings stamp d) = _
      rw [writing_eq (createTable_atomic _ _ _), attempt_createTable, hname]
      rfl
  | ok _ =>
      cases hschema : TableSchema.ofDeclaration d with
      | error e =>
          refine Or.inr ⟨.schemaFault e, fun s stamp => ?_⟩
          show s.writing (createTable s.settings stamp d) = _
          rw [writing_eq (createTable_atomic _ _ _), attempt_createTable, hname, hschema]
          rfl
      | ok schema => exact Or.inl ⟨schema, rfl, rfl⟩

/-- A table is deleted if it is there. -/
lemma answer_deleteTable (s : Store) (stamp : Stamp) (name : String) :
    (∃ t, s.catalog.get? name = some t ∧
      s.answer stamp (.deleteTable name)
        = (.ok (.changedTable (t.describe .deleting)),
            { s with catalog := s.catalog.erase name })) ∨
    ∃ e, s.answer stamp (.deleteTable name) = (.error e, s) := by
  show (∃ t, _ ∧ s.writing (deleteTable name) = _) ∨ ∃ e, s.writing (deleteTable name) = _
  rw [writing_eq (deleteTable_atomic name), attempt_deleteTable, Catalog.require]
  cases hget : s.catalog.get? name with
  | none => exact Or.inr ⟨.tableNotFound name, rfl⟩
  | some t => exact Or.inl ⟨t, rfl, rfl⟩

/-- What an event makes of the table of a name. -/
inductive Fate (s : Store) (name : String) (e : Event) : Prop where
  | created {d : TableDeclaration} {stamp : Stamp} {schema : TableSchema}
      (hseen : (s.seen e).Creates d) (hname : d.name = name) (hlegal : LegalName name)
      (hschema : TableSchema.ofDeclaration d = .ok schema)
      (hget : (s.next e).catalog.get? name = some (Table.new s.settings stamp schema))
  | dropped (hseen : (s.seen e).Drops name) (hget : (s.next e).catalog.get? name = none)
  | kept (hcreates : ∀ d, (s.seen e).Creates d → d.name ≠ name) (hdrops : ¬ (s.seen e).Drops name)
      (hget : ((s.next e).catalog.get? name).map Table.bare = (s.catalog.get? name).map Table.bare)

/-- A request that neither creates tables nor deletes them, and changes nothing but items. -/
lemma Fate.of_sameBare {name : String} {stamp : Stamp} {r : Request}
    (hcreate : ∀ d, r ≠ .createTable d) (hdelete : ∀ name, r ≠ .deleteTable name)
    (h : Catalog.SameBare (s.answer stamp r).2.catalog s.catalog) :
    s.Fate name (.request stamp r) :=
  .kept (fun d hd => absurd hd.1 (hcreate d)) (fun hdrops => hdelete name hdrops.1) (h name)

lemma fate_createTable (s : Store) (name : String) (stamp : Stamp) (d : TableDeclaration) :
    s.Fate name (.request stamp (.createTable d)) := by
  have hdrops : ¬ (s.seen (.request stamp (.createTable d))).Drops name := nofun
  rcases createTable_cases d with ⟨schema, hlegal, hschema⟩ | ⟨e, h⟩
  · have h := answer_createTable_of_ok hlegal hschema s stamp
    have hcatalog : (s.next (.request stamp (.createTable d))).catalog
        = s.catalog.insert d.name (Table.new s.settings stamp schema) := by rw [next, h]
    by_cases hname : name = d.name
    · subst hname
      have hget : (s.next (.request stamp (.createTable d))).catalog.get? d.name
          = some (Table.new s.settings stamp schema) := by
        rw [hcatalog, NameMap.get?_insert, if_pos rfl]
      exact .created ⟨rfl, by rw [h]; rfl⟩ rfl (.of_checkTableName hlegal) hschema hget
    · refine .kept ?_ hdrops (by rw [hcatalog, NameMap.get?_insert, if_neg hname])
      rintro _ ⟨⟨⟩, -⟩
      exact Ne.symm hname
  · refine .kept ?_ hdrops (by rw [next, h])
    rintro _ ⟨-, hok⟩
    rw [h] at hok
    cases hok

lemma fate_deleteTable (s : Store) (name : String) (stamp : Stamp) (table : String) :
    s.Fate name (.request stamp (.deleteTable table)) := by
  have hcreates : ∀ d, (s.seen (.request stamp (.deleteTable table))).Creates d → d.name ≠ name :=
    nofun
  rcases s.answer_deleteTable stamp table with ⟨t, -, h⟩ | ⟨e, h⟩
  · have hcatalog : (s.next (.request stamp (.deleteTable table))).catalog
        = s.catalog.erase table := by rw [next, h]
    by_cases hname : name = table
    · subst hname
      exact .dropped ⟨rfl, by rw [h]; rfl⟩ (by rw [hcatalog, NameMap.get?_erase, if_pos rfl])
    · refine .kept hcreates ?_ (by rw [hcatalog, NameMap.get?_erase, if_neg hname])
      rintro ⟨⟨⟩, -⟩
      exact hname rfl
  · refine .kept hcreates ?_ (by rw [next, h])
    rintro ⟨-, hok⟩
    rw [h] at hok
    cases hok

/-- **An event creates the table of a name, drops it, or changes no more than its items.** -/
theorem fate (s : Store) (name : String) (e : Event) : s.Fate name e := by
  have hwrite : ∀ (stamp : Stamp) (table : String) (returned : Option Returned) (w : Write),
      s.Fate name (.request stamp (w.request table returned)) := fun stamp table returned w =>
    .of_sameBare (by cases w <;> nofun) (by cases w <;> nofun)
      (s.answer_request_bare stamp table returned w)
  cases e with
  | reset => exact .dropped trivial rfl
  | request stamp r =>
      cases r with
      | createTable d => exact s.fate_createTable name stamp d
      | deleteTable table => exact s.fate_deleteTable name stamp table
      | putItem r => exact hwrite stamp r.table r.returned (.put r.item)
      | updateItem r => exact hwrite stamp r.table r.returned (.update r.key r.updates)
      | deleteItem r => exact hwrite stamp r.table r.returned (.remove r.key)
      | batchWriteItem b => exact .of_sameBare nofun nofun (s.answer_batchWriteItem_bare stamp b)
      | describeTable _ | listTables _ | getItem _ | query _ | scan _ | batchGetItem _
        | executeStatement _ => exact .of_sameBare nofun nofun fun _ => rfl

end Store

/-! ## Which tables there are -/

/-- A table as it stands under a name after it was declared.  The rows are stored by the key that
queries go by. -/
structure Table.DeclaredAs (t : Table) (name : String) (d : TableDeclaration) : Prop where
  schema : TableSchema.ofDeclaration d = .ok t.schema
  declaration_eq : t.schema.declaration = d
  name_eq : t.schema.name = name
  legal : LegalName name
  keys_eq : t.rows.keys = t.schema.primary
  query_keys : t.keysFor none = .ok t.rows.keys

/-- The declaration of an accepted schema is kept with it. -/
lemma TableSchema.declaration_eq {d : TableDeclaration} {s : TableSchema}
    (h : ofDeclaration d = .ok s) : s.declaration = d :=
  (ofDeclaration_eq_ok.mp h).1

lemma Table.DeclaredAs.of_new {settings : Settings} {stamp : Stamp} {d : TableDeclaration}
    {schema : TableSchema} (hlegal : LegalName d.name)
    (hschema : TableSchema.ofDeclaration d = .ok schema) :
    (Table.new settings stamp schema).DeclaredAs d.name d where
  schema := hschema
  declaration_eq := TableSchema.declaration_eq hschema
  name_eq := TableSchema.name_eq hschema
  legal := hlegal
  keys_eq := rfl
  query_keys := rfl

/-- A table stays as it was declared whatever becomes of its items. -/
lemma Table.DeclaredAs.of_bare {t t' : Table} {name : String} {d : TableDeclaration}
    (h : t.DeclaredAs name d) (hbare : t'.bare = t.bare) : t'.DeclaredAs name d := by
  obtain ⟨rows, hrows, rfl⟩ := Table.exists_of_bare hbare.symm
  have hkeys := Rows.keys_eq_of_bare hrows
  exact
    { h with
      keys_eq := hkeys.symm.trans h.keys_eq
      query_keys := hkeys ▸ h.query_keys }

namespace Store

variable {settings : Settings} {events : List Event} {s : Store} {name : String} {t : Table}

/-- A table that is there is as it was last declared.  By induction on the run. -/
theorem exists_latest (h : ((new settings).after events).catalog.get? name = some t) :
    ∃ d, Seen.Latest name d ((new settings).watch events) ∧ t.DeclaredAs name d := by
  induction events using List.reverseRecOn generalizing t with
  | nil => cases h
  | append_singleton events e ih =>
      rw [after_concat] at h
      simp only [Seen.Latest, watch_append, watch, Seen.createdThen_concat]
      cases fate ((new settings).after events) name e with
      | @created d _ _ hseen hname hlegal hschema hget =>
          obtain rfl := Option.some.inj (h.symm.trans hget)
          subst hname
          exact ⟨d, ⟨rfl, Or.inl hseen⟩, .of_new hlegal hschema⟩
      | dropped _ hget => cases h.symm.trans hget
      | kept hcreates hdrops hget =>
          rw [h, Option.map_some] at hget
          obtain ⟨t₀, ht₀, hbare⟩ := Option.map_eq_some_iff.mp hget.symm
          obtain ⟨d, ⟨hname, hlatest⟩, hdeclared⟩ := ih ht₀
          exact ⟨d, ⟨hname, Or.inr ⟨hlatest, hdrops, hcreates⟩⟩, hdeclared.of_bare hbare.symm⟩

/-- A table that was created and not dropped since is there.  By induction on the run. -/
theorem exists_of_stands {d : TableDeclaration}
    (h : Seen.Stands name d ((new settings).watch events)) :
    ∃ t, ((new settings).after events).catalog.get? name = some t := by
  obtain ⟨hname, h⟩ := h
  induction events using List.reverseRecOn with
  | nil =>
      obtain ⟨before, _, _, hseen, _⟩ := h
      cases before <;> cases hseen
  | append_singleton events e ih =>
      rw [after_concat]
      rw [watch_append, watch, watch, Seen.createdThen_concat] at h
      cases fate ((new settings).after events) name e with
      | created _ _ _ _ hget => exact ⟨_, hget⟩
      | dropped hseen _ =>
          rcases h with hcreated | ⟨_, hdrops⟩
          · exact absurd hseen hcreated.not_drops
          · exact absurd hseen hdrops
      | kept hcreates _ hget =>
          rcases h with hcreated | ⟨hbefore, _⟩
          · exact absurd hname (hcreates d hcreated)
          · obtain ⟨t, ht⟩ := ih hbefore
            rw [ht, Option.map_some] at hget
            obtain ⟨t', ht', -⟩ := Option.map_eq_some_iff.mp hget
            exact ⟨t', ht'⟩

/-- **The life of a table**, over every run.

* A table of a name is there if and only if one was created, and not deleted since, and there was no
  reset since.
* A request that is to find a table fails for want of it if and only if there is none, whatever else
  is wrong with the request.
* A name that has no table gets one from a request that creates it and from nothing else.
* A table is as it was last declared: its schema, with its definitions and indexes, is the one of
  the latest creation; it stands under its own name, and the name is legal; and the key by which its
  rows are stored is the one that queries without an index go by. -/
theorem table_lifecycle (hs : (new settings).after events = s) (name : String) :
    ((∃ t, s.catalog.get? name = some t) ↔
        ∃ d, Seen.Stands name d ((new settings).watch events)) ∧
      (∀ r : Request, r.target? = some name → ∀ stamp,
        ((s.answer stamp r).1 = .error (.tableNotFound name) ↔ s.catalog.get? name = none) ∧
          ∀ e, (s.answer stamp r).1 = .error e →
            (e.code = .tableNotFound ↔ s.catalog.get? name = none)) ∧
      (∀ e t, s.catalog.get? name = none → (s.next e).catalog.get? name = some t →
        ∃ d, d.name = name ∧ (s.seen e).Creates d) ∧
      ∀ t, s.catalog.get? name = some t →
        ∃ d, Seen.Latest name d ((new settings).watch events) ∧ t.DeclaredAs name d := by
  subst hs
  refine ⟨⟨?_, ?_⟩, fun r hr stamp => ?_, fun e t hnone hsome => ?_, fun t => exists_latest⟩
  · rintro ⟨t, ht⟩
    obtain ⟨d, hlatest, -⟩ := exists_latest ht
    exact ⟨d, hlatest.stands⟩
  · rintro ⟨d, hstands⟩
    exact exists_of_stands hstands
  · obtain ⟨f, hreply⟩ := Request.exists_reply hr
    rw [hreply.answer_eq]
    exact Catalog.require_bind_eq_error hreply.misses
  · cases fate ((new settings).after events) name e with
    | created hseen hname _ _ _ => exact ⟨_, hname, hseen⟩
    | dropped _ hget => cases hsome.symm.trans hget
    | kept _ _ hget =>
        rw [hnone, hsome] at hget
        cases hget

end Store

/-- The table was dropped by a reset and created again.  Of what is wrong with the other request,
the missing table is what it is refused for. -/
theorem Store.table_lifecycle_sample :
    (∃ d, Seen.Latest "Readings" d ((new {}).watch Sample.events)) ∧
      (Sample.store.answer Sample.stamp (.putItem ⟨"Other", .empty, some .updatedNew⟩)).1
        = .error (.tableNotFound "Other") := by
  have hrun : (new {}).after Sample.events = Sample.store := rfl
  have hother : Sample.store.catalog.get? "Other" = none := by decide +kernel
  obtain ⟨-, -, -, hlatest⟩ := table_lifecycle hrun "Readings"
  obtain ⟨-, hmissing, -, -⟩ := table_lifecycle hrun "Other"
  obtain ⟨d, hd, -⟩ := hlatest Sample.table Sample.get?_table
  exact ⟨⟨d, hd⟩, (hmissing _ rfl Sample.stamp).1.mpr hother⟩

end ItemStore
