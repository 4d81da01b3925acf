import ItemStore.Proofs.FailedRequests
import ItemStore.Proofs.ReadPaths
import ItemStore.Proofs.WriteRequests

/-!
# Whether a search succeeds

Queries, scans and statements evaluate conditions item by item and stop at the first condition that
decides, so an unknown operator could go unnoticed where an earlier condition fails, or where there
is no item at all.  It does not, since the operators are checked before any item is looked at, and
every condition that is evaluated later has been checked.  What is left to fail lies in the request
and in the schemas.

* `Catalog.SameSchemas` — the same tables with the same schemas, whatever is in them.
* `SameVerdict` — both succeed, or both fail with one fault.
* `FirstUnknown` — the operator that a list of conditions is refused for.
* `Rows.exists_query`, `Rows.exists_scan`, `Rows.exists_select` — after the checks no search of rows
  fails.
* `Answer.executeStatement_eq_error` — the two reasons for which a statement fails.
* **`Store.search_outcomes`** — whether and why a search fails is no matter of the items.
-/

namespace ItemStore

open Answer

/-! ## Verdicts -/

/-- Both succeed, or both fail with one fault. -/
abbrev SameVerdict {ε α : Type} (x y : Except ε α) : Prop :=
  SameOutcome (fun _ _ => True) x y

/-! ## Unknown operators -/

/-- The operator of this name is the first that the store does not have. -/
def FirstUnknown (conditions : List Condition) (name : String) : Prop :=
  ∃ known c later, conditions = known ++ c :: later ∧
    (∀ d ∈ known, d.operator.isSupported = true) ∧ c.operator = .unknown name

lemma Operator.isSupported_eq_false {op : Operator} :
    op.isSupported = false ↔ ∃ name, op = .unknown name := by
  cases op <;> simp [isSupported]

lemma exists_firstUnknown {conditions : List Condition}
    (h : ∃ c ∈ conditions, c.operator.isSupported = false) :
    ∃ name, FirstUnknown conditions name := by
  induction conditions with
  | nil =>
      obtain ⟨_, hmem, _⟩ := h
      cases hmem
  | cons c rest ih =>
      cases hc : c.operator.isSupported with
      | false =>
          obtain ⟨name, hname⟩ := Operator.isSupported_eq_false.mp hc
          exact ⟨name, [], c, rest, rfl, List.forall_mem_nil _, hname⟩
      | true =>
          have hrest : ∃ d ∈ rest, d.operator.isSupported = false := by
            simpa [hc] using h
          obtain ⟨name, known, d, later, rfl, hknown, hd⟩ := ih hrest
          exact ⟨name, c :: known, d, later, rfl, List.forall_mem_cons.mpr ⟨hc, hknown⟩, hd⟩

namespace Answer

/-- Conditions are refused for the first operator that is not known, before their operands are
looked at. -/
lemma checkConditions_of_firstUnknown {conditions : List Condition} {name : String}
    (h : FirstUnknown conditions name) :
    checkConditions conditions = .error (.unsupportedOperator name) := by
  obtain ⟨known, c, later, rfl, hknown, hc⟩ := h
  have hfirst : firstUnsupported? (known ++ c :: later) = some ⟨name⟩ := by
    rw [firstUnsupported?, List.findSome?_append]
    have hnone : firstUnsupported? known = none := firstUnsupported?_eq_none.mpr hknown
    rw [firstUnsupported?] at hnone
    rw [hnone, Option.none_or, List.findSome?_cons, hc]
  rw [checkConditions, checkOperators, hfirst]
  rfl

end Answer

/-! ## Searches of rows -/

namespace Rows

variable (rows : Rows)

/-- Once its conditions are accepted a query looks at every row and filters what it finds, without
an error. -/
lemma exists_query {q : Query} {keys : KeySchema} {keyQuery : KeyQuery}
    (hconditions : checkConditions (q.keyConditions.values ++ q.filter.values) = .ok ())
    (hquery : keys.keyQuery q.keyConditions = .ok keyQuery) :
    ∃ candidates items, rows.query keyQuery = .ok candidates ∧
      selectRows (filterTest q.combinator q.filter) candidates = .ok items := by
  have hchecked := checkConditions_eq_ok.mp hconditions
  have htest := KeySchema.keyQuery_test hquery fun c hc =>
    (hchecked c (List.mem_append_left _ hc)).supported
  have hfilter := filterTest_eq_holds (fun c hc => hchecked c (List.mem_append_right _ hc))
    q.combinator
  exact ⟨_, _, selectRows_eq_filter htest _, selectRows_eq_filter hfilter _⟩

/-- The same for the filter of a scan. -/
lemma exists_scan {r : Scan} (hconditions : checkConditions r.filter.values = .ok ()) :
    ∃ items, rows.scan (filterTest r.combinator r.filter) = .ok items :=
  ⟨_, selectRows_eq_filter
    (filterTest_eq_holds (checkConditions_eq_ok.mp hconditions) r.combinator) _⟩

/-- The same for the conditions of a statement. -/
lemma exists_select {sel : Select}
    (hoperators : checkOperators (sel.conditions.map Prod.snd) = .ok ()) :
    ∃ items, rows.scan (sel.combinator.evaluate sel.conditions) = .ok items := by
  have hsupported := List.forall_mem_map.mp (checkOperators_eq_ok.mp hoperators)
  exact ⟨_, selectRows_eq_filter (Combinator.evaluate_eq_holds hsupported sel.combinator) _⟩

end Rows

/-! ## Searches of catalogs -/

/-- Two catalogs with tables of the same names and schemas, whatever is in the tables. -/
def Catalog.SameSchemas (c c' : Catalog) : Prop :=
  ∀ name, (c.get? name).map Table.schema = (c'.get? name).map Table.schema

lemma Catalog.SameSchemas.of_entrywise {c c' : Catalog}
    (h : Entrywise (fun t t' => Table.schema t = Table.schema t') c.entries c'.entries) :
    c.SameSchemas c' := by
  intro name
  have hrel : Option.Rel _ (c.get? name) (c'.get? name) := h.lookup name
  generalize c.get? name = x at hrel ⊢
  generalize c'.get? name = y at hrel ⊢
  cases hrel with
  | some hschema => exact congrArg some hschema
  | none => rfl

lemma Table.keysFor_eq_of_schema {t t' : Table} (h : t.schema = t'.schema)
    (index : Option String) : t.keysFor index = t'.keysFor index := by
  cases index <;> rw [keysFor, keysFor, h]

namespace Answer

variable {c c' : Catalog}

lemma query_verdict (h : c.SameSchemas c') (q : Query) : SameVerdict (query q c) (query q c') := by
  rw [query, query]
  refine (Catalog.sameOutcome_require (h q.table)).bind fun t t' hschema => ?_
  rw [Table.keysFor_eq_of_schema hschema]
  refine .bind_same _ fun _ => .bind_same _ fun keys => .bind_ok fun _ hconditions =>
    .bind_ok fun keyQuery hquery => ?_
  -- all that can fail is behind us, and it was the same on both sides; the rows differ from here on
  obtain ⟨candidates, items, hcandidates, hitems⟩ := t.rows.exists_query hconditions hquery
  obtain ⟨candidates', items', hcandidates', hitems'⟩ := t'.rows.exists_query hconditions hquery
  rw [hcandidates, hcandidates']
  show SameVerdict (liftOperator (selectRows _ candidates) >>= _)
    (liftOperator (selectRows _ candidates') >>= _)
  rw [hitems, hitems']
  exact .ok trivial

lemma scan_verdict (h : c.SameSchemas c') (r : Scan) : SameVerdict (scan r c) (scan r c') := by
  rw [scan, scan]
  refine (Catalog.sameOutcome_require (h r.table)).bind fun t t' _ => ?_
  refine .bind_same _ fun _ => .bind_ok fun _ hconditions => ?_
  obtain ⟨items, hitems⟩ := t.rows.exists_scan hconditions
  obtain ⟨items', hitems'⟩ := t'.rows.exists_scan hconditions
  rw [hitems, hitems']
  exact .ok trivial

/-- A statement fails for its text, whatever tables there are, or because its table is not there. -/
lemma executeStatement_eq_error {text : String} {fault : Fault} :
    executeStatement text c = .error fault ↔
      (∃ e, Select.read text = .error e ∧ fault = .syntaxFault e) ∨
        ∃ sel, Select.read text = .ok sel ∧ c.get? sel.table = none ∧
          fault = .tableNotFound sel.table := by
  rw [executeStatement]
  cases hread : Select.read text with
  | error e =>
      show Except.error (Fault.syntaxFault e) = .error fault ↔ _
      simp [eq_comm]
  | ok sel =>
      show (select sel c >>= fun items => Except.ok (Response.selected items)) = .error fault ↔ _
      cases ht : c.get? sel.table with
      | none =>
          have hselect : select sel c = .error (.tableNotFound sel.table) := by
            rw [select, Catalog.require, ht]
            rfl
          rw [hselect]
          show Except.error (Fault.tableNotFound sel.table) = .error fault ↔ _
          simp [ht, eq_comm]
      | some t =>
          -- the reader lets no operator through that the store does not have
          rw [select_eq_filter ht fun e he => (Select.checked_of_read hread e he).supported]
          simp [bind, Except.bind, ht]

lemma select_verdict (h : c.SameSchemas c') (sel : Select) :
    SameVerdict (select sel c) (select sel c') := by
  rw [select, select]
  refine (Catalog.sameOutcome_require (h sel.table)).bind fun t t' _ => ?_
  refine .bind_ok fun _ hoperators => ?_
  obtain ⟨items, hitems⟩ := t.rows.exists_select hoperators
  obtain ⟨items', hitems'⟩ := t'.rows.exists_select hoperators
  rw [hitems, hitems']
  exact .ok trivial

lemma executeStatement_verdict (h : c.SameSchemas c') (text : String) :
    SameVerdict (executeStatement text c) (executeStatement text c') :=
  .bind_same _ fun sel => (select_verdict h sel).bind fun _ _ _ => .ok trivial

/-- A query with an unknown operator is refused for it, if nothing is wrong with its table, its
attributes and its index. -/
lemma query_of_firstUnknown {q : Query} {t : Table} {keys : KeySchema} {name : String}
    (ht : c.get? q.table = some t) (hattributes : q.attributes.Nodup)
    (hkeys : t.keysFor q.index = .ok keys)
    (hname : FirstUnknown (q.keyConditions.values ++ q.filter.values) name) :
    query q c = .error (.unsupportedOperator name) := by
  rw [query, Catalog.require_eq_ok.mpr ht, checkConditions_of_firstUnknown hname]
  show (checkAttributes q.attributes >>= _) = _
  rw [checkAttributes_eq_ok.mpr hattributes]
  show (t.keysFor q.index >>= _) = _
  rw [hkeys]
  rfl

/-- The same for a scan. -/
lemma scan_of_firstUnknown {r : Scan} {t : Table} {name : String} (ht : c.get? r.table = some t)
    (hattributes : r.attributes.Nodup) (hname : FirstUnknown r.filter.values name) :
    scan r c = .error (.unsupportedOperator name) := by
  rw [scan, Catalog.require_eq_ok.mpr ht, checkConditions_of_firstUnknown hname]
  show (checkAttributes r.attributes >>= _) = _
  rw [checkAttributes_eq_ok.mpr hattributes]
  rfl

end Answer

/-! ## Requests -/

/-- The operations that evaluate conditions. -/
def Operation.searches : List Operation :=
  [query, scan, executeStatement]

namespace Store

variable {s s' : Store} {stamp stamp' : Stamp}

lemma answer_verdict (h : s.catalog.SameSchemas s'.catalog) {r : Request}
    (hr : r.operation ∈ Operation.searches) :
    SameVerdict (s.answer stamp r).1 (s'.answer stamp' r).1 := by
  cases r with
  | query q => exact query_verdict h q
  | scan r => exact scan_verdict h r
  | executeStatement text => exact executeStatement_verdict h text
  | _ => simp [Request.operation, Operation.searches] at hr

/-- A body is read without the store, and a response is always written. -/
lemma dispatch_verdict (h : s.catalog.SameSchemas s'.catalog) {operation : String}
    (hoperation : operation ∈ Operation.searches.map Operation.name) (body : String) :
    SameVerdict (s.dispatch stamp operation body).1 (s'.dispatch stamp' operation body).1 := by
  have hserve : SameVerdict (s.serve stamp operation body).1
      (s'.serve stamp' operation body).1 := by
    rw [serve, serve]
    cases hread : Request.read operation body with
    | error fault => exact .error fault
    | ok r =>
        rw [← Request.name_of_read hread] at hoperation
        exact answer_verdict h ((List.mem_map_of_injective Operation.name_injective).mp hoperation)
  refine (hserve.mapError Fault.report).bind fun response response' _ => ?_
  rw [Wire.writeResponse_eq, Wire.writeResponse_eq]
  exact .ok trivial

/-- **Whether a search succeeds is no matter of the items.**  In two stores whose tables have the
same names and schemas every query, scan and statement succeeds in both or fails in both, with the
same code and the same message, as a request and as an operation with a body.

An unknown operator anywhere in the conditions of a query or a scan is what it is refused for, once
its table, its attributes and its index are accepted, also where there is no item to put it to or an
earlier condition decides.  After the checks no search of rows fails, whatever the rows.

A statement fails for its syntax exactly when its text cannot be read, for its table exactly when it
can and the table is not there, and for nothing else. -/
theorem search_outcomes (h : s.catalog.SameSchemas s'.catalog) (stamp stamp' : Stamp) :
    (∀ r : Request, r.operation ∈ Operation.searches →
      SameVerdict (s.answer stamp r).1 (s'.answer stamp' r).1) ∧
    (∀ operation ∈ Operation.searches.map Operation.name, ∀ body,
      SameVerdict (s.dispatch stamp operation body).1 (s'.dispatch stamp' operation body).1) ∧
    (∀ (q : Query) t keys, s.catalog.get? q.table = some t → q.attributes.Nodup →
      t.keysFor q.index = .ok keys →
      (∃ c ∈ q.keyConditions.values ++ q.filter.values, c.operator.isSupported = false) →
        ∃ name, FirstUnknown (q.keyConditions.values ++ q.filter.values) name ∧
          (s.answer stamp (.query q)).1 = .error (.unsupportedOperator name)) ∧
    (∀ (r : Scan) t, s.catalog.get? r.table = some t → r.attributes.Nodup →
      (∃ c ∈ r.filter.values, c.operator.isSupported = false) →
        ∃ name, FirstUnknown r.filter.values name ∧
          (s.answer stamp (.scan r)).1 = .error (.unsupportedOperator name)) ∧
    (∀ rows : Rows,
      (∀ (q : Query) (keys : KeySchema) keyQuery,
        checkConditions (q.keyConditions.values ++ q.filter.values) = .ok () →
        keys.keyQuery q.keyConditions = .ok keyQuery →
          ∃ candidates items, rows.query keyQuery = .ok candidates ∧
            selectRows (filterTest q.combinator q.filter) candidates = .ok items) ∧
      (∀ r : Scan, checkConditions r.filter.values = .ok () →
        ∃ items, rows.scan (filterTest r.combinator r.filter) = .ok items) ∧
      (∀ sel : Select, checkOperators (sel.conditions.map Prod.snd) = .ok () →
        ∃ items, rows.scan (sel.combinator.evaluate sel.conditions) = .ok items)) ∧
    ∀ text,
      ((∃ fault, (s.answer stamp (.executeStatement text)).1 = .error fault ∧
        fault.code = .statementSyntaxError) ↔ ∃ e, Select.read text = .error e) ∧
      ((∃ fault, (s.answer stamp (.executeStatement text)).1 = .error fault ∧
        fault.code = .tableNotFound) ↔
          ∃ sel, Select.read text = .ok sel ∧ s.catalog.get? sel.table = none) ∧
      ∀ fault, (s.answer stamp (.executeStatement text)).1 = .error fault →
        fault.code = .statementSyntaxError ∨ fault.code = .tableNotFound := by
  refine ⟨fun r => answer_verdict h, fun operation => dispatch_verdict h, ?_, ?_, ?_, ?_⟩
  · intro q t keys ht hattributes hkeys hunknown
    obtain ⟨name, hname⟩ := exists_firstUnknown hunknown
    exact ⟨name, hname, query_of_firstUnknown ht hattributes hkeys hname⟩
  · intro r t ht hattributes hunknown
    obtain ⟨name, hname⟩ := exists_firstUnknown hunknown
    exact ⟨name, hname, scan_of_firstUnknown ht hattributes hname⟩
  · exact fun rows => ⟨fun _ _ _ => rows.exists_query, fun _ => rows.exists_scan,
      fun _ => rows.exists_select⟩
  · intro text
    have hfault := @executeStatement_eq_error s.catalog text
    refine ⟨⟨?_, ?_⟩, ⟨?_, ?_⟩, ?_⟩
    · rintro ⟨fault, hanswer, hcode⟩
      obtain ⟨e, he, _⟩ | ⟨_, _, _, rfl⟩ := hfault.mp hanswer
      · exact ⟨e, he⟩
      · cases hcode
    · rintro ⟨e, he⟩
      exact ⟨_, hfault.mpr (.inl ⟨e, he, rfl⟩), rfl⟩
    · rintro ⟨fault, hanswer, hcode⟩
      obtain ⟨_, _, rfl⟩ | ⟨sel, hread, ht, _⟩ := hfault.mp hanswer
      · cases hcode
      · exact ⟨sel, hread, ht⟩
    · rintro ⟨sel, hread, ht⟩
      exact ⟨_, hfault.mpr (.inr ⟨sel, hread, ht, rfl⟩), rfl⟩
    · intro fault hanswer
      obtain ⟨_, _, rfl⟩ | ⟨_, _, _, rfl⟩ := hfault.mp hanswer
      · exact .inl rfl
      · exact .inr rfl

end Store

namespace Sample

/-- The store before any reading is put. -/
def emptied : Store :=
  (Store.new {}).after [.request stamp (.createTable declaration)]

/-- A query for readings that are not there, with an unknown operator behind a condition that holds
of none. -/
def unclearQuery : Query where
  table := "Readings"
  index := none
  keyConditions := .ofList [("id", ⟨.eq, [.number "7"]⟩)]
  filter := .ofList [("id", ⟨.null, []⟩), ("note", ⟨.unknown "LIKE", [.text "th"]⟩)]
  combinator := none
  attributes := []

end Sample

theorem Store.search_outcomes_sample :
    SameVerdict (Sample.emptied.answer Sample.stamp (.query Sample.unclearQuery)).1
        (Sample.store.answer Sample.stamp (.query Sample.unclearQuery)).1 ∧
      (∃ name, (Sample.emptied.answer Sample.stamp (.query Sample.unclearQuery)).1
        = .error (.unsupportedOperator name)) ∧
      SameVerdict (Sample.emptied.dispatch Sample.stamp "ExecuteStatement" "\x7b\x7d").1
        (Sample.store.dispatch Sample.stamp "ExecuteStatement" "\x7b\x7d").1 ∧
      ∃ fault, (Sample.emptied.answer Sample.stamp (.executeStatement "SELECT note")).1
        = .error fault ∧ fault.code = .statementSyntaxError := by
  have hschemas : Sample.emptied.catalog.SameSchemas Sample.store.catalog := by
    refine .of_entrywise ?_
    unfold Entrywise
    decide +kernel
  obtain ⟨t, ht⟩ : ∃ t, Sample.emptied.catalog.get? "Readings" = some t :=
    Option.isSome_iff_exists.mp (by decide +kernel)
  obtain ⟨hanswer, hdispatch, hquery, _, _, htext⟩ :=
    search_outcomes hschemas Sample.stamp Sample.stamp
  obtain ⟨name, _, hname⟩ := hquery Sample.unclearQuery t t.schema.primary ht List.nodup_nil rfl
    (by decide +kernel)
  exact ⟨hanswer (.query Sample.unclearQuery) (by decide), ⟨name, hname⟩,
    hdispatch "ExecuteStatement" (by decide) _,
    (htext "SELECT note").1.mpr ⟨.ended (.token .kwFrom), by decide +kernel⟩⟩

end ItemStore
