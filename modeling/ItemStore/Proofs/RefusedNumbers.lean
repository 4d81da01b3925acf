import ItemStore.Proofs.Attempts
import ItemStore.Proofs.DecodedRequests
import ItemStore.Proofs.ValueDecoding
import ItemStore.Service

/-!
# Where numbers are refused

A text that is no numeral is refused where a request is decoded.  The handlers look at all numbers
once more before they use them, and would refuse such a text with a fault of their own; with the
numbers that come out of the decoder they never do.

* `NumbersPass` — a step does not end with that fault.
* **`Store.answer_numbersPass`** — no operation does, if all numbers of the request are numerals.
* `Fault.exists_invalidNumeral_of_report_eq` — its report is told apart from all others by how it
  begins.
* **`Wire.value_decoding`** — values are decoded from what denotes them, no request holds any other
  number than a numeral, and no client is told of one by a handler.
-/

namespace ItemStore

open Answer

/-! ## Steps that refuse no number -/

/-- A step does not end because of a text that is no numeral. -/
def NumbersPass {α : Type} (x : Except Fault α) : Prop :=
  ∀ text, x ≠ .error (.requestFault (.invalidNumeral text))

namespace NumbersPass

variable {α β ε : Type} {x : Except Fault α}

lemma ok (a : α) : NumbersPass (.ok a) := nofun

lemma bind {f : α → Except Fault β} (hx : NumbersPass x) (hf : ∀ a, NumbersPass (f a)) :
    NumbersPass (x >>= f) := by
  cases x with
  | error e => exact fun text h => hx text (by cases h; rfl)
  | ok a => exact hf a

/-- A fault of another part of the program, whatever it is, is no fault of a number. -/
lemma mapError {g : ε → Fault} (hg : ∀ e text, g e ≠ .requestFault (.invalidNumeral text))
    (x : Except ε α) : NumbersPass (x.mapError g) := by
  cases x with
  | error e => exact fun text h => hg e text (Except.error.inj h)
  | ok a => exact nofun

lemma refuse {fault : RequestFault} (h : ∀ text, fault ≠ .invalidNumeral text) :
    NumbersPass (ItemStore.refuse fault : Except Fault α) :=
  fun text heq => h text (Fault.requestFault.inj (Except.error.inj heq))

end NumbersPass

namespace Answer

open NumbersPass

/-! ### Checks -/

lemma liftOperator_numbersPass {α : Type} (x : Except UnsupportedOperator α) :
    NumbersPass (liftOperator x) := .mapError (by simp) x

lemma liftKey_numbersPass {α : Type} (x : Except KeyFault α) : NumbersPass (liftKey x) :=
  .mapError (by simp) x

lemma checkTableName_numbersPass (name : String) : NumbersPass (checkTableName name) := by
  unfold checkTableName
  split_ifs
  · exact .refuse nofun
  · exact .ok ()
  · exact .refuse nofun

lemma checkAttributes_numbersPass (attributes : List String) :
    NumbersPass (checkAttributes attributes) := by
  unfold checkAttributes
  split
  · exact .refuse nofun
  · exact .ok ()

lemma checkReturned_numbersPass (returned : Option Returned) :
    NumbersPass (checkReturned returned) := by
  unfold checkReturned
  split
  · exact .ok ()
  · exact .ok ()
  · exact .ok ()
  · exact .refuse nofun

lemma checkOperators_numbersPass (conditions : List Condition) :
    NumbersPass (checkOperators conditions) := by
  unfold checkOperators
  split
  · exact nofun
  · exact .ok ()

lemma checkNumerals_numbersPass {values : List Value} (h : AllValid values) :
    NumbersPass (checkNumerals values) := by
  rw [checkNumerals_eq_ok.mpr h]
  exact .ok ()

lemma checkKey_numbersPass (keys : KeySchema) {key : Item} (h : AllValid key.values) :
    NumbersPass (checkKey keys key) := by
  unfold checkKey
  split
  · exact checkNumerals_numbersPass h
  · exact .refuse nofun

lemma checkConditions_numbersPass {conditions : List Condition}
    (h : AllValid (conditions.flatMap Condition.operands)) :
    NumbersPass (checkConditions conditions) :=
  (checkOperators_numbersPass _).bind fun _ => checkNumerals_numbersPass h

lemma pageSize_numbersPass (limit : Option Int) : NumbersPass (pageSize limit) := by
  unfold pageSize
  split
  · exact .ok _
  · split_ifs
    · exact .ok _
    · exact .refuse nofun

end Answer

open NumbersPass

lemma Catalog.require_numbersPass (c : Catalog) (name : String) : NumbersPass (c.require name) := by
  unfold Catalog.require
  split
  · exact .ok _
  · exact nofun

/-! ### Tables -/

namespace Table

variable {t : Table} {item key : Item}

lemma keysFor_numbersPass (index : Option String) : NumbersPass (t.keysFor index) := by
  unfold keysFor
  split
  · exact .ok _
  · split
    · exact .ok _
    · exact .refuse nofun

lemma store_numbersPass (h : AllValid item.values) : NumbersPass ((store item).attempt t) := by
  rw [attempt_store]
  exact (checkNumerals_numbersPass h).bind fun _ => (liftKey_numbersPass _).bind fun _ => .ok _

lemma find_numbersPass (h : AllValid key.values) (attributes : List String) :
    NumbersPass (t.find key attributes) :=
  (checkKey_numbersPass _ h).bind fun _ => (liftKey_numbersPass _).bind fun _ => .ok _

lemma remove_numbersPass (h : AllValid key.values) : NumbersPass ((remove key).attempt t) := by
  rw [attempt_remove]
  exact (checkKey_numbersPass _ h).bind fun _ => (liftKey_numbersPass _).bind fun _ => .ok _

lemma findAll_numbersPass (attributes : List String) : ∀ {keys : List Item},
    AllValid (keys.flatMap NameMap.values) → NumbersPass (t.findAll attributes keys)
  | [], _ => .ok []
  | _ :: _, h => by
      obtain ⟨hkey, hrest⟩ := List.forall_mem_cons.mp (allValid_flatMap.mp h)
      exact (find_numbersPass hkey attributes).bind fun _ =>
        (findAll_numbersPass attributes (allValid_flatMap.mpr hrest)).bind fun _ => .ok _

lemma write_numbersPass {w : BatchedWrite} (h : AllValid w.values) :
    NumbersPass ((write w).attempt t) := by
  rw [attempt_write]
  split
  · rename_i item hput hdelete
    have hitem : AllValid item.values := by simpa [BatchedWrite.values, hput, hdelete] using h
    exact (store_numbersPass hitem).bind fun _ => .ok _
  · rename_i key hput hdelete
    have hkey : AllValid key.values := by simpa [BatchedWrite.values, hput, hdelete] using h
    exact (remove_numbersPass hkey).bind fun _ => .ok _
  · exact .refuse nofun

lemma writeAll_numbersPass : ∀ {ws : List BatchedWrite} {t : Table},
    AllValid (ws.flatMap BatchedWrite.values) → NumbersPass ((writeAll ws).attempt t)
  | [], _, _ => .ok _
  | w :: ws, t, h => by
      obtain ⟨hw, hrest⟩ := List.forall_mem_cons.mp (allValid_flatMap.mp h)
      rw [writeAll, Work.attempt_bind]
      exact (write_numbersPass hw).bind fun _ => writeAll_numbersPass (allValid_flatMap.mpr hrest)

end Table

/-! ### Updates -/

lemma AttributeUpdate.change_numbersPass (keys : KeySchema) (name : String) {u : AttributeUpdate}
    (h : ∀ v ∈ u.value, v.Valid) : NumbersPass (u.change keys name) := by
  unfold AttributeUpdate.change
  split_ifs
  · exact .refuse nofun
  · split
    · rename_i v _ hvalue
      have hv : AllValid [v] := List.forall_mem_singleton.mpr (h v hvalue)
      exact (checkNumerals_numbersPass hv).bind fun _ => .ok _
    · exact .refuse nofun
    · exact .ok _
    · exact .refuse nofun
    · exact nofun

lemma changesOf_numbersPass (keys : KeySchema) : ∀ {us : List (String × AttributeUpdate)},
    (∀ u ∈ us, ∀ v ∈ u.2.value, v.Valid) → NumbersPass (changesOf keys us)
  | [], _ => .ok []
  | (name, u) :: us, h => by
      obtain ⟨hu, hus⟩ := List.forall_mem_cons.mp h
      exact (AttributeUpdate.change_numbersPass keys name hu).bind fun _ =>
        (changesOf_numbersPass keys hus).bind fun _ => .ok _

lemma Table.amend_numbersPass {t : Table} {key : Item} {updates : NameList AttributeUpdate}
    (hkey : AllValid key.values)
    (hupdates : AllValid (updates.values.filterMap AttributeUpdate.value)) :
    NumbersPass ((amend key updates).attempt t) := by
  rw [attempt_amend]
  refine (checkKey_numbersPass _ hkey).bind fun _ => (changesOf_numbersPass _ ?_).bind fun _ =>
    (liftKey_numbersPass _).bind fun _ => .ok _
  exact fun u hu v hv => hupdates v (List.mem_filterMap.mpr ⟨u.2, List.mem_map_of_mem hu, hv⟩)

/-! ### Searches -/

namespace KeySchema

variable (keys : KeySchema)

lemma hashValue_numbersPass (conditions : NameList Condition) :
    NumbersPass (keys.hashValue conditions) := by
  unfold hashValue
  split
  · exact .refuse nofun
  · split
    · exact .ok _
    · exact .refuse nofun

lemma checkRange_numbersPass (name : String) (c : Condition) :
    NumbersPass (keys.checkRange name c) := by
  unfold checkRange
  split_ifs
  · exact .refuse nofun
  · exact .refuse nofun
  · exact .refuse nofun
  · exact .ok ()

lemma rangeCondition_numbersPass : ∀ es : List (String × Condition),
    NumbersPass (keys.rangeCondition es)
  | [] => .ok none
  | (name, c) :: es => by
      rw [rangeCondition]
      split_ifs
      · exact rangeCondition_numbersPass es
      · exact (checkRange_numbersPass keys name c).bind fun _ =>
          (rangeCondition_numbersPass es).bind fun _ => .ok _

lemma keyQuery_numbersPass (conditions : NameList Condition) :
    NumbersPass (keys.keyQuery conditions) :=
  (hashValue_numbersPass keys conditions).bind fun _ =>
    (rangeCondition_numbersPass keys _).bind fun _ => .ok _

end KeySchema

/-! ## Operations that refuse no number -/

namespace Answer

variable {c : Catalog}

lemma createTable_numbersPass (settings : Settings) (stamp : Stamp) (d : TableDeclaration) :
    NumbersPass ((createTable settings stamp d).attempt c) := by
  rw [attempt_createTable]
  exact (checkTableName_numbersPass _).bind fun _ =>
    (NumbersPass.mapError (by simp) _).bind fun _ => .ok _

lemma putItem_numbersPass {r : PutItem} (h : AllValid r.item.values) :
    NumbersPass ((putItem r).attempt c) := by
  rw [attempt_putItem]
  exact (c.require_numbersPass _).bind fun _ => (checkReturned_numbersPass _).bind fun _ =>
    (Table.store_numbersPass h).bind fun _ => .ok _

lemma deleteTable_numbersPass (name : String) : NumbersPass ((deleteTable name).attempt c) := by
  rw [attempt_deleteTable]
  exact (c.require_numbersPass _).bind fun _ => .ok _

lemma getItem_numbersPass {r : GetItem} (h : AllValid r.key.values) : NumbersPass (getItem r c) :=
  (c.require_numbersPass _).bind fun _ => (checkAttributes_numbersPass _).bind fun _ =>
    (Table.find_numbersPass h _).bind fun _ => .ok _

lemma deleteItem_numbersPass {r : DeleteItem} (h : AllValid r.key.values) :
    NumbersPass ((deleteItem r).attempt c) := by
  rw [attempt_deleteItem]
  exact (c.require_numbersPass _).bind fun _ => (checkReturned_numbersPass _).bind fun _ =>
    (Table.remove_numbersPass h).bind fun _ => .ok _

lemma updateItem_numbersPass {r : UpdateItem} (h : AllValid (Request.updateItem r).values) :
    NumbersPass ((updateItem r).attempt c) := by
  obtain ⟨hkey, hupdates⟩ := allValid_append.mp h
  rw [attempt_updateItem]
  exact (c.require_numbersPass _).bind fun _ =>
    (Table.amend_numbersPass hkey hupdates).bind fun _ => .ok _

lemma query_numbersPass {q : Query} (h : AllValid (Request.query q).values) :
    NumbersPass (query q c) :=
  (c.require_numbersPass _).bind fun _ => (checkAttributes_numbersPass _).bind fun _ =>
    (Table.keysFor_numbersPass _).bind fun keys => (checkConditions_numbersPass h).bind fun _ =>
      (keys.keyQuery_numbersPass _).bind fun _ => (liftOperator_numbersPass _).bind fun _ =>
        (liftOperator_numbersPass _).bind fun _ => .ok _

lemma scan_numbersPass {s : Scan} (h : AllValid (Request.scan s).values) :
    NumbersPass (scan s c) :=
  (c.require_numbersPass _).bind fun _ => (checkAttributes_numbersPass _).bind fun _ =>
    (checkConditions_numbersPass h).bind fun _ => (liftOperator_numbersPass _).bind fun _ => .ok _

lemma select_numbersPass (s : Select) : NumbersPass (select s c) :=
  (c.require_numbersPass _).bind fun _ => (checkOperators_numbersPass _).bind fun _ =>
    (liftOperator_numbersPass _).bind fun _ => .ok _

lemma executeStatement_numbersPass (text : String) : NumbersPass (executeStatement text c) := by
  have hread : NumbersPass ((Select.read text).mapError .syntaxFault) :=
    .mapError (by simp) _
  unfold executeStatement
  exact hread.bind fun s => (select_numbersPass s).bind fun _ => .ok _

lemma findAll_numbersPass : ∀ {batches : List (String × KeyBatch)},
    (∀ b ∈ batches, AllValid b.2.values) → NumbersPass (c.findAll batches)
  | [], _ => .ok []
  | (name, batch) :: batches, h => by
      obtain ⟨hbatch, hrest⟩ := List.forall_mem_cons.mp h
      exact (c.require_numbersPass _).bind fun _ => (checkAttributes_numbersPass _).bind fun _ =>
        (Table.findAll_numbersPass _ hbatch).bind fun _ =>
          (findAll_numbersPass hrest).bind fun _ => .ok _

lemma writeAll_numbersPass : ∀ {batches : List (String × List BatchedWrite)} {c : Catalog},
    (∀ b ∈ batches, AllValid (b.2.flatMap BatchedWrite.values)) →
      NumbersPass ((Catalog.writeAll batches).attempt c)
  | [], _, _ => .ok _
  | (name, writes) :: batches, c, h => by
      obtain ⟨hwrites, hrest⟩ := List.forall_mem_cons.mp h
      rw [Catalog.writeAll, Work.attempt_bind, Catalog.attempt_onTable]
      exact ((c.require_numbersPass name).bind fun _ =>
        (Table.writeAll_numbersPass hwrites).bind fun _ => .ok _).bind fun _ =>
          writeAll_numbersPass hrest

lemma batchWriteItem_numbersPass {batches : NameList (List BatchedWrite)}
    (h : AllValid (Request.batchWriteItem batches).values) :
    NumbersPass ((batchWriteItem batches).attempt c) := by
  have hwrites : ∀ b ∈ batches.entries, AllValid (b.2.flatMap BatchedWrite.values) := by
    intro b hb
    refine allValid_flatMap.mpr fun w hw => allValid_flatMap.mp h w ?_
    exact List.mem_flatten.mpr ⟨b.2, List.mem_map_of_mem hb, hw⟩
  rw [batchWriteItem, Work.attempt_bind]
  exact (writeAll_numbersPass hwrites).bind fun _ => .ok _

end Answer

namespace Store

variable {s : Store} {r : Request}

lemma reading_numbersPass {answer : Catalog → Except Fault Response}
    (h : NumbersPass (answer s.catalog)) : NumbersPass (s.reading answer).1 := h

lemma writing_numbersPass {answer : Work Fault Catalog Response}
    (h : NumbersPass (answer.attempt s.catalog)) : NumbersPass (s.writing answer).1 :=
  fun text heq => h text (Work.attempt_eq_error.mpr heq)

/-- **No operation refuses a number, if all numbers of the request are numerals.** -/
theorem answer_numbersPass (s : Store) (stamp : Stamp) (h : AllValid r.values) :
    NumbersPass (s.answer stamp r).1 := by
  cases r with
  | createTable d => exact (writing_numbersPass (createTable_numbersPass s.settings stamp d) :)
  | deleteTable name => exact (writing_numbersPass (deleteTable_numbersPass name) :)
  | describeTable name =>
      exact reading_numbersPass ((Catalog.require_numbersPass _ _).bind fun _ => .ok _)
  | listTables r => exact reading_numbersPass ((pageSize_numbersPass _).bind fun _ => .ok _)
  | putItem r => exact (writing_numbersPass (putItem_numbersPass (r := r) h) :)
  | getItem r => exact reading_numbersPass (getItem_numbersPass h)
  | updateItem r => exact (writing_numbersPass (updateItem_numbersPass h) :)
  | deleteItem r => exact (writing_numbersPass (deleteItem_numbersPass (r := r) h) :)
  | query q => exact reading_numbersPass (query_numbersPass h)
  | scan r => exact reading_numbersPass (scan_numbersPass h)
  | batchGetItem batches =>
      refine reading_numbersPass ((findAll_numbersPass fun b hb => ?_).bind fun _ => .ok _)
      exact allValid_flatMap.mp h b.2 (List.mem_map_of_mem hb)
  | batchWriteItem batches => exact (writing_numbersPass (batchWriteItem_numbersPass h) :)
  | executeStatement text => exact reading_numbersPass (executeStatement_numbersPass text)

/-- No body refuses a number after it was decoded. -/
lemma serve_numbersPass (s : Store) (stamp : Stamp) (operation body : String) :
    NumbersPass (s.serve stamp operation body).1 := by
  rw [serve]
  cases hread : Request.read operation body with
  | ok request =>
      refine answer_numbersPass s stamp ?_
      unfold Request.read at hread
      split at hread
      · cases hread
      · exact Wire.valid_of_decodeRequest ((mapError_eq_ok _).mp hread)
  | error e =>
      have hpass : NumbersPass (Request.read operation body) := by
        unfold Request.read
        split
        · exact nofun
        · exact .mapError (by simp) _
      exact fun text heq => hpass text (hread.trans (by cases heq; rfl))

end Store

/-! ## Reports -/

/-- How a message begins. -/
def opening (message : String) : List Char := message.toList.take 5

lemma opening_append {lead : List Char} (h : 5 ≤ lead.length) (rest : String) :
    opening (String.ofList lead ++ rest) = lead.take 5 := by
  rw [opening, String.toList_append, String.toList_ofList, List.take_append_of_le_length h]

/-- A message is told apart by how its first part begins. -/
lemma opening_ne {lead : List Char} (h : 5 ≤ lead.length ∧ lead.take 5 ≠ "The p".toList)
    (rest : String) : opening (String.ofList lead ++ rest) ≠ "The p".toList := by
  rw [opening_append h.1]
  exact h.2

namespace Fault

/-- A validation error that begins like that of a refused number is one. -/
lemma exists_invalidNumeral_of_opening {f : Fault} (hcode : f.code = .validationError)
    (h : opening f.message = "The p".toList) :
    ∃ text, f = .requestFault (.invalidNumeral text) := by
  cases f with
  | requestFault fault =>
      change opening fault.message = _ at h
      cases fault with
      | invalidNumeral text => exact ⟨text, rfl⟩
      | unclearWrite => exact absurd h (by decide)
      | _ =>
          rw [RequestFault.message.eq_def] at h
          simp only [String.append_assoc] at h
          exact absurd h (opening_ne (by decide) _)
  | keyFault fault =>
      change opening fault.message = _ at h
      cases fault <;>
      · rw [KeyFault.message.eq_def] at h
        simp only [String.append_assoc] at h
        exact absurd h (opening_ne (by decide) _)
  | schemaFault fault =>
      change opening fault.message = _ at h
      cases fault with
      | invalidType type name =>
          rw [SchemaFault.message.eq_def] at h
          simp only [String.append_assoc] at h
          exact absurd h (opening_ne (by decide) _)
      | _ => cases hcode
  | _ => cases hcode

/-- The report of a refused number is the report of no other fault. -/
lemma exists_invalidNumeral_of_report_eq {f : Fault} {text : String}
    (h : f.report = (requestFault (.invalidNumeral text)).report) :
    ∃ text', f = .requestFault (.invalidNumeral text') := by
  obtain ⟨hcode, hmessage⟩ := Report.mk.inj h
  refine exists_invalidNumeral_of_opening hcode ?_
  rw [hmessage]
  show opening ("The parameter cannot be converted to a numeric value: " ++ text) = _
  exact (opening_append (by decide) _).trans (by decide)

end Fault

/-- A response that cannot be written is no validation error. -/
lemma Wire.code_of_writeResponse {r : Response} {report : Report}
    (h : Wire.writeResponse r = .error report) : report.code = .serializationError := by
  unfold Wire.writeResponse at h
  split at h <;> cases h
  rfl

/-- No client is told of a number that a handler has refused. -/
theorem Store.dispatch_ne_invalidNumeral (s : Store) (stamp : Stamp)
    (operation body text : String) :
    (s.dispatch stamp operation body).1
      ≠ .error (Fault.requestFault (.invalidNumeral text)).report := by
  intro h
  have hpass := s.serve_numbersPass stamp operation body
  rw [dispatch] at h
  rcases hserve : s.serve stamp operation body with ⟨e | response, s'⟩
  · rw [hserve] at h hpass
    obtain ⟨text', rfl⟩ := Fault.exists_invalidNumeral_of_report_eq (Except.error.inj h)
    exact hpass text' rfl
  · rw [hserve] at h
    cases Wire.code_of_writeResponse h

namespace Wire

/-- **A value is decoded from what denotes it, and no other number than a numeral is let in.**  The
first part is about every text of JSON in which strings denote texts and at most 127 containers
stand one inside the other.  Every request that is decoded holds numerals only, and so no client is
told by a handler that a number is none. -/
theorem value_decoding :
    (∀ (j : Json) (text : String), j.Spelling text.toList → j.depth ≤ 127 →
      ∀ v, decodeText value text = .ok v ↔ Denotes j v) ∧
    (∀ (op : Operation) (body : String) (r : Request), decodeRequest op body = .ok r →
      ∀ v ∈ r.values, v.invalidNumeral? = none) ∧
    ∀ (s : Store) (stamp : Stamp) (operation body text : String),
      (s.dispatch stamp operation body).1
        ≠ .error (Fault.requestFault (.invalidNumeral text)).report :=
  ⟨fun _ _ hspelling hdepth _ => decodeText_eq_ok_iff hspelling hdepth,
    fun _ _ _ h v hv => Value.invalidNumeral?_eq_none.mpr (valid_of_decodeRequest h v hv),
    Store.dispatch_ne_invalidNumeral⟩

namespace Sample

/-- A map in which a name is repeated. -/
def repeatedName : Json :=
  .record [("M", .record [("a", .record [("N", .text "1")]), ("a", .record [("N", .text "2.0")])])]

/-- A text of that map with a blank in front, in which the tag is escaped. -/
def repeatedNameText : String :=
  " \x7b\"\\u004d\":\x7b\"a\":\x7b\"N\":\"1\"\x7d,\"a\":\x7b\"N\":\"2.0\"\x7d\x7d\x7d"

lemma spelling_repeatedName : repeatedName.Spelling repeatedNameText.toList := by
  have hnumber : ∀ {s : String}, Json.StringText s.toList s.toList →
      Json.Spelling (.record [("N", .text s)]) _ := fun h =>
    .record (Json.nameText_quoted (@Json.stringText_self "N".toList (by simp))) (.string h)
  have hname : Json.NameText "a" ('"' :: ("a".toList ++ ['"'])) :=
    Json.nameText_quoted (Json.stringText_self (by simp))
  have hunit : Json.CodeUnit ['0', '0', '4', 'd'] 'M'.toNat :=
    @Json.CodeUnit.mk '0' '0' '4' 'd' 0 0 4 13 (.inl rfl) (.inl rfl) (.inl rfl) (.inl rfl)
  have hfields := @Json.Spelling.object [] [⟨"a", _, _, _⟩, ⟨"a", _, _, _⟩] (List.forall_mem_nil _)
    (List.forall_mem_cons.mpr ⟨hname, List.forall_mem_singleton.mpr hname⟩)
    (List.forall_mem_cons.mpr ⟨hnumber (@Json.stringText_self "1".toList (by simp)),
      List.forall_mem_singleton.mpr (hnumber (@Json.stringText_self "2.0".toList (by simp)))⟩)
  have hmap := Json.Spelling.record (@Json.nameText_quoted "M" _ (.unit hunit .nil)) hfields
  exact @Json.Spelling.padded _ [' '] _ [] (by simp [Json.Blank]) hmap (List.forall_mem_nil _)

lemma denotes_repeatedName : Denotes repeatedName (.map [("a", .number "2.0")]) := by
  refine @Denotes.map [("a", _, .number "1"), ("a", _, .number "2.0")] _ ?_
    (List.pairwise_singleton _ _) fun name => ?_
  · exact List.forall_mem_cons.mpr ⟨.number (by decide),
      List.forall_mem_singleton.mpr (.number (by decide))⟩
  · simp only [List.map_cons, List.map_nil, List.reverse_cons, List.reverse_nil, List.nil_append,
      List.cons_append, lookup_entry]
    split <;> rfl

/-- A request with a number in its key. -/
def numberedKey : Request :=
  .getItem ⟨"t", ⟨[("k", .number "-.5e3")], List.pairwise_singleton _ _⟩, []⟩

def numberedKeyBody : String :=
  "\x7b\"TableName\":\"t\",\"Key\":\x7b\"k\":\x7b\"N\":\"-.5e3\"\x7d\x7d\x7d"

end Sample

theorem value_decoding_sample :
    decodeText value Sample.repeatedNameText = .ok (.map [("a", .number "2.0")]) ∧
      ∀ v ∈ Sample.numberedKey.values, v.invalidNumeral? = none :=
  ⟨(value_decoding.1 _ _ Sample.spelling_repeatedName (by decide) _).mpr
      Sample.denotes_repeatedName,
    value_decoding.2.1 .getItem Sample.numberedKeyBody _ (by decide +kernel)⟩

end Wire

end ItemStore
