import ItemStore.Proofs.StoredItems
import ItemStore.Proofs.ValueText
import ItemStore.Service

/-!
# Requests that fail

A request is answered in three steps: it is read, the store answers, and the response is written.
The last step comes when the tables have changed already, so a response that could not be written
would be a write that is made and then reported as failed.  There is none.

* **`Wire.isWritable_encodeResponse`** — every response can be written, and `Store.dispatch_fst` —
  writing is no reason to fail.
* `Store.answer_failed`, `Store.answer_reader` — what fails leaves the store alone, batches of
  writes apart, and so does what only reads.  For what writes this goes by the order of its steps,
  one request after the other (`ItemStore.Proofs.Attempts`).
* **`Store.dispatch_failed`** — the same for operations and bodies of any kind.
-/

namespace ItemStore

/-! ## Values that can be written -/

namespace Json

lemma isWritable_array {elements : List Json} :
    (Json.array elements).isWritable = true ↔ ∀ j ∈ elements, j.isWritable = true := by
  simp only [isWritable]
  induction elements with
  | nil => simp [elementsWritable]
  | cons j rest ih => simp [elementsWritable, ih]

lemma isWritable_object {members : List (Option String × Json)} :
    (Json.object members).isWritable = true ↔
      ∀ m ∈ members, m.1.isSome = true ∧ m.2.isWritable = true := by
  simp only [isWritable]
  induction members with
  | nil => simp [membersWritable]
  | cons m rest ih => simp [membersWritable, ih, and_assoc]

/-- Members of a record that can be written. -/
def AllWritable (members : List (String × Json)) : Prop :=
  ∀ m ∈ members, m.2.isWritable = true

section

variable {α : Type} {name : String} {members : List (String × Json)} {j : Json}

@[simp] lemma isWritable_bool (b : Bool) : (Json.bool b).isWritable = true := rfl

@[simp] lemma isWritable_number (literal : String) : (Json.number literal).isWritable = true := rfl

@[simp] lemma isWritable_text (s : String) : (text s).isWritable = true := rfl

@[simp] lemma isWritable_nat (n : ℕ) : (nat n).isWritable = true := rfl

@[simp] lemma isWritable_record : (record members).isWritable = true ↔ AllWritable members := by
  rw [record, isWritable_object, List.forall_mem_map]
  exact forall₂_congr fun _ _ => and_iff_right rfl

@[simp] lemma isWritable_arrayOf {encode : α → Json} {elements : List α} :
    (arrayOf encode elements).isWritable = true ↔ ∀ a ∈ elements, (encode a).isWritable = true := by
  rw [arrayOf, isWritable_array, List.forall_mem_map]

@[simp] lemma allWritable_nil : AllWritable [] :=
  List.forall_mem_nil _

@[simp] lemma allWritable_cons :
    AllWritable ((name, j) :: members) ↔ j.isWritable = true ∧ AllWritable members :=
  List.forall_mem_cons

@[simp] lemma allWritable_append {more : List (String × Json)} :
    AllWritable (members ++ more) ↔ AllWritable members ∧ AllWritable more :=
  List.forall_mem_append

@[simp] lemma allWritable_optional {encode : α → Json} {value : Option α} :
    AllWritable (optional name encode value) ↔ ∀ a ∈ value, (encode a).isWritable = true := by
  cases value <;> simp [optional]

@[simp] lemma allWritable_nonempty {encode : List α → Json} {elements : List α} :
    AllWritable (nonempty name encode elements) ↔
      (elements ≠ [] → (encode elements).isWritable = true) := by
  cases elements <;> simp [nonempty]

end

end Json

/-! ## Responses can be written -/

namespace Wire

open Json

@[simp] lemma isWritable_encodeValue (v : Value) : (encodeValue v).isWritable = true := by
  induction v using Value.nestedInduction with
  | text s => simp [encodeValue]
  | number n => simp [encodeValue]
  | bool b => simp [encodeValue]
  | null => simp [encodeValue]
  | list vs ih =>
      rw [encodeValue, encodeElements_eq, isWritable_record, allWritable_cons, isWritable_array,
        List.forall_mem_map]
      exact ⟨ih, allWritable_nil⟩
  | map fs ih =>
      rw [encodeValue, encodeFields_eq, isWritable_record, allWritable_cons, isWritable_object,
        List.forall_mem_map]
      exact ⟨fun f hf => ⟨rfl, ih f hf⟩, allWritable_nil⟩

@[simp] lemma isWritable_encodeItem (item : Item) : (encodeItem item).isWritable = true := by
  rw [encodeItem, encodeFields_eq, isWritable_object, List.forall_mem_map]
  exact fun f _ => ⟨rfl, isWritable_encodeValue f.2⟩

@[simp] lemma isWritable_encodeItems (items : List Item) :
    (encodeItems items).isWritable = true := by
  simp [encodeItems]

@[simp] lemma isWritable_encodeIndexProjection (p : IndexProjection) :
    (encodeIndexProjection p).isWritable = true := by
  simp [encodeIndexProjection]

@[simp] lemma isWritable_encodeKeyElement (e : KeyElement) :
    (encodeKeyElement e).isWritable = true := by
  simp [encodeKeyElement]

@[simp] lemma isWritable_encodeCount (n : ℕ) : (encodeCount n).isWritable = true := rfl

@[simp] lemma isWritable_encodeTotal (n : ℕ) : (encodeTotal n).isWritable = true := rfl

@[simp] lemma isWritable_encodeTable (t : TableDescription) :
    (encodeTable t).isWritable = true := by
  simp [encodeTable, encodeGlobalIndex, encodeLocalIndex, encodeAttributeDefinition, encodeTime]

/-- **Every response can be written.** -/
theorem isWritable_encodeResponse (r : Response) : (encodeResponse r).isWritable = true := by
  cases r with
  | batch items =>
      have hitems : AllWritable (items.entries.map fun e => (e.1, encodeItems e.2)) :=
        List.forall_mem_map.mpr fun e _ => isWritable_encodeItems e.2
      simp [encodeResponse, hitems]
  | _ => simp [encodeResponse]

/-! ## Operations of requests -/

lemma operation_of_request {op : Operation} {room : ℕ} {j : Json} {r : Request}
    (h : request op room j = .ok r) : r.operation = op := by
  cases op <;> obtain ⟨_, _, rfl⟩ := map_eq_ok.mp h <;> rfl

lemma operation_of_decodeRequest {op : Operation} {body : String} {r : Request}
    (h : decodeRequest op body = .ok r) : r.operation = op := by
  rw [decodeRequest, decodeText] at h
  generalize Json.read _ = result at h
  obtain ⟨j, complete⟩ := result
  obtain ⟨r', hr', h⟩ := bind_eq_ok.mp h
  split at h
  · cases h
    exact operation_of_request hr'
  · cases h

end Wire

/-- A request that was read is one for the operation that was named. -/
lemma Request.name_of_read {operation body : String} {r : Request}
    (h : Request.read operation body = .ok r) : r.operation.name = operation := by
  rw [Request.read] at h
  split at h
  · cases h
  · rename_i op hop
    rw [mapError_eq_ok] at h
    rw [Wire.operation_of_decodeRequest h]
    simpa using List.find?_some hop

/-- The operations that only read. -/
def Operation.readers : List Operation :=
  [getItem, query, scan, batchGetItem, executeStatement, describeTable, listTables]

lemma Operation.name_injective : Function.Injective Operation.name := by
  intro a b h
  exact Option.some.inj (by rw [← ofName?_name a, ← ofName?_name b, h])

/-! ## Failure -/

namespace Store

variable {s : Store} {stamp : Stamp}

/-- What atomic work leaves with a fault. -/
lemma writing_failed {answer : Work Fault Catalog Response} (hatomic : answer.Atomic) {e : Fault}
    (h : (s.writing answer).1 = .error e) : (s.writing answer).2 = s := by
  change { s with catalog := (answer.on s.catalog).2 } = s
  rw [hatomic s.catalog e h]

/-- A request that fails leaves the store alone, unless it is a batch of writes.  A request that
reads has nothing to change; each of the others makes its checks first. -/
lemma answer_failed {r : Request} {e : Fault} (h : (s.answer stamp r).1 = .error e)
    (hbatch : r.operation ≠ .batchWriteItem) : (s.answer stamp r).2 = s := by
  cases r with
  | createTable d => exact (writing_failed (Answer.createTable_atomic s.settings stamp d) h :)
  | deleteTable name => exact (writing_failed (Answer.deleteTable_atomic name) h :)
  | putItem r => exact (writing_failed (Answer.putItem_atomic r) h :)
  | updateItem r => exact (writing_failed (Answer.updateItem_atomic r) h :)
  | deleteItem r => exact (writing_failed (Answer.deleteItem_atomic r) h :)
  | batchWriteItem _ => exact absurd rfl hbatch
  | _ => rfl

/-- A request that only reads leaves the store alone. -/
lemma answer_reader {r : Request} (h : r.operation ∈ Operation.readers) :
    (s.answer stamp r).2 = s := by
  cases r with
  | createTable _ | deleteTable _ | putItem _ | updateItem _ | deleteItem _ | batchWriteItem _ =>
      simp [Request.operation, Operation.readers] at h
  | _ => rfl

end Store

/-! ## Dispatched requests -/

lemma Wire.writeResponse_eq (r : Response) : writeResponse r = .ok (encodeResponse r).render :=
  if_pos (isWritable_encodeResponse r)

namespace Store

variable {s : Store} {stamp : Stamp} {operation body : String}

lemma dispatch_snd : (s.dispatch stamp operation body).2 = (s.serve stamp operation body).2 := rfl

/-- Writing is no reason to fail. -/
lemma dispatch_fst :
    (s.dispatch stamp operation body).1
      = match (s.serve stamp operation body).1 with
        | .ok response => .ok (Wire.encodeResponse response).render
        | .error fault => .error fault.report := by
  show (s.serve stamp operation body).1.mapError Fault.report >>= Wire.writeResponse = _
  cases (s.serve stamp operation body).1 with
  | ok response => exact Wire.writeResponse_eq response
  | error fault => rfl

lemma serve_cases (s : Store) (stamp : Stamp) (operation body : String) :
    (∃ e, s.serve stamp operation body = (.error e, s)) ∨
      ∃ r : Request, r.operation.name = operation ∧
        s.serve stamp operation body = s.answer stamp r := by
  rw [serve]
  cases hread : Request.read operation body with
  | error e => exact Or.inl ⟨e, rfl⟩
  | ok r => exact Or.inr ⟨r, Request.name_of_read hread, rfl⟩

lemma serve_failed {e : Fault} (h : (s.serve stamp operation body).1 = .error e)
    (hbatch : operation ≠ Operation.batchWriteItem.name) :
    (s.serve stamp operation body).2 = s := by
  rcases s.serve_cases stamp operation body with ⟨e', hserve⟩ | ⟨r, rfl, hserve⟩
  · rw [hserve]
  · rw [hserve] at h ⊢
    refine answer_failed h fun hop => hbatch ?_
    rw [hop]

lemma serve_reader (h : operation ∈ Operation.readers.map Operation.name) :
    (s.serve stamp operation body).2 = s := by
  rcases s.serve_cases stamp operation body with ⟨e, hserve⟩ | ⟨r, rfl, hserve⟩
  · rw [hserve]
  · rw [hserve]
    exact answer_reader ((List.mem_map_of_injective Operation.name_injective).mp h)

/-- **What fails leaves no trace.**  Where dispatching fails, whatever the operation is called and
whatever stands in the body, the store is as it was, unless a batch of writes was asked for.  A
reading operation leaves the store alone in any case.  What the store has answered is written. -/
theorem dispatch_failed (s : Store) (stamp : Stamp) (operation body : String) :
    (∀ report, (s.dispatch stamp operation body).1 = .error report →
        operation ≠ Operation.batchWriteItem.name → (s.dispatch stamp operation body).2 = s) ∧
      (operation ∈ Operation.readers.map Operation.name →
        (s.dispatch stamp operation body).2 = s) ∧
      ∀ response, (s.serve stamp operation body).1 = .ok response →
        (s.dispatch stamp operation body).1 = .ok (Wire.encodeResponse response).render := by
  rw [dispatch_fst, dispatch_snd]
  refine ⟨fun report h hbatch => ?_, serve_reader, fun response h => ?_⟩
  · cases hserve : (s.serve stamp operation body).1 with
    | ok response =>
        rw [hserve] at h
        cases h
    | error e => exact serve_failed hserve hbatch
  · rw [h]

end Store

/-- Updates of which the second is refused. -/
def Sample.updates : String :=
  "\x7b\"TableName\":\"Readings\",\"Key\":\x7b\"id\":\x7b\"N\":\"5\"\x7d\x7d," ++
    "\"AttributeUpdates\":\x7b\"note\":\x7b\"Action\":\"DELETE\"\x7d," ++
    "\"id\":\x7b\"Action\":\"DELETE\"\x7d\x7d\x7d"

theorem Store.dispatch_failed_sample :
    (Sample.store.dispatch Sample.stamp "UpdateItem" Sample.updates).1
        = .error (Fault.requestFault (.keyUpdate "id")).report ∧
      (Sample.store.dispatch Sample.stamp "UpdateItem" Sample.updates).2 = Sample.store := by
  have herror : (Sample.store.dispatch Sample.stamp "UpdateItem" Sample.updates).1
      = .error (Fault.requestFault (.keyUpdate "id")).report := by
    decide +kernel
  exact ⟨herror,
    (dispatch_failed Sample.store Sample.stamp "UpdateItem" Sample.updates).1 _ herror (by decide)⟩

end ItemStore
