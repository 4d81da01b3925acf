import ItemStore.Proofs.Decoders

/-!
# Requests are read back as they were

The input of a request is written field by field, some fields only where they hold something.  What
is read from that is the same input, because the fields that are left out are the ones that have the
value left out as their default.  A line for each record says how its decoder is made; the names of
its fields are different, and what its parts write is what the whole writes.

* **`Wire.request_restores`** — the input of every operation is decoded again from what is written
  for it.
* **`Wire.decodeRequest_render`** — the same for the bodies of requests.
-/

namespace ItemStore.Wire

open Record

variable {least : ℕ}

/-! ## Declarations -/

lemma keyRole_restores : Restores least keyRole (fun r => .text r.name) :=
  variant_restores fun r => by cases r <;> rfl

lemma coverage_restores : Restores least coverage (fun c => .text c.name) :=
  variant_restores fun c => by cases c <;> rfl

lemma scalarType_restores : Restores least scalarType (fun t => .text t.name) :=
  named_restores ScalarType.name_ofName

lemma keyElement_restores : Restores (least + 1) keyElement encodeKeyElement :=
  (((required_restores string_restores).map KeyElement.mk).seq
    (required_restores keyRole_restores)).decode (by decide) fun _ => rfl

lemma attributeDefinition_restores :
    Restores (least + 1) attributeDefinition encodeAttributeDefinition :=
  (((required_restores string_restores).map AttributeDefinition.mk).seq
    (required_restores scalarType_restores)).decode (by decide) fun _ => rfl

lemma indexProjection_restores : Restores (least + 2) indexProjection encodeIndexProjection :=
  (((optional_restores coverage_restores).map IndexProjection.mk).seq
    (nonempty_restores string_restores)).decode (by decide) fun _ => rfl

/-- What an index is declared to carry is written even where nothing is given. -/
lemma indexDeclaration_restores : Restores (least + 3) indexDeclaration encodeIndexDeclaration :=
  ((((required_restores string_restores).map IndexDeclaration.mk).seq
    (required_restores (listOf_restores keyElement_restores))).seq
    (defaulted_restores indexProjection_restores (fun room hroom => by
      obtain ⟨room, rfl⟩ := Nat.exists_eq_add_of_le' hroom
      exact ⟨.object [], rfl⟩) fun _ => Or.inl rfl)).decode (by decide) fun _ => rfl

/-- The types of attributes are written even where none is declared. -/
lemma tableDeclaration_restores : Restores (least + 5) tableDeclaration encodeTableDeclaration :=
  ((((((required_restores string_restores).map TableDeclaration.mk).seq
    (required_restores (listOf_restores keyElement_restores))).seq
    (defaulted_restores (listOf_restores attributeDefinition_restores) exists_listOf_nil
      fun _ => Or.inl rfl)).seq
    (nonempty_restores indexDeclaration_restores)).seq
    (nonempty_restores indexDeclaration_restores)).decode (by decide) fun _ => rfl

/-! ## Parts of requests -/

lemma returned_restores : Restores least returned (fun r => .text r.name) :=
  variant_restores fun r => by cases r <;> rfl

lemma updateAction_restores : Restores least updateAction (fun a => .text a.name) :=
  variant_restores fun a => by cases a <;> rfl

lemma combinator_restores : Restores least combinator (fun c => .text c.name) :=
  variant_restores fun c => by cases c <;> rfl

lemma operator_restores : Restores least operator (fun op => .text op.name) :=
  named_restores Operator.name_ofName

lemma condition_restores : Restores (least + 2) condition encodeCondition :=
  (((required_restores operator_restores).map Condition.mk).seq
    (nonempty_restores value_restores)).decode (by decide) fun _ => rfl

lemma attributeUpdate_restores : Restores (least + 1) attributeUpdate encodeAttributeUpdate :=
  (((optional_restores value_restores).map AttributeUpdate.mk).seq
    (optional_restores updateAction_restores)).decode (by decide) fun _ => rfl

lemma keyBatch_restores : Restores (least + 2) keyBatch encodeKeyBatch :=
  (((required_restores (listOf_restores item_restores)).map KeyBatch.mk).seq
    (nonempty_restores string_restores)).decode (by decide) fun _ => rfl

/-- A record that is an item under a name. -/
lemma itemUnder_restores (name : String) :
    Restores (least + 1) (Record.decode (.required name item))
      (fun i => .record [(name, encodeItem i)]) :=
  (required_restores item_restores).decode (by simp [required]) fun _ => rfl

lemma batchedWrite_restores : Restores (least + 2) batchedWrite encodeBatchedWrite :=
  (((optional_restores (itemUnder_restores "Item")).map BatchedWrite.mk).seq
    (optional_restores (itemUnder_restores "Key"))).decode (by decide) fun _ => rfl

/-! ## Inputs -/

lemma tableName_restores : Restores (least + 1) tableName
    fun t => .record [("TableName", .text t)] :=
  (required_restores string_restores).decode (by decide) fun _ => rfl

lemma listTables_restores : Restores (least + 1) listTables
    fun r => encodeRequest (.listTables r) :=
  (((optional_restores string_restores).map ListTables.mk).seq
    (optional_restores int32_restores)).decode (by decide) fun _ => rfl

lemma putItem_restores : Restores (least + 1) putItem fun r => encodeRequest (.putItem r) :=
  ((((required_restores string_restores).map PutItem.mk).seq
    (required_restores item_restores)).seq
    (optional_restores returned_restores)).decode (by decide) fun _ => rfl

lemma getItem_restores : Restores (least + 2) getItem fun r => encodeRequest (.getItem r) :=
  ((((required_restores string_restores).map GetItem.mk).seq
    (required_restores item_restores)).seq
    (nonempty_restores string_restores)).decode (by decide) fun _ => rfl

lemma updateItem_restores : Restores (least + 3) updateItem
    fun r => encodeRequest (.updateItem r) :=
  (((((required_restores string_restores).map UpdateItem.mk).seq
    (required_restores item_restores)).seq
    (nonemptyNames_restores attributeUpdate_restores)).seq
    (optional_restores returned_restores)).decode (by decide) fun _ => rfl

lemma deleteItem_restores : Restores (least + 1) deleteItem
    fun r => encodeRequest (.deleteItem r) :=
  ((((required_restores string_restores).map DeleteItem.mk).seq
    (required_restores item_restores)).seq
    (optional_restores returned_restores)).decode (by decide) fun _ => rfl

/-- The key conditions are written even where there are none. -/
lemma query_restores : Restores (least + 4) query fun r => encodeRequest (.query r) :=
  (((((((required_restores string_restores).map Query.mk).seq
    (optional_restores string_restores)).seq
    (defaulted_restores (nameListOf_restores condition_restores) exists_nameListOf_empty
      fun _ => Or.inl rfl)).seq
    (nonemptyNames_restores condition_restores)).seq
    (optional_restores combinator_restores)).seq
    (nonempty_restores string_restores)).decode (by decide) fun _ => rfl

lemma scan_restores : Restores (least + 4) scan fun r => encodeRequest (.scan r) :=
  (((((required_restores string_restores).map Scan.mk).seq
    (nonemptyNames_restores condition_restores)).seq
    (optional_restores combinator_restores)).seq
    (nonempty_restores string_restores)).decode (by decide) fun _ => rfl

lemma batchGetItem_restores : Restores (least + 4) batchGetItem
    fun b => encodeRequest (.batchGetItem b) :=
  (required_restores (nameListOf_restores keyBatch_restores)).decode (by decide) fun _ => rfl

lemma batchWriteItem_restores : Restores (least + 5) batchWriteItem
    fun b => encodeRequest (.batchWriteItem b) :=
  (required_restores (nameListOf_restores (listOf_restores batchedWrite_restores))).decode
    (by decide) fun _ => rfl

lemma statement_restores : Restores (least + 1) statement
    fun s => encodeRequest (.executeStatement s) :=
  (required_restores string_restores).decode (by decide) fun _ => rfl

/-! ## Requests -/

/-- **The input of every operation is restored.** -/
theorem request_restores (op : Operation) : Restores (least + 5) (request op) encodeRequest := by
  cases op with
  | createTable => exact map_restores tableDeclaration_restores
  | deleteTable => exact map_restores tableName_restores
  | describeTable => exact map_restores tableName_restores
  | listTables => exact map_restores listTables_restores
  | putItem => exact map_restores putItem_restores
  | getItem => exact map_restores getItem_restores
  | updateItem => exact map_restores updateItem_restores
  | deleteItem => exact map_restores deleteItem_restores
  | query => exact map_restores query_restores
  | scan => exact map_restores scan_restores
  | batchGetItem => exact map_restores batchGetItem_restores
  | batchWriteItem => exact map_restores batchWriteItem_restores
  | executeStatement => exact map_restores statement_restores

lemma exists_of_decodeText {α : Type} {d : Decoder α} {text : String} {a : α}
    (h : decodeText d text = .ok a) : ∃ j, d maxDepth j = .ok a := by
  rw [decodeText] at h
  generalize Json.read text = parsed at h
  obtain ⟨j, complete⟩ := parsed
  obtain ⟨b, hb, h⟩ := bind_eq_ok.mp h
  cases complete with
  | false => cases h
  | true =>
      cases h
      exact ⟨j, hb⟩

/-- The text of an object is not blank. -/
lemma isBlankBody_render (members : List (Option String × Json)) :
    isBlankBody (Json.object members).render = false := by
  rw [isBlankBody, Json.render, String.toList_ofList, Json.chars]
  rfl

/-- **Requests survive the way through JSON.**  The input that is decoded from the body of an
operation is written as a text from which the operation gets that same input: names stand in the
order in which they were mentioned, unknown operators and types keep their names, and what was
absent is absent again. -/
theorem decodeRequest_render (op : Operation) (body : String) (r : Request)
    (h : decodeRequest op body = .ok r) : decodeRequest op (encodeRequest r).render = .ok r := by
  obtain ⟨j, hj⟩ := exists_of_decodeText h
  have hrestores : Restores 5 (request op) encodeRequest := request_restores op
  have hrestored := hrestores maxDepth j r (by decide) hj
  have hblank : isBlankBody (encodeRequest r).render = false := by
    cases r <;> exact isBlankBody_render _
  rw [decodeRequest, hblank]
  exact (decodeText_render _ hrestored.legible).trans hrestored.decoded

namespace Sample

/-- The body of a query whose filter mentions a name twice, has an operator that the store does not
have and a condition that is written as an array. -/
def queryBody : Json :=
  .object
    [ (some "QueryFilter", .object
        [ (some "z", .record [("ComparisonOperator", .text "EQ")]),
          (some "a", .array [.text "NE", .array [encodeValue (.map [("x", .number "+1.0")])]]),
          (some "z", .record
            [("AttributeValueList", .array []), ("ComparisonOperator", .text "~")])]),
      (some "ConditionalOperator", .object [(some "OR", .null)]),
      (some "IndexName", .null),
      (some "TableName", .text "t\"")]

lemma legible_queryBody : queryBody.Legible := by
  have htext : ∀ s, (Json.text s).Legible := fun s => .string (some s)
  simp only [queryBody, Json.record, List.map_cons, List.map_nil]
  refine .object (List.forall_mem_cons.mpr ⟨.object ?_, ?_⟩)
  · simp only [List.forall_mem_cons]
    refine ⟨.object ?_, .array ?_, .object ?_, List.forall_mem_nil _⟩
    · simpa using htext "EQ"
    · simpa using ⟨htext "NE", .array (by simpa using legible_encodeValue _)⟩
    · simpa using ⟨.array (List.forall_mem_nil _), htext "~"⟩
  · simpa using ⟨.object (by simpa using .null), .null, htext "t\""⟩

/-- What that query asks. -/
def query : Query where
  table := "t\""
  index := none
  keyConditions := .empty
  filter :=
    ⟨[("z", ⟨.unknown "~", []⟩), ("a", ⟨.ne, [.map [("x", .number "+1.0")]]⟩)], by decide⟩
  combinator := some .any
  attributes := []

end Sample

theorem decodeRequest_render_sample :
    decodeRequest .query Sample.queryBody.render = .ok (.query Sample.query) ∧
      decodeRequest .query (encodeRequest (.query Sample.query)).render
        = .ok (.query Sample.query) := by
  have h : decodeRequest .query Sample.queryBody.render = .ok (.query Sample.query) := by
    have hblank : isBlankBody Sample.queryBody.render = false := isBlankBody_render _
    rw [decodeRequest, hblank, if_neg Bool.false_ne_true,
      decodeText_render _ Sample.legible_queryBody]
    decide +kernel
  exact ⟨h, decodeRequest_render .query _ _ h⟩

end ItemStore.Wire
