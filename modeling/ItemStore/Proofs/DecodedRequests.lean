import ItemStore.Proofs.RequestText

/-!
# The values in decoded requests

Whatever a decoder yields holds values that decoders have yielded, so that what is true of these is
true of every value in a request.  As with what is written for a decoder, each way to make one out
of others is looked at once, and a line for each record says how it is made.

* `Request.values` — the values in a request: items, keys, new values and operands.
* `Wire.Yields`, `Wire.Record.Yields` — what is decoded has a property, or what a record is built
  to.
* **`Wire.request_yields`** — all numbers in the input of an operation are numerals.
* **`Wire.valid_of_decodeRequest`** — the same for the bodies of requests.
-/

namespace ItemStore

/-! ## The values in a request -/

def KeyBatch.values (b : KeyBatch) : List Value := b.keys.flatMap NameMap.values

def BatchedWrite.values (w : BatchedWrite) : List Value :=
  (w.put.toList ++ w.delete.toList).flatMap NameMap.values

/-- The values that stand in a request: items and keys, the values of updates, and the operands of
conditions. -/
def Request.values : Request → List Value
  | .putItem r => r.item.values
  | .getItem r => r.key.values
  | .updateItem r => r.key.values ++ r.updates.values.filterMap AttributeUpdate.value
  | .deleteItem r => r.key.values
  | .query q => (q.keyConditions.values ++ q.filter.values).flatMap Condition.operands
  | .scan s => s.filter.values.flatMap Condition.operands
  | .batchGetItem batches => batches.values.flatMap KeyBatch.values
  | .batchWriteItem batches => batches.values.flatten.flatMap BatchedWrite.values
  | .createTable _ | .deleteTable _ | .describeTable _ | .listTables _ | .executeStatement _ => []

/-- All numbers in a list of values are numerals. -/
def AllValid (vs : List Value) : Prop := ∀ v ∈ vs, v.Valid

lemma allValid_nil : AllValid [] := List.forall_mem_nil _

lemma allValid_append {vs ws : List Value} : AllValid (vs ++ ws) ↔ AllValid vs ∧ AllValid ws :=
  List.forall_mem_append

lemma allValid_flatMap {α : Type} {f : α → List Value} {as : List α} :
    AllValid (as.flatMap f) ↔ ∀ a ∈ as, AllValid (f a) :=
  List.forall_mem_flatMap

namespace Wire

/-! ## What decoders yield -/

section

variable {α β : Type} {P : α → Prop} {Q : β → Prop} {d : Decoder α}

/-- Whatever is decoded has a property. -/
def Yields (P : α → Prop) (d : Decoder α) : Prop :=
  ∀ room j a, d room j = .ok a → P a

lemma Yields.map {g : α → β} (h : Yields (fun a => Q (g a)) d) :
    Yields Q fun room j => (d room j).map g := by
  intro room j b hb
  obtain ⟨a, ha, rfl⟩ := map_eq_ok.mp hb
  exact h room j a ha

lemma value_yields : Yields Value.Valid value := fun _ _ _ h => (readable_of_value h).valid

lemma item_yields : Yields (fun i => AllValid i.values) item := by
  intro room j i h
  obtain ⟨inner, members, fs, rfl, hfs, rfl⟩ := item_eq_ok h
  exact List.forall_mem_map.mpr fun f hf => (readable_of_valueFields hfs f (mem_arrange hf)).valid

lemma eachElement_yields (h : Yields P d) {room : ℕ} : ∀ {js : List Json} {as : List α},
    eachElement d room js = .ok as → ∀ a ∈ as, P a
  | [], _, has => by
      cases has
      exact List.forall_mem_nil _
  | j :: js, _, has => by
      obtain ⟨a, ha, has⟩ := bind_eq_ok.mp has
      obtain ⟨as, hrest, has⟩ := bind_eq_ok.mp has
      cases has
      exact List.forall_mem_cons.mpr ⟨h room j a ha, eachElement_yields h hrest⟩

lemma listOf_yields (h : Yields P d) : Yields (fun as => ∀ a ∈ as, P a) (listOf d) := by
  intro room j as has
  unfold listOf at has
  split at has
  · exact eachElement_yields h has
  · cases has

lemma eachMember_yields (h : Yields P d) {room : ℕ} :
    ∀ {members : List (Option String × Json)} {es : List (String × α)},
      eachMember d room members = .ok es → ∀ e ∈ es, P e.2
  | [], _, hes => by
      cases hes
      exact List.forall_mem_nil _
  | (none, _) :: _, _, hes => by cases hes
  | (some name, j) :: members, _, hes => by
      obtain ⟨a, ha, hes⟩ := bind_eq_ok.mp hes
      obtain ⟨es, hrest, hes⟩ := bind_eq_ok.mp hes
      cases hes
      exact List.forall_mem_cons.mpr ⟨h room j a ha, eachMember_yields h hrest⟩

lemma nameListOf_yields (h : Yields P d) :
    Yields (fun l => ∀ a ∈ l.values, P a) (nameListOf d) := by
  intro room j l hl
  unfold nameListOf at hl
  split at hl
  · obtain ⟨es, hes, rfl⟩ := map_eq_ok.mp hl
    exact List.forall_mem_map.mpr fun e he => eachMember_yields h hes e (mem_ofList he)
  · cases hl

end

/-! ## What records yield -/

namespace Record

variable {α β : Type} {P : α → Prop} {Q : β → Prop} {d : Decoder α} {name : String}

/-- Whatever a record is built to has a property. -/
def Yields (P : α → Prop) (r : Record α) : Prop :=
  ∀ room get a, r.build room get = .ok a → P a

lemma Yields.map {r : Record α} (h : r.Yields P) {g : α → β} (hg : ∀ a, P a → Q (g a)) :
    (g <$> r).Yields Q := by
  intro room get b hb
  obtain ⟨_, hpure, hb⟩ := bind_eq_ok.mp hb
  cases hpure
  obtain ⟨a, ha, hb⟩ := bind_eq_ok.mp hb
  cases hb
  exact hg a (h room get a ha)

lemma Yields.seq {f : Record (α → β)} {r : Record α}
    (hf : f.Yields fun g => ∀ a, P a → Q (g a)) (hr : r.Yields P) : (f <*> r).Yields Q := by
  intro room get b hb
  obtain ⟨g, hg, hb⟩ := bind_eq_ok.mp hb
  obtain ⟨a, ha, hb⟩ := bind_eq_ok.mp hb
  cases hb
  exact hf room get g hg a (hr room get a ha)

lemma Yields.decode {r : Record α} (h : r.Yields P) : Wire.Yields P r.decode := by
  intro room j a ha
  obtain ⟨inner, get, rfl, hbuild⟩ := build_of_decode ha
  exact h inner get a hbuild

lemma required_yields (h : Wire.Yields P d) : (required name d).Yields P := by
  intro room get a ha
  simp only [required] at ha
  split at ha
  · exact h room _ a ha
  · cases ha

lemma optional_yields (h : Wire.Yields P d) :
    (optional name d).Yields fun x => ∀ a ∈ x, P a := by
  intro room get x hx a hxa
  obtain rfl := hxa
  simp only [optional, nullable.eq_def] at hx
  split at hx
  · split at hx
    · cases hx
    · obtain ⟨b, hb, hba⟩ := map_eq_ok.mp hx
      cases hba
      exact h room _ a hb
  · cases hx

lemma defaulted_yields {default : α} (h : Wire.Yields P d) (hdefault : P default) :
    (defaulted name d default).Yields P := by
  intro room get a ha
  simp only [defaulted] at ha
  split at ha
  · exact h room _ a ha
  · cases ha
    exact hdefault

lemma yields_trivial {r : Record α} : r.Yields fun _ => True := fun _ _ _ _ => trivial

end Record

open Record

/-! ## Parts of requests -/

lemma condition_yields : Yields (fun c => AllValid c.operands) condition :=
  ((Record.yields_trivial.map fun _ _ _ h => h).seq
    (defaulted_yields (listOf_yields value_yields) (List.forall_mem_nil _))).decode

/-- Conditions under names, which may be left out. -/
lemma conditions_yields (name : String) :
    (defaulted name (nameListOf condition) .empty).Yields fun l =>
      AllValid (l.values.flatMap Condition.operands) :=
  defaulted_yields
    (fun room j l h => allValid_flatMap.mpr (nameListOf_yields condition_yields room j l h))
    allValid_nil

lemma attributeUpdate_yields : Yields (fun u => ∀ v ∈ u.value, v.Valid) attributeUpdate :=
  (((optional_yields value_yields).map fun _ h _ _ => h).seq Record.yields_trivial).decode

lemma keyBatch_yields : Yields (fun b => AllValid b.values) keyBatch :=
  (((required_yields (listOf_yields item_yields)).map fun _ h _ _ => allValid_flatMap.mpr h).seq
    Record.yields_trivial).decode

lemma batchedWrite_yields : Yields (fun w => AllValid w.values) batchedWrite := by
  have hitem : ∀ name, Yields (fun i => AllValid i.values)
      (Record.decode (.required name item)) := fun name => (required_yields item_yields).decode
  refine (((optional_yields (hitem "Item")).map ?_).seq (optional_yields (hitem "Key"))).decode
  intro put hput delete hdelete
  refine allValid_flatMap.mpr (List.forall_mem_append.mpr ⟨?_, ?_⟩)
  · exact fun i hi => hput i (Option.mem_toList.mp hi)
  · exact fun i hi => hdelete i (Option.mem_toList.mp hi)

/-! ## Requests -/

lemma putItem_yields : Yields (fun r => AllValid r.item.values) putItem :=
  (((Record.yields_trivial.map fun _ _ _ h _ _ => h).seq (required_yields item_yields)).seq
    Record.yields_trivial).decode

lemma getItem_yields : Yields (fun r => AllValid r.key.values) getItem :=
  (((Record.yields_trivial.map fun _ _ _ h _ _ => h).seq (required_yields item_yields)).seq
    Record.yields_trivial).decode

lemma updateItem_yields :
    Yields (fun r => AllValid (Request.updateItem r).values) updateItem := by
  refine ((((Record.yields_trivial.map ?_).seq (required_yields item_yields)).seq
    (defaulted_yields (nameListOf_yields attributeUpdate_yields) (List.forall_mem_nil _))).seq
    Record.yields_trivial).decode
  intro table _ key hkey updates hupdates returned _
  refine allValid_append.mpr ⟨hkey, fun v hv => ?_⟩
  obtain ⟨u, hu, hvalue⟩ := List.mem_filterMap.mp hv
  exact hupdates u hu v hvalue

lemma deleteItem_yields : Yields (fun r => AllValid r.key.values) deleteItem :=
  (((Record.yields_trivial.map fun _ _ _ h _ _ => h).seq (required_yields item_yields)).seq
    Record.yields_trivial).decode

lemma query_yields : Yields (fun q => AllValid (Request.query q).values) query := by
  refine ((((((Record.yields_trivial.map ?_).seq Record.yields_trivial).seq
    (conditions_yields _)).seq
    (conditions_yields _)).seq
    Record.yields_trivial).seq Record.yields_trivial).decode
  intro table _ index _ keyConditions hkeys filter hfilter combinator _ attributes _
  show AllValid ((keyConditions.values ++ filter.values).flatMap Condition.operands)
  rw [List.flatMap_append]
  exact allValid_append.mpr ⟨hkeys, hfilter⟩

lemma scan_yields : Yields (fun s => AllValid (Request.scan s).values) scan := by
  refine ((((Record.yields_trivial.map ?_).seq
    (conditions_yields _)).seq
    Record.yields_trivial).seq Record.yields_trivial).decode
  exact fun _ _ _ h _ _ _ _ => h

lemma batchGetItem_yields :
    Yields (fun b => AllValid (Request.batchGetItem b).values) batchGetItem := by
  intro room j batches h
  exact allValid_flatMap.mpr
    ((required_yields (nameListOf_yields keyBatch_yields)).decode room j batches h)

lemma batchWriteItem_yields :
    Yields (fun b => AllValid (Request.batchWriteItem b).values) batchWriteItem := by
  intro room j batches h
  have hwrites := (required_yields (nameListOf_yields (listOf_yields batchedWrite_yields))).decode
    room j batches h
  exact allValid_flatMap.mpr (List.forall_mem_flatten.mpr hwrites)

/-- **All numbers in the input of an operation are numerals.** -/
theorem request_yields (op : Operation) : Yields (fun r => AllValid r.values) (request op) := by
  cases op with
  | createTable => exact Yields.map fun _ _ _ _ => allValid_nil
  | deleteTable => exact Yields.map fun _ _ _ _ => allValid_nil
  | describeTable => exact Yields.map fun _ _ _ _ => allValid_nil
  | listTables => exact Yields.map fun _ _ _ _ => allValid_nil
  | putItem => exact Yields.map putItem_yields
  | getItem => exact Yields.map getItem_yields
  | updateItem => exact Yields.map updateItem_yields
  | deleteItem => exact Yields.map deleteItem_yields
  | query => exact Yields.map query_yields
  | scan => exact Yields.map scan_yields
  | batchGetItem => exact Yields.map batchGetItem_yields
  | batchWriteItem => exact Yields.map batchWriteItem_yields
  | executeStatement => exact Yields.map fun _ _ _ _ => allValid_nil

/-- **All numbers in a request that is decoded from a body are numerals.** -/
theorem valid_of_decodeRequest {op : Operation} {body : String} {r : Request}
    (h : decodeRequest op body = .ok r) : AllValid r.values := by
  obtain ⟨j, hj⟩ := exists_of_decodeText h
  exact request_yields op maxDepth j r hj

end Wire

end ItemStore
