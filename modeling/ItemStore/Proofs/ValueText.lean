import ItemStore.Proofs.JsonText
import ItemStore.Proofs.Keys
import ItemStore.Wire.Value

/-!
# Values are read back as they were

A value is written as JSON and read again by two procedures that walk it side by side.  What comes
back is the value itself, with the spelling of its numbers, unless a text that it gives for a number
is no numeral or it nests too deep for a reader.

* `Value.depth` — how many containers of JSON stand one inside the other where a value is written.
* `Value.InOrder` — the fields of maps stand in order of their names, at every depth.
* **`Wire.value_encodeValue_eq_ok`** — which values are read back with a given room.
* **`Wire.readable_of_value`** — whatever is read from JSON is such a value.
* **`Wire.value_roundTrip`** — the same for texts, which have room for 127 containers.
-/

namespace ItemStore

open Wire

/-! ## Depth and order -/

namespace Value

mutual

/-- The containers of JSON that stand one inside the other where a value is written.  A scalar has
the one that holds its tag; a list or a map has one more, around everything in it. -/
def depth : Value → ℕ
  | .list elements => elementsDepth elements + 2
  | .map fields => fieldsDepth fields + 2
  | .text _ | .number _ | .bool _ | .null => 1

def elementsDepth : List Value → ℕ
  | [] => 0
  | v :: rest => max (depth v) (elementsDepth rest)

def fieldsDepth : List (String × Value) → ℕ
  | [] => 0
  | (_, v) :: rest => max (depth v) (fieldsDepth rest)

end

lemma elementsDepth_le {n : ℕ} : ∀ {vs : List Value},
    elementsDepth vs ≤ n ↔ ∀ v ∈ vs, v.depth ≤ n
  | [] => by simp [elementsDepth]
  | v :: vs => by rw [elementsDepth, max_le_iff, elementsDepth_le, List.forall_mem_cons]

lemma fieldsDepth_le {n : ℕ} : ∀ {fs : List (String × Value)},
    fieldsDepth fs ≤ n ↔ ∀ f ∈ fs, f.2.depth ≤ n
  | [] => by simp [fieldsDepth]
  | (name, v) :: fs => by rw [fieldsDepth, max_le_iff, fieldsDepth_le, List.forall_mem_cons]

/-- The fields of every map in a value stand in order of their names. -/
inductive InOrder : Value → Prop
  | text (s : String) : InOrder (.text s)
  | number (n : String) : InOrder (.number n)
  | bool (b : Bool) : InOrder (.bool b)
  | null : InOrder .null
  | list {vs : List Value} (h : ∀ v ∈ vs, InOrder v) : InOrder (.list vs)
  | map {fs : List (String × Value)} (horder : Ascending fs) (h : ∀ f ∈ fs, InOrder f.2) :
      InOrder (.map fs)

/-- What a value needs to be read back with some room. -/
structure Readable (room : ℕ) (v : Value) : Prop where
  inOrder : v.InOrder
  valid : v.Valid
  depth_le : v.depth ≤ room

end Value

/-! ## Arranging what is in order -/

section

variable {α : Type}

lemma insertEntry_of_lt {name : String} (a : α) : ∀ {es : List (String × α)},
    (∀ e ∈ es, e.1 < name) → insertEntry name a es = es ++ [(name, a)]
  | [], _ => rfl
  | e :: es, h => by
      rw [List.forall_mem_cons] at h
      rw [insertEntry, if_pos h.1, insertEntry_of_lt a h.2, List.cons_append]

/-- Entries in order are left as they are. -/
theorem arrange_of_ascending {es : List (String × α)} (h : Ascending es) : arrange es = es := by
  suffices hfold : ∀ sorted : List (String × α), Ascending (sorted ++ es) →
      es.foldl (fun sorted e => insertEntry e.1 e.2 sorted) sorted = sorted ++ es from hfold [] h
  clear h
  induction es with
  | nil => exact fun sorted _ => (List.append_nil sorted).symm
  | cons e es ih =>
      intro sorted h
      have hbelow : ∀ d ∈ sorted, d.1 < e.1 :=
        fun d hd => (List.pairwise_append.mp h).2.2 d hd e List.mem_cons_self
      rw [List.foldl_cons, insertEntry_of_lt e.2 hbelow, ih, List.append_assoc,
        List.singleton_append]
      rwa [List.append_assoc, List.singleton_append]

lemma mem_arrange {e : String × α} {es : List (String × α)} (h : e ∈ arrange es) : e ∈ es := by
  suffices hfold : ∀ sorted : List (String × α),
      e ∈ es.foldl (fun sorted e => insertEntry e.1 e.2 sorted) sorted → e ∈ sorted ∨ e ∈ es from
    (hfold [] h).resolve_left (List.not_mem_nil)
  clear h
  induction es with
  | nil => exact fun sorted h => Or.inl h
  | cons d es ih =>
      intro sorted h
      rcases ih _ h with h | h
      · rcases mem_insertEntry h with rfl | h
        · exact Or.inr List.mem_cons_self
        · exact Or.inl h
      · exact Or.inr (List.mem_cons_of_mem d h)

end

namespace Wire

/-! ## Writing -/

lemma encodeElements_eq (vs : List Value) : encodeElements vs = vs.map encodeValue := by
  induction vs with
  | nil => rfl
  | cons v rest ih => rw [encodeElements, ih, List.map_cons]

lemma encodeFields_eq (fs : List (String × Value)) :
    encodeFields fs = fs.map fun f => (some f.1, encodeValue f.2) := by
  induction fs with
  | nil => rfl
  | cons f rest ih => rw [encodeFields, ih, List.map_cons]

/-- What is written of a value can be read, whatever its numbers and names. -/
lemma legible_encodeValue (v : Value) : (encodeValue v).Legible := by
  induction v using Value.nestedInduction with
  | text s => exact .object (List.forall_mem_singleton.mpr (.string _))
  | number n => exact .object (List.forall_mem_singleton.mpr (.string _))
  | bool b => exact .object (List.forall_mem_singleton.mpr (.bool _))
  | null => exact .object (List.forall_mem_singleton.mpr (.bool _))
  | list vs ih =>
      refine .object (List.forall_mem_singleton.mpr (.array ?_))
      rw [encodeElements_eq]
      exact List.forall_mem_map.mpr ih
  | map fs ih =>
      refine .object (List.forall_mem_singleton.mpr (.object ?_))
      rw [encodeFields_eq]
      exact List.forall_mem_map.mpr ih

/-! ## Reading a written value, level by level -/

section

variable {room : ℕ} {w : Value}

/-- An object with one member is read by what stands under its tag. -/
lemma value_record_eq_ok {tag : String} {j : Json} :
    value room (.record [(tag, j)]) = .ok w
      ↔ ∃ inner, room = inner + 1 ∧ isTag tag = true ∧ payload inner tag j = .ok w := by
  cases room with
  | zero => simp [Json.record, value]
  | succ inner =>
      simp only [Json.record, List.map_cons, List.map_nil, value, tagged, Nat.add_right_cancel_iff,
        exists_eq_left']
      cases isTag tag <;> cases payload inner tag j <;> simp [noFurtherTag]

/-- A scalar is read wherever there is room for the object around it. -/
lemma value_scalar_eq_ok {tag : String} {j : Json} {v : Value} (htag : isTag tag = true)
    (hread : ∀ inner, payload inner tag j = .ok v) :
    value room (.record [(tag, j)]) = .ok w ↔ 1 ≤ room ∧ w = v := by
  rw [value_record_eq_ok]
  constructor
  · rintro ⟨inner, rfl, _, h⟩
    rw [hread] at h
    cases h
    exact ⟨Nat.le_add_left 1 inner, rfl⟩
  · rintro ⟨hroom, rfl⟩
    exact ⟨room - 1, (Nat.sub_add_cancel hroom).symm, htag, hread _⟩

/-- A container is read wherever there is room for it, the object around it and its parts. -/
lemma value_container_eq_ok {tag : String} {j : Json} {v : Value} {P : Prop} {depth : ℕ}
    (htag : isTag tag = true)
    (hread : ∀ room w, payload room tag j = .ok w
      ↔ ∃ inner, room = inner + 1 ∧ (P ∧ depth ≤ inner) ∧ w = v) :
    value room (.record [(tag, j)]) = .ok w ↔ (P ∧ depth + 2 ≤ room) ∧ w = v := by
  rw [value_record_eq_ok]
  constructor
  · rintro ⟨_, rfl, _, h⟩
    obtain ⟨inner, rfl, ⟨hP, hdepth⟩, rfl⟩ := (hread _ _).mp h
    exact ⟨⟨hP, Nat.add_le_add_right hdepth 2⟩, rfl⟩
  · rintro ⟨⟨hP, hroom⟩, rfl⟩
    obtain ⟨inner, rfl⟩ := Nat.exists_eq_add_of_le' (Nat.le_trans (Nat.le_add_left 2 _) hroom)
    have hdepth := Nat.le_of_add_le_add_right hroom
    exact ⟨inner + 1, rfl, htag, (hread _ _).mpr ⟨inner, rfl, ⟨hP, hdepth⟩, rfl⟩⟩

lemma payload_number {n : String} :
    payload room "N" (.text n) = if isNumeral n then .ok (.number n) else .error (.badNumeral n) :=
  rfl

lemma payload_list_eq_ok {vs : List Value} :
    payload room "L" (.array (encodeElements vs)) = .ok w
      ↔ ∃ inner ws, room = inner + 1 ∧ valueElements inner (encodeElements vs) = .ok ws ∧
          .list ws = w := by
  cases room <;> simp [payload, map_eq_ok]

lemma payload_map_eq_ok {fs : List (String × Value)} :
    payload room "M" (.object (encodeFields fs)) = .ok w
      ↔ ∃ inner gs, room = inner + 1 ∧ valueFields inner (encodeFields fs) = .ok gs ∧
          .ofFields gs = w := by
  cases room <;> simp [payload, map_eq_ok]

/-- Elements are read one by one. -/
lemma valueElements_eq_ok : ∀ {vs ws : List Value},
    valueElements room (encodeElements vs) = .ok ws
      ↔ List.Forall₂ (fun v w => value room (encodeValue v) = .ok w) vs ws
  | [], ws => by cases ws <;> simp [encodeElements, valueElements]
  | v :: vs, ws => by
      rw [encodeElements, valueElements, List.forall₂_cons_left_iff]
      cases value room (encodeValue v) with
      | error e => simp
      | ok u =>
          simp only [map_eq_ok, valueElements_eq_ok, Except.ok.injEq, eq_comm (a := ws)]
          simp

/-- Fields are read one by one, each under its name. -/
lemma valueFields_eq_ok : ∀ {fs gs : List (String × Value)},
    valueFields room (encodeFields fs) = .ok gs
      ↔ List.Forall₂ (fun f g => f.1 = g.1 ∧ value room (encodeValue f.2) = .ok g.2) fs gs
  | [], gs => by cases gs <;> simp [encodeFields, valueFields]
  | (name, v) :: fs, gs => by
      rw [encodeFields, valueFields, List.forall₂_cons_left_iff]
      cases value room (encodeValue v) with
      | error e => simp
      | ok u =>
          simp only [map_eq_ok, valueFields_eq_ok, Except.ok.injEq, eq_comm (a := gs)]
          simp

end

/-! ## What is read back -/

section

variable {α β : Type}

/-- Parts that pass and come back as they were. -/
lemma forall₂_iff_eq {P : α → Prop} {R : α → α → Prop} : ∀ {as bs : List α},
    (∀ a ∈ as, ∀ b, R a b ↔ P a ∧ b = a) → (List.Forall₂ R as bs ↔ (∀ a ∈ as, P a) ∧ bs = as)
  | [], bs, _ => by simp
  | a :: as, bs, h => by
      rw [List.forall_mem_cons] at h
      rw [List.forall₂_cons_left_iff, List.forall_mem_cons]
      simp only [h.1, forall₂_iff_eq h.2]
      constructor
      · rintro ⟨_, _, ⟨ha, rfl⟩, ⟨has, rfl⟩, rfl⟩
        exact ⟨⟨ha, has⟩, rfl⟩
      · rintro ⟨⟨ha, has⟩, rfl⟩
        exact ⟨a, as, ⟨ha, rfl⟩, ⟨has, rfl⟩, rfl⟩

end

variable {room : ℕ} {v w : Value}

/-- A list is read back if its elements are. -/
lemma payload_list_iff {vs : List Value}
    (h : ∀ v ∈ vs, ∀ room w, value room (encodeValue v) = .ok w
      ↔ (v.Valid ∧ v.depth ≤ room) ∧ w = v) :
    payload room "L" (.array (encodeElements vs)) = .ok w
      ↔ ∃ inner, room = inner + 1 ∧
          ((∀ v ∈ vs, v.Valid) ∧ Value.elementsDepth vs ≤ inner) ∧ w = .list vs := by
  have hparts : ∀ inner ws, valueElements inner (encodeElements vs) = .ok ws
      ↔ (∀ v ∈ vs, v.Valid ∧ v.depth ≤ inner) ∧ ws = vs := fun inner ws => by
    rw [valueElements_eq_ok]
    exact forall₂_iff_eq fun v hv w => h v hv inner w
  simp only [payload_list_eq_ok, hparts, Value.elementsDepth_le, ← forall₂_and]
  constructor
  · rintro ⟨inner, _, rfl, ⟨hvs, rfl⟩, rfl⟩
    exact ⟨inner, rfl, hvs, rfl⟩
  · rintro ⟨inner, rfl, hvs, rfl⟩
    exact ⟨inner, vs, rfl, ⟨hvs, rfl⟩, rfl⟩

/-- A map is read back if its fields are and stand in order. -/
lemma payload_map_iff {fs : List (String × Value)} (horder : Ascending fs)
    (h : ∀ f ∈ fs, ∀ room w, value room (encodeValue f.2) = .ok w
      ↔ (f.2.Valid ∧ f.2.depth ≤ room) ∧ w = f.2) :
    payload room "M" (.object (encodeFields fs)) = .ok w
      ↔ ∃ inner, room = inner + 1 ∧
          ((∀ f ∈ fs, f.2.Valid) ∧ Value.fieldsDepth fs ≤ inner) ∧ w = .map fs := by
  have hparts : ∀ inner gs, valueFields inner (encodeFields fs) = .ok gs
      ↔ (∀ f ∈ fs, f.2.Valid ∧ f.2.depth ≤ inner) ∧ gs = fs := fun inner gs => by
    rw [valueFields_eq_ok]
    refine forall₂_iff_eq fun f hf g => ?_
    rw [h f hf, Prod.ext_iff]
    tauto
  have hfields : Value.ofFields fs = .map fs := by
    rw [Value.ofFields, arrange_of_ascending horder]
  simp only [payload_map_eq_ok, hparts, Value.fieldsDepth_le, ← forall₂_and]
  constructor
  · rintro ⟨inner, _, rfl, ⟨hfs, rfl⟩, rfl⟩
    exact ⟨inner, rfl, hfs, hfields⟩
  · rintro ⟨inner, rfl, hfs, rfl⟩
    exact ⟨inner, fs, rfl, ⟨hfs, rfl⟩, hfields⟩

/-- **Which values are read back**: those whose numbers are numerals and that fit into the room.
Nothing but the value itself comes back. -/
theorem value_encodeValue_eq_ok (h : v.InOrder) :
    value room (encodeValue v) = .ok w ↔ (v.Valid ∧ v.depth ≤ room) ∧ w = v := by
  induction h generalizing room w with
  | text s =>
      rw [encodeValue, value_scalar_eq_ok rfl fun _ => rfl]
      simp [Value.Valid, Value.numerals, Value.depth]
  | number n =>
      rw [Value.valid_number, Value.depth]
      by_cases hn : isNumeral n = true
      · have hread : ∀ inner, payload inner "N" (.text n) = .ok (.number n) :=
          fun _ => by rw [payload_number, if_pos hn]
        rw [encodeValue, value_scalar_eq_ok rfl hread]
        simp [hn]
      · rw [encodeValue, value_record_eq_ok]
        simp [payload_number, hn]
  | bool b =>
      rw [encodeValue, value_scalar_eq_ok rfl fun _ => rfl]
      simp [Value.Valid, Value.numerals, Value.depth]
  | null =>
      rw [encodeValue, value_scalar_eq_ok rfl fun _ => rfl]
      simp [Value.Valid, Value.numerals, Value.depth]
  | list _ ih =>
      rw [encodeValue, Value.valid_list, Value.depth]
      exact value_container_eq_ok rfl fun _ _ => payload_list_iff fun v hv _ _ => ih v hv
  | map horder _ ih =>
      rw [encodeValue, Value.valid_map, Value.depth]
      exact value_container_eq_ok rfl fun _ _ =>
        payload_map_iff horder fun f hf _ _ => ih f hf

/-- A text that is read as one value is decoded as that value is. -/
lemma decodeText_of_read {α : Type} (d : Decoder α) {j : Json} {text : String}
    (h : Json.read text = (j, true)) : decodeText d text = d maxDepth j := by
  rw [decodeText, h]
  show (d maxDepth j >>= fun a => pure a) = _
  exact bind_pure _

/-- The text of a legible value is decoded as that value. -/
lemma decodeText_render {α : Type} (d : Decoder α) {j : Json} (h : j.Legible) :
    decodeText d j.render = d maxDepth j :=
  decodeText_of_read d (Json.read_render h)

/-! ## What is read can be read back -/

lemma noFurtherTag_eq_ok {rest : List (Option String × Json)} (h : noFurtherTag v rest = .ok w) :
    rest = [] ∧ w = v := by
  unfold noFurtherTag at h
  split at h <;> cases h
  exact ⟨rfl, rfl⟩

lemma readable_of_textPayload {tag s : String} (h : textPayload tag s = .ok v) :
    v.Readable (room + 1) := by
  unfold textPayload at h
  split at h
  · cases h
    exact ⟨.text s, by simp [Value.Valid, Value.numerals], Nat.le_add_left 1 room⟩
  · split at h
    · split at h
      · rename_i hn
        cases h
        exact ⟨.number s, Value.valid_number.mpr hn, Nat.le_add_left 1 room⟩
      · cases h
    · cases h

lemma readable_of_boolPayload {tag : String} {b : Bool} (h : boolPayload tag b = .ok v) :
    v.Readable (room + 1) := by
  unfold boolPayload at h
  split at h
  · cases h
    exact ⟨.bool b, by simp [Value.Valid, Value.numerals], Nat.le_add_left 1 room⟩
  · split at h
    · split at h <;> cases h
      exact ⟨.null, by simp [Value.Valid, Value.numerals], Nat.le_add_left 1 room⟩
    · cases h

lemma readable_list {vs : List Value} (h : ∀ v ∈ vs, v.Readable room) :
    (Value.list vs).Readable (room + 2) := by
  refine ⟨.list fun v hv => (h v hv).inOrder, Value.valid_list.mpr fun v hv => (h v hv).valid, ?_⟩
  rw [Value.depth]
  exact Nat.add_le_add_right (Value.elementsDepth_le.mpr fun v hv => (h v hv).depth_le) 2

/-- Fields are arranged when they are read. -/
lemma readable_ofFields {fs : List (String × Value)} (h : ∀ f ∈ fs, f.2.Readable room) :
    (Value.ofFields fs).Readable (room + 2) := by
  have hfields : ∀ f ∈ arrange fs, f.2.Readable room := fun f hf => h f (mem_arrange hf)
  refine ⟨.map (ascending_arrange fs) fun f hf => (hfields f hf).inOrder,
    Value.valid_map.mpr fun f hf => (hfields f hf).valid, ?_⟩
  rw [Value.ofFields, Value.depth]
  exact Nat.add_le_add_right (Value.fieldsDepth_le.mpr fun f hf => (hfields f hf).depth_le) 2

mutual

/-- **Every value that is read can be read back with the same room**: its numbers are numerals, it
fits, and its maps are in order, wherever their names stood in the text. -/
theorem readable_of_value : ∀ {room : ℕ} {j : Json} {v : Value},
    value room j = .ok v → v.Readable room
  | _ + 1, .object _, _, h => readable_of_tagged h
  | 0, .object _, _, h | _, .null, _, h | _, .bool _, _, h | _, .number _, _, h
  | _, .string _, _, h | _, .array _, _, h | _, .broken, _, h => by simp [value] at h

lemma readable_of_tagged : ∀ {room : ℕ} {members : List (Option String × Json)} {v : Value},
    tagged room members = .ok v → v.Readable (room + 1)
  | _, [], _, h | _, (none, _) :: _, _, h => by simp [tagged] at h
  | room, (some tag, j) :: rest, v, h => by
      rw [tagged] at h
      split at h
      · split at h
        · rename_i hread
          rw [(noFurtherTag_eq_ok h).2]
          exact readable_of_payload hread
        · cases h
      · cases h

lemma readable_of_payload : ∀ {room : ℕ} {tag : String} {j : Json} {v : Value},
    payload room tag j = .ok v → v.Readable (room + 1)
  | _, _, .string (some _), _, h => readable_of_textPayload (by simpa only [payload] using h)
  | _, _, .bool _, _, h => readable_of_boolPayload (by simpa only [payload] using h)
  | room + 1, _, .array elements, _, h => by
      rw [payload] at h
      split at h
      · obtain ⟨vs, hvs, rfl⟩ := map_eq_ok.mp h
        exact readable_list (readable_of_valueElements hvs)
      · cases h
  | room + 1, _, .object members, _, h => by
      rw [payload] at h
      split at h
      · obtain ⟨fs, hfs, rfl⟩ := map_eq_ok.mp h
        exact readable_ofFields (readable_of_valueFields hfs)
      · cases h
  | 0, _, .array _, _, h | 0, _, .object _, _, h | _, _, .string none, _, h | _, _, .null, _, h
  | _, _, .number _, _, h | _, _, .broken, _, h => by simp [payload] at h

lemma readable_of_valueElements : ∀ {room : ℕ} {js : List Json} {vs : List Value},
    valueElements room js = .ok vs → ∀ v ∈ vs, v.Readable room
  | _, [], _, h => by
      cases h
      exact List.forall_mem_nil _
  | room, j :: js, vs, h => by
      rw [valueElements] at h
      split at h
      · rename_i hv
        obtain ⟨us, hus, rfl⟩ := map_eq_ok.mp h
        exact List.forall_mem_cons.mpr ⟨readable_of_value hv, readable_of_valueElements hus⟩
      · cases h

lemma readable_of_valueFields : ∀ {room : ℕ} {members : List (Option String × Json)}
    {fs : List (String × Value)}, valueFields room members = .ok fs → ∀ f ∈ fs, f.2.Readable room
  | _, [], _, h => by
      cases h
      exact List.forall_mem_nil _
  | _, (none, _) :: _, _, h => by simp [valueFields] at h
  | room, (some name, j) :: members, fs, h => by
      rw [valueFields] at h
      split at h
      · rename_i hv
        obtain ⟨gs, hgs, rfl⟩ := map_eq_ok.mp h
        exact List.forall_mem_cons.mpr ⟨readable_of_value hv, readable_of_valueFields hgs⟩
      · cases h

end

/-! ## The round trip -/

/-- **Values survive the way through JSON.**  The text of a value is decoded as that same value,
numbers spelled as they were, if all of its numbers are numerals and it nests no deeper than a text
may; otherwise decoding fails.  Strings and names may hold anything. -/
theorem value_roundTrip (h : v.InOrder) :
    (v.Valid ∧ v.depth ≤ maxDepth → decodeText value (encodeValue v).render = .ok v) ∧
      (¬ (v.Valid ∧ v.depth ≤ maxDepth) →
        ∃ e, decodeText value (encodeValue v).render = .error e) := by
  rw [decodeText_render value (legible_encodeValue v)]
  constructor
  · exact fun hfits => (value_encodeValue_eq_ok h).mpr ⟨hfits, rfl⟩
  · intro hfits
    cases hread : value maxDepth (encodeValue v) with
    | error e => exact ⟨e, rfl⟩
    | ok w => exact absurd ((value_encodeValue_eq_ok h).mp hread).1 hfits

/-- A value inside some number of lists. -/
def Sample.nested (v : Value) : ℕ → Value
  | 0 => v
  | n + 1 => .list [nested v n]

lemma Sample.nested_spec {v : Value} (horder : v.InOrder) (hvalid : v.Valid) (n : ℕ) :
    (nested v n).InOrder ∧ (nested v n).Valid ∧ (nested v n).depth = 2 * n + v.depth := by
  induction n with
  | zero => exact ⟨horder, hvalid, (Nat.zero_add _).symm⟩
  | succ n ih =>
      refine ⟨.list (List.forall_mem_singleton.mpr ih.1),
        Value.valid_list.mpr (List.forall_mem_singleton.mpr ih.2.1), ?_⟩
      rw [nested, Value.depth, Value.elementsDepth, Value.elementsDepth, ih.2.2]
      omega

/-- Names and strings that need escapes, and a number in a spelling of its own; then the deepest
lists that are read, and lists one level deeper. -/
theorem value_roundTrip_sample :
    decodeText value
          (encodeValue (.map [("\n\"", .number "+05.0E-1"), ("é", .text "\x00\\")])).render
        = .ok (.map [("\n\"", .number "+05.0E-1"), ("é", .text "\x00\\")]) ∧
      decodeText value (encodeValue (Sample.nested .null 63)).render
        = .ok (Sample.nested .null 63) ∧
      ∃ e, decodeText value (encodeValue (Sample.nested (.list []) 63)).render = .error e := by
  have hdeep := Sample.nested_spec .null (by simp [Value.Valid, Value.numerals]) 63
  have hdeeper := Sample.nested_spec (.list (List.forall_mem_nil _)) (by simp [Value.valid_list]) 63
  refine ⟨(value_roundTrip ?_).1 ⟨?_, by decide⟩,
    (value_roundTrip hdeep.1).1 ⟨hdeep.2.1, by rw [hdeep.2.2]; decide⟩,
    (value_roundTrip hdeeper.1).2 fun hfits => ?_⟩
  · refine .map (by unfold Ascending; decide) ?_
    simp only [List.forall_mem_cons]
    exact ⟨.number _, .text _, List.forall_mem_nil _⟩
  · rw [Value.valid_map]
    simp only [List.forall_mem_cons]
    exact ⟨Value.valid_number.mpr (by decide), by simp [Value.Valid, Value.numerals],
      List.forall_mem_nil _⟩
  · have hdepth := hfits.2
    rw [hdeeper.2.2] at hdepth
    revert hdepth
    decide

end Wire

end ItemStore
