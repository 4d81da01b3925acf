import ItemStore.Proofs.JsonGrammar
import ItemStore.Proofs.ValueText

/-!
# What is decoded as a value

A value is decoded from the objects that denote one, and from nothing else.  Such an object has one
member, and the name of the member says what may stand under it, at every depth.  What an object
denotes is told here without the decoder; the two are compared for all that is not nested too deep.

* `Json.depth` — how many containers stand one inside the other.
* **`Wire.Denotes`** — the objects that denote values.  Of a name that is repeated among the fields
  of a map the last value counts, but what the others have is looked at as well.
* **`Wire.denotes_of_value`** — whatever is decoded is denoted.
* **`Wire.value_eq_ok_iff`** — with enough room, whatever is denoted is decoded.
-/

namespace ItemStore

/-! ## Nesting -/

namespace Json

mutual

/-- The containers that stand one inside the other in a value. -/
def depth : Json → ℕ
  | .array elements => elementsDepth elements + 1
  | .object members => membersDepth members + 1
  | .null | .bool _ | .number _ | .string _ | .broken => 0

def elementsDepth : List Json → ℕ
  | [] => 0
  | j :: rest => max (depth j) (elementsDepth rest)

def membersDepth : List (Option String × Json) → ℕ
  | [] => 0
  | (_, j) :: rest => max (depth j) (membersDepth rest)

end

variable {n : ℕ}

lemma elementsDepth_le : ∀ {js : List Json}, elementsDepth js ≤ n ↔ ∀ j ∈ js, j.depth ≤ n
  | [] => by simp [elementsDepth]
  | j :: js => by rw [elementsDepth, max_le_iff, elementsDepth_le, List.forall_mem_cons]

lemma membersDepth_le : ∀ {ms : List (Option String × Json)},
    membersDepth ms ≤ n ↔ ∀ m ∈ ms, m.2.depth ≤ n
  | [] => by simp [membersDepth]
  | (name, j) :: ms => by rw [membersDepth, max_le_iff, membersDepth_le, List.forall_mem_cons]

lemma depth_record (tag : String) (j : Json) : (record [(tag, j)]).depth = j.depth + 1 := by
  simp [record, depth, membersDepth]

end Json

namespace Wire

/-! ## What an object denotes -/

/-- An object with one member, the tag of a type with what that type takes, denotes a value. -/
inductive Denotes : Json → Value → Prop
  | text (s : String) : Denotes (.record [("S", .text s)]) (.text s)
  | number {n : String} (h : isNumeral n = true) :
      Denotes (.record [("N", .text n)]) (.number n)
  | bool (b : Bool) : Denotes (.record [("BOOL", .bool b)]) (.bool b)
  | null : Denotes (.record [("NULL", .bool true)]) .null
  | list {parts : List (Json × Value)} (h : ∀ p ∈ parts, Denotes p.1 p.2) :
      Denotes (.record [("L", .array (parts.map Prod.fst))]) (.list (parts.map Prod.snd))
  | map {parts : List (String × Json × Value)} {fields : List (String × Value)}
      (h : ∀ p ∈ parts, Denotes p.2.1 p.2.2) (horder : Ascending fields)
      (hlast : ∀ name, fields.lookup name
        = (parts.map fun p => (p.1, p.2.2)).reverse.lookup name) :
      Denotes (.record [("M", .object (parts.map fun p => (some p.1, p.2.1)))]) (.map fields)

/-! ## Decoded values are denoted -/

section

variable {v : Value} {tag : String}

lemma denotes_of_textPayload {s : String} (h : textPayload tag s = .ok v) :
    Denotes (.record [(tag, .text s)]) v := by
  unfold textPayload at h
  split_ifs at h with hS hN hnumeral
  · subst hS
    cases h
    exact .text s
  · subst hN
    cases h
    exact .number hnumeral

lemma denotes_of_boolPayload {b : Bool} (h : boolPayload tag b = .ok v) :
    Denotes (.record [(tag, .bool b)]) v := by
  unfold boolPayload at h
  split_ifs at h with hbool hnull hb
  · subst hbool
    cases h
    exact .bool b
  · subst hnull hb
    cases h
    exact .null

end

lemma denotes_ofFields {parts : List (String × Json × Value)}
    (h : ∀ p ∈ parts, Denotes p.2.1 p.2.2) :
    Denotes (.record [("M", .object (parts.map fun p => (some p.1, p.2.1)))])
      (.ofFields (parts.map fun p => (p.1, p.2.2))) :=
  .map h (ascending_arrange _) (lookup_arrange_eq_last _)

mutual

/-- **Whatever is decoded as a value denotes it.** -/
theorem denotes_of_value : ∀ {room : ℕ} {j : Json} {v : Value}, value room j = .ok v → Denotes j v
  | _ + 1, .object _, _, h => denotes_of_tagged h
  | 0, .object _, _, h | _, .null, _, h | _, .bool _, _, h | _, .number _, _, h
  | _, .string _, _, h | _, .array _, _, h | _, .broken, _, h => by simp [value] at h

lemma denotes_of_tagged : ∀ {room : ℕ} {members : List (Option String × Json)} {v : Value},
    tagged room members = .ok v → Denotes (.object members) v
  | _, [], _, h | _, (none, _) :: _, _, h => by simp [tagged] at h
  | room, (some tag, j) :: rest, v, h => by
      rw [tagged] at h
      split at h
      · split at h
        · rename_i hread
          obtain ⟨rfl, rfl⟩ := noFurtherTag_eq_ok h
          exact denotes_of_payload hread
        · cases h
      · cases h

lemma denotes_of_payload : ∀ {room : ℕ} {tag : String} {j : Json} {v : Value},
    payload room tag j = .ok v → Denotes (.record [(tag, j)]) v
  | _, _, .string (some _), _, h => denotes_of_textPayload (by simpa only [payload] using h)
  | _, _, .bool _, _, h => denotes_of_boolPayload (by simpa only [payload] using h)
  | room + 1, _, .array elements, _, h => by
      rw [payload] at h
      split at h
      · rename_i htag
        subst htag
        obtain ⟨vs, hvs, rfl⟩ := map_eq_ok.mp h
        obtain ⟨parts, rfl, rfl, hparts⟩ := exists_parts_of_valueElements hvs
        exact .list hparts
      · cases h
  | room + 1, _, .object members, _, h => by
      rw [payload] at h
      split at h
      · rename_i htag
        subst htag
        obtain ⟨fs, hfs, rfl⟩ := map_eq_ok.mp h
        obtain ⟨parts, rfl, rfl, hparts⟩ := exists_parts_of_valueFields hfs
        exact denotes_ofFields hparts
      · cases h
  | 0, _, .array _, _, h | 0, _, .object _, _, h | _, _, .string none, _, h | _, _, .null, _, h
  | _, _, .number _, _, h | _, _, .broken, _, h => by simp [payload] at h

lemma exists_parts_of_valueElements : ∀ {room : ℕ} {js : List Json} {vs : List Value},
    valueElements room js = .ok vs → ∃ parts : List (Json × Value),
      js = parts.map Prod.fst ∧ vs = parts.map Prod.snd ∧ ∀ p ∈ parts, Denotes p.1 p.2
  | _, [], _, h => by
      cases h
      exact ⟨[], rfl, rfl, List.forall_mem_nil _⟩
  | room, j :: js, vs, h => by
      rw [valueElements] at h
      split at h
      · rename_i v hv
        obtain ⟨us, hus, rfl⟩ := map_eq_ok.mp h
        obtain ⟨parts, rfl, rfl, hparts⟩ := exists_parts_of_valueElements hus
        exact ⟨(j, v) :: parts, rfl, rfl, List.forall_mem_cons.mpr ⟨denotes_of_value hv, hparts⟩⟩
      · cases h

lemma exists_parts_of_valueFields : ∀ {room : ℕ} {members : List (Option String × Json)}
    {fs : List (String × Value)}, valueFields room members = .ok fs →
      ∃ parts : List (String × Json × Value), members = parts.map (fun p => (some p.1, p.2.1)) ∧
        fs = parts.map (fun p => (p.1, p.2.2)) ∧ ∀ p ∈ parts, Denotes p.2.1 p.2.2
  | _, [], _, h => by
      cases h
      exact ⟨[], rfl, rfl, List.forall_mem_nil _⟩
  | _, (none, _) :: _, _, h => by simp [valueFields] at h
  | room, (some name, j) :: members, fs, h => by
      rw [valueFields] at h
      split at h
      · rename_i v hv
        obtain ⟨gs, hgs, rfl⟩ := map_eq_ok.mp h
        obtain ⟨parts, rfl, rfl, hparts⟩ := exists_parts_of_valueFields hgs
        exact ⟨(name, j, v) :: parts, rfl, rfl,
          List.forall_mem_cons.mpr ⟨denotes_of_value hv, hparts⟩⟩
      · cases h

end

/-! ## Denoted values are decoded -/

section

variable {room : ℕ}

lemma valueElements_eq_ok_of_forall : ∀ {parts : List (Json × Value)},
    (∀ p ∈ parts, value room p.1 = .ok p.2) →
      valueElements room (parts.map Prod.fst) = .ok (parts.map Prod.snd)
  | [], _ => rfl
  | p :: parts, h => by
      obtain ⟨hp, hparts⟩ := List.forall_mem_cons.mp h
      rw [List.map_cons, valueElements, hp]
      exact map_eq_ok.mpr ⟨_, valueElements_eq_ok_of_forall hparts, rfl⟩

lemma valueFields_eq_ok_of_forall : ∀ {parts : List (String × Json × Value)},
    (∀ p ∈ parts, value room p.2.1 = .ok p.2.2) →
      valueFields room (parts.map fun p => (some p.1, p.2.1))
        = .ok (parts.map fun p => (p.1, p.2.2))
  | [], _ => rfl
  | p :: parts, h => by
      obtain ⟨hp, hparts⟩ := List.forall_mem_cons.mp h
      rw [List.map_cons, valueFields, hp]
      exact map_eq_ok.mpr ⟨_, valueFields_eq_ok_of_forall hparts, rfl⟩

/-- Fields that are in order and found as the last of their name are the arranged ones. -/
lemma ofFields_eq_of_last {fields es : List (String × Value)} (horder : Ascending fields)
    (hlast : ∀ name, fields.lookup name = es.reverse.lookup name) :
    Value.ofFields es = .map fields := by
  have harranged : NameMap.ofList es = ⟨fields, horder⟩ :=
    NameMap.ext_get? fun name => (lookup_arrange_eq_last es name).trans (hlast name).symm
  exact congrArg (fun m : NameMap Value => Value.map m.entries) harranged

/-- What stands under a tag is decoded in an object around it. -/
lemma value_record_of_payload {tag : String} {j : Json} {v : Value} (htag : isTag tag = true)
    (hdepth : (Json.record [(tag, j)]).depth ≤ room)
    (h : ∀ inner, j.depth ≤ inner → payload inner tag j = .ok v) :
    value room (.record [(tag, j)]) = .ok v := by
  rw [Json.depth_record] at hdepth
  obtain ⟨inner, rfl⟩ := Nat.exists_eq_add_of_le' (Nat.le_trans (Nat.le_add_left 1 _) hdepth)
  exact value_record_eq_ok.mpr ⟨inner, rfl, htag, h inner (Nat.le_of_succ_le_succ hdepth)⟩

theorem value_of_denotes {j : Json} {v : Value} (h : Denotes j v) (hdepth : j.depth ≤ room) :
    value room j = .ok v := by
  induction h generalizing room with
  | text s => exact value_record_of_payload rfl hdepth fun _ _ => rfl
  | number hnumeral =>
      exact value_record_of_payload rfl hdepth fun _ _ => by rw [payload_number, if_pos hnumeral]
  | bool b => exact value_record_of_payload rfl hdepth fun _ _ => rfl
  | null => exact value_record_of_payload rfl hdepth fun _ _ => rfl
  | @list parts _ ih =>
      refine value_record_of_payload rfl hdepth fun inner hinner => ?_
      obtain ⟨inner, rfl⟩ := Nat.exists_eq_add_of_le' (Nat.le_trans (Nat.le_add_left 1 _) hinner)
      have hparts := Json.elementsDepth_le.mp (Nat.le_of_succ_le_succ hinner)
      rw [List.forall_mem_map] at hparts
      rw [payload, if_pos rfl]
      exact map_eq_ok.mpr
        ⟨_, valueElements_eq_ok_of_forall fun p hp => ih p hp (hparts p hp), rfl⟩
  | @map parts fields _ horder hlast ih =>
      refine value_record_of_payload rfl hdepth fun inner hinner => ?_
      obtain ⟨inner, rfl⟩ := Nat.exists_eq_add_of_le' (Nat.le_trans (Nat.le_add_left 1 _) hinner)
      have hparts := Json.membersDepth_le.mp (Nat.le_of_succ_le_succ hinner)
      rw [List.forall_mem_map] at hparts
      rw [payload, if_pos rfl]
      exact map_eq_ok.mpr ⟨_, valueFields_eq_ok_of_forall fun p hp => ih p hp (hparts p hp),
        ofFields_eq_of_last horder hlast⟩

/-- **With enough room a value is decoded from what denotes it**, and from nothing else. -/
theorem value_eq_ok_iff {j : Json} {v : Value} (hdepth : j.depth ≤ room) :
    value room j = .ok v ↔ Denotes j v :=
  ⟨denotes_of_value, fun h => value_of_denotes h hdepth⟩

end

/-- A text that spells an object is decoded as the value that the object denotes. -/
theorem decodeText_eq_ok_iff {j : Json} {text : String} {v : Value} (h : j.Spelling text.toList)
    (hdepth : j.depth ≤ maxDepth) : decodeText value text = .ok v ↔ Denotes j v := by
  rw [decodeText_of_read value (Json.read_of_spelling h), value_eq_ok_iff hdepth]

end Wire

end ItemStore
