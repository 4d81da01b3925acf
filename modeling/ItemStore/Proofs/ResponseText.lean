import ItemStore.Proofs.Decoders
import ItemStore.Wire.Response

/-!
# The text of responses

What clients get is JSON on one line.  A JSON value is written without blanks, and the characters
that could break a line are escaped wherever a client may have put them, so none of them is left.

* `Json.Printable` — a text without control characters.  **`Json.Legible.printable`** — what is
  written of a value is one.
* **`Wire.legible_encodeResponse`**, `Wire.legible_encodeReport` — every response and every report
  is written as a value that can be read.
-/

namespace ItemStore

/-! ## No control characters -/

namespace Json

/-- A text without control characters, so without breaks of lines. -/
def Printable (text : List Char) : Prop :=
  ∀ c ∈ text, 32 ≤ c.toNat

section

variable {text more : List Char}

lemma printable_append : Printable (text ++ more) ↔ Printable text ∧ Printable more :=
  List.forall_mem_append

lemma printable_cons {c : Char} : Printable (c :: text) ↔ 32 ≤ c.toNat ∧ Printable text :=
  List.forall_mem_cons

lemma Printable.notMem {c : Char} (h : Printable text) (hc : c.toNat < 32) : c ∉ text :=
  fun hmem => Nat.not_le_of_lt hc (h c hmem)

end

lemma printable_of_numberChars {text : List Char} (h : Scanner.NumberChars text) :
    Printable text := by
  intro c hc
  have hchar := h c hc
  simp only [isNumberChar, Bool.or_eq_true, beq_iff_eq] at hchar
  rcases hchar with ((((hdigit | rfl) | rfl) | rfl) | rfl) | rfl
  · have hlow : 48 ≤ c.toNat := (Char.isDigit_iff_toNat.mp hdigit).1
    omega
  all_goals decide

lemma printable_of_isNumber {text : List Char} (h : isNumber text = true) : Printable text := by
  obtain ⟨c, more, rfl, hfirst, hmore⟩ := Scanner.cons_of_isNumber h
  refine printable_of_numberChars (List.forall_mem_cons.mpr ⟨?_, hmore⟩)
  rcases Bool.or_eq_true_iff.mp hfirst with hdigit | hminus
  · simp [isNumberChar, hdigit]
  · simp [isNumberChar, hminus]

/-- Whatever a character is, the escape of it is printable. -/
lemma printable_escapeChar (c : Char) : Printable (escapeChar c) := by
  have hdigit : ∀ n < 16, 32 ≤ (hexDigit n).toNat := by decide
  unfold escapeChar
  split_ifs with _ _ _ _ _ _ _ hcontrol
  on_goal 9 => exact List.forall_mem_singleton.mpr (Nat.not_lt.mp hcontrol)
  on_goal 8 => simp [Printable, hdigit (c.toNat / 16) (by omega), hdigit (c.toNat % 16) (by omega)]
  -- the short escapes
  all_goals simp [Printable]

lemma printable_renderString (text : Option String) : Printable (renderString text) := by
  cases text with
  | none => simp [renderString, Printable]
  | some s =>
      have hbody : Printable (s.toList.flatMap escapeChar) := by
        intro c hc
        obtain ⟨d, _, hd⟩ := List.mem_flatMap.mp hc
        exact printable_escapeChar d c hd
      exact printable_append.mpr
        ⟨printable_cons.mpr ⟨by decide, hbody⟩, List.forall_mem_singleton.mpr (by decide)⟩

lemma printable_elementChars : ∀ {elements : List Json},
    (∀ j ∈ elements, Printable (chars j)) → Printable (elementChars elements)
  | [], _ => List.forall_mem_nil _
  | [j], h => h j List.mem_cons_self
  | j :: k :: rest, h => by
      obtain ⟨hj, hrest⟩ := List.forall_mem_cons.mp h
      rw [elementChars]
      · exact printable_append.mpr ⟨hj, printable_cons.mpr
          ⟨by decide, printable_elementChars hrest⟩⟩
      · exact List.cons_ne_nil k rest

lemma printable_memberChars : ∀ {members : List (Option String × Json)},
    (∀ m ∈ members, Printable (chars m.2)) → Printable (memberChars members)
  | [], _ => List.forall_mem_nil _
  | [(name, j)], h =>
      printable_append.mpr ⟨printable_renderString name, printable_cons.mpr
        ⟨by decide, h (name, j) List.mem_cons_self⟩⟩
  | (name, j) :: m :: rest, h => by
      obtain ⟨hj, hrest⟩ := List.forall_mem_cons.mp h
      rw [memberChars]
      · exact printable_append.mpr ⟨printable_append.mpr ⟨printable_renderString name,
          printable_cons.mpr ⟨by decide, hj⟩⟩, printable_cons.mpr
            ⟨by decide, printable_memberChars hrest⟩⟩
      · exact List.cons_ne_nil m rest

/-- **What is written of a value has no control characters**, whatever stands in its strings. -/
theorem Legible.printable {j : Json} (h : Legible j) : Printable (chars j) := by
  induction h with
  | null => simp [chars, Printable]
  | bool b => cases b <;> simp [chars, Printable]
  | number hnumber => exact printable_of_isNumber hnumber
  | string text => exact printable_renderString text
  | array _ ih =>
      exact printable_append.mpr ⟨printable_cons.mpr ⟨by decide, printable_elementChars ih⟩,
        List.forall_mem_singleton.mpr (by decide)⟩
  | object _ ih =>
      exact printable_append.mpr ⟨printable_cons.mpr ⟨by decide, printable_memberChars ih⟩,
        List.forall_mem_singleton.mpr (by decide)⟩

/-! ## Legible records -/

/-- Members of a record that can be read. -/
def AllLegible (members : List (String × Json)) : Prop :=
  ∀ m ∈ members, m.2.Legible

section

variable {α : Type} {name : String} {members : List (String × Json)} {j : Json}

@[simp] lemma legible_text (s : String) : (text s).Legible := .string _

@[simp] lemma legible_nat (n : ℕ) : (nat n).Legible := .number (isNumber_repr n)

@[simp] lemma legible_record : (record members).Legible ↔ AllLegible members := by
  constructor
  · intro h m hm
    cases h with
    | object hmembers => exact hmembers (some m.1, m.2) (List.mem_map_of_mem hm)
  · exact fun h => .object (List.forall_mem_map.mpr h)

@[simp] lemma legible_arrayOf {encode : α → Json} {elements : List α} :
    (arrayOf encode elements).Legible ↔ ∀ a ∈ elements, (encode a).Legible := by
  constructor
  · intro h
    cases h with
    | array helements => exact List.forall_mem_map.mp helements
  · exact fun h => .array (List.forall_mem_map.mpr h)

@[simp] lemma allLegible_nil : AllLegible [] :=
  List.forall_mem_nil _

@[simp] lemma allLegible_cons :
    AllLegible ((name, j) :: members) ↔ j.Legible ∧ AllLegible members :=
  List.forall_mem_cons

@[simp] lemma allLegible_append {more : List (String × Json)} :
    AllLegible (members ++ more) ↔ AllLegible members ∧ AllLegible more :=
  List.forall_mem_append

@[simp] lemma allLegible_optional {encode : α → Json} {value : Option α} :
    AllLegible (optional name encode value) ↔ ∀ a ∈ value, (encode a).Legible := by
  cases value <;> simp [optional]

@[simp] lemma allLegible_nonempty {encode : List α → Json} {elements : List α} :
    AllLegible (nonempty name encode elements) ↔
      (elements ≠ [] → (encode elements).Legible) := by
  cases elements <;> simp [nonempty]

end

end Json

/-! ## Responses and reports -/

namespace Wire

open Json

@[simp] lemma legible_encodeItem (item : Item) : (encodeItem item).Legible := by
  rw [encodeItem, encodeFields_eq]
  exact .object (List.forall_mem_map.mpr fun f _ => legible_encodeValue f.2)

@[simp] lemma legible_encodeItems (items : List Item) : (encodeItems items).Legible := by
  simp [encodeItems]

/-- A time is a number of JSON, also before 1970. -/
@[simp] lemma legible_encodeTime (seconds : ℤ) : (encodeTime seconds).Legible := by
  have hpoint : ∀ c ∈ ['.', '0'].head?, c.isDigit = false := by simp
  refine .number ?_
  rw [String.toList_append]
  exact isNumber_repr_append seconds hpoint

@[simp] lemma legible_encodeKeyElement (e : KeyElement) : (encodeKeyElement e).Legible := by
  simp [encodeKeyElement]

@[simp] lemma legible_encodeIndexProjection (p : IndexProjection) :
    (encodeIndexProjection p).Legible := by
  simp [encodeIndexProjection]

@[simp] lemma legible_encodeCount (n : ℕ) : (encodeCount n).Legible := legible_nat _

@[simp] lemma legible_encodeTotal (n : ℕ) : (encodeTotal n).Legible := legible_nat _

@[simp] lemma legible_encodeTable (t : TableDescription) : (encodeTable t).Legible := by
  simp [encodeTable, encodeGlobalIndex, encodeLocalIndex, encodeAttributeDefinition]

/-- **Every response is written as a value that can be read.** -/
theorem legible_encodeResponse (r : Response) : (encodeResponse r).Legible := by
  cases r with
  | batch items =>
      have hitems : AllLegible (items.entries.map fun e => (e.1, encodeItems e.2)) :=
        List.forall_mem_map.mpr fun e _ => legible_encodeItems e.2
      simp [encodeResponse, hitems]
  | _ => simp [encodeResponse]

lemma legible_encodeReport (r : Report) : (encodeReport r).Legible := by
  simp [encodeReport]

end Wire

end ItemStore
