import ItemStore.Proofs.Entrywise

/-!
# What agreeing values look like

Values that agree once decoded may be spelled in different ways, and that is all the difference
there is between them: they have one type, their elements agree one by one, and their fields have
the same names with agreeing values under them.  Agreement is symmetric and transitive whatever the
values are; a value agrees with itself unless a NaN stands somewhere in it.

* `Value.Alike` — agreement as a relation.
* `Value.agrees_list`, `Value.agrees_map` — agreement of containers.
* **`Value.agrees_self_iff`** — which values agree with themselves.
* **`Value.agreement_laws`** — all of it.
-/

namespace ItemStore

/-- A number stands for a point unless it is a NaN. -/
lemma Number.value?_isSome_iff {a : Number} : a.value?.isSome = true ↔ a ≠ .float .nan := by
  rcases a with i | _ | ⟨negative, rank⟩ <;> simp [Number.value?, Binary64.value?]

namespace Value

/-- Two values agree. -/
def Alike (v w : Value) : Prop := v.agrees w = true

/-! ## Parts of agreeing values -/

theorem agrees_list {vs ws : List Value} :
    (Value.list vs).agrees (.list ws) = true ↔ List.Forall₂ Alike vs ws := by
  rw [agrees, decode, decode, Decoded.same, Decoded.sameElements_iff, decodeElements_eq,
    decodeElements_eq, List.forall₂_map_left_iff, List.forall₂_map_right_iff]
  rfl

theorem agrees_map {fs gs : List (String × Value)} :
    (Value.map fs).agrees (.map gs) = true ↔ Entrywise Alike fs gs := by
  rw [agrees, decode, decode, Decoded.same, Decoded.sameFields_iff, decodeFields_eq,
    decodeFields_eq, List.forall₂_map_left_iff, List.forall₂_map_right_iff]
  rfl

/-- Agreeing values have one type, however their numbers are represented. -/
lemma Alike.typeTag_eq {v w : Value} (h : v.Alike w) : v.typeTag = w.typeTag := by
  cases v <;> cases w <;> first | rfl | cases h

/-! ## Values that agree with themselves -/

/-- **A value agrees with itself** exactly when none of its numbers, at any depth, is read as a
NaN. -/
theorem agrees_self_iff {v : Value} :
    v.agrees v = true ↔ ∀ n ∈ v.numerals, Number.read n ≠ .float .nan := by
  induction v using Value.nestedInduction with
  | text s => simp [agrees, decode, Decoded.same, numerals]
  | number n =>
      simp [agrees, decode, Decoded.same, numerals, Number.same_self_iff,
        Number.value?_isSome_iff]
  | bool b => simp [agrees, decode, Decoded.same, numerals]
  | null => simp [agrees, decode, Decoded.same, numerals]
  | list vs ih =>
      rw [agrees_list, List.forall₂_same, numerals, elementNumerals_eq, List.forall_mem_flatMap]
      exact forall₂_congr ih
  | map fs ih =>
      rw [agrees_map, Entrywise, List.forall₂_same, numerals, fieldNumerals_eq,
        List.forall_mem_flatMap]
      exact forall₂_congr fun f hf => (and_iff_right rfl).trans (ih f hf)

/-- **The laws of agreement.**  It is symmetric and transitive on values of any nesting.  A value
agrees with itself exactly when no number in it reads as a NaN; so does every value in which no bad
number is found.  Agreeing values have one type.  Lists agree when they have one length and agree
element by element.  Maps that agree have the same names, and agreeing values under each of them;
and this is all that it takes, where fields stand in order of their names as they do in every map
that the store builds. -/
theorem agreement_laws (u v w : Value) :
    u.agrees v = v.agrees u ∧
      (u.agrees v = true → v.agrees w = true → u.agrees w = true) ∧
      (v.agrees v = true ↔ ∀ n ∈ v.numerals, Number.read n ≠ .float .nan) ∧
      (v.invalidNumeral? = none → v.agrees v = true) ∧
      (u.agrees v = true → u.typeTag = v.typeTag) ∧
      (∀ vs ws, (Value.list vs).agrees (.list ws) = true ↔
        vs.length = ws.length ∧ ∀ i (hi : i < vs.length) (hi' : i < ws.length),
          vs[i].agrees ws[i] = true) ∧
      (∀ fs gs, (Value.map fs).agrees (.map gs) = true →
        (∀ name, name ∈ fs.map Prod.fst ↔ name ∈ gs.map Prod.fst) ∧
          ∀ name a b, fs.lookup name = some a → gs.lookup name = some b → a.agrees b = true) ∧
      ∀ fs gs, Ascending fs → Ascending gs →
        ((Value.map fs).agrees (.map gs) = true ↔
          ∀ name, Option.Rel Alike (fs.lookup name) (gs.lookup name)) := by
  refine ⟨agrees_comm u v, agrees_trans, agrees_self_iff, ?_, Alike.typeTag_eq, ?_, ?_, ?_⟩
  · exact fun h => agrees_self (invalidNumeral?_eq_none.mp h)
  · intro vs ws
    rw [agrees_list, List.forall₂_iff_get]
    rfl
  · intro fs gs h
    rw [agrees_map] at h
    refine ⟨fun name => by rw [h.map_fst], fun name a b ha hb => ?_⟩
    have hrel := h.lookup name
    rwa [ha, hb, Option.rel_some_some] at hrel
  · intro fs gs hfs hgs
    rw [agrees_map, entrywise_iff_lookup hfs hgs]

/-- One list in three spellings, an integer first, and a list with a NaN in it. -/
theorem agreement_laws_sample :
    (Value.list [.number "+5", .map [("half", .number ".5")]]).agrees
        (.list [.number "50e-1", .map [("half", .number "0.50")]]) = true ∧
      (Value.number "5").agrees (.number "5.0") = true ∧
      (Value.list [.null, .number "nan"]).agrees (.list [.null, .number "nan"]) = false := by
  obtain ⟨_, htrans, _, _, _, hlist, _⟩ := agreement_laws
    (.list [.number "+5", .map [("half", .number ".5")]])
    (.list [.number "5.0", .map [("half", .number "5E-1")]])
    (.list [.number "50e-1", .map [("half", .number "0.50")]])
  obtain ⟨_, _, hself, _⟩ := agreement_laws .null (.list [.null, .number "nan"]) .null
  refine ⟨htrans (by decide +kernel) (by decide +kernel), ?_, ?_⟩
  · exact ((hlist [.number "5"] [.number "5.0"]).mp (by decide +kernel)).2 0 (by decide) (by decide)
  · rw [← Bool.not_eq_true, hself]
    simp only [numerals, elementNumerals, List.append_nil, List.nil_append,
      List.forall_mem_singleton, not_not]
    decide +kernel

end Value

end ItemStore
