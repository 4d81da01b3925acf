import ItemStore.Proofs.Sameness
import ItemStore.Answer.Checks

/-!
# Keys of items

Rows are found by the values that an item has under the key attributes, once decoded.  The code
takes these values out of an item first (`KeySchema.keyOf`) and then holds them against each row
(`KeySchema.matchesKey`).  Here the two steps become one relation between items.

* `KeySchema.sameKey` — two items have values that agree under every key attribute.  It is symmetric
  and transitive, and an item with a valid key is in the relation with itself.
* `KeySchema.HasKey` — an item has a value of the right type under every key attribute;
  `keyOf` succeeds on these items and on no others.
* **`KeySchema.matchesKey_eq`** — matching the key of an item is `sameKey` with that item.
* `checkKey_restrict` — the key attributes of an item that has them are a key on their own.
-/

namespace ItemStore

/-! ## Steps that can fail -/

section

variable {ε ε' α β : Type}

/-- A sequence succeeds when both of its parts do. -/
lemma bind_eq_ok {x : Except ε α} {f : α → Except ε β} {b : β} :
    x >>= f = .ok b ↔ ∃ a, x = .ok a ∧ f a = .ok b := by
  cases x <;> simp [bind, Except.bind]

lemma map_eq_ok {x : Except ε α} {f : α → β} {b : β} :
    x.map f = .ok b ↔ ∃ a, x = .ok a ∧ f a = b := by
  cases x <;> simp [Except.map]

/-- Rewording a fault leaves success alone. -/
lemma mapError_eq_ok (reword : ε → ε') {x : Except ε α} {a : α} :
    x.mapError reword = .ok a ↔ x = .ok a := by
  cases x <;> simp [Except.mapError]

end

/-! ## Maps from names -/

namespace NameMap

variable {α : Type} {m : NameMap α}

lemma names_nodup (m : NameMap α) : m.names.Nodup :=
  List.pairwise_map.mpr (m.ascending.imp fun h => ne_of_lt h)

/-- Looking a name up finds the one entry under it. -/
lemma get?_eq_some_iff {name : String} {a : α} :
    m.get? name = some a ↔ (name, a) ∈ m.entries := by
  obtain ⟨entries, h⟩ := m
  simp only [get?]
  induction entries with
  | nil => simp
  | cons e rest ih =>
      obtain ⟨hfirst, hrest⟩ := List.pairwise_cons.mp h
      rw [lookup_entry, List.mem_cons]
      by_cases hname : name = e.1
      · subst hname
        have hlater : (e.1, a) ∉ rest := fun hmem => lt_irrefl e.1 (hfirst (e.1, a) hmem)
        simp [hlater, Prod.ext_iff, eq_comm]
      · rw [if_neg hname, ih hrest]
        simp [Prod.ext_iff, hname]

lemma mem_names_iff {name : String} : name ∈ m.names ↔ ∃ a, m.get? name = some a := by
  simp only [names, List.mem_map, get?_eq_some_iff, Prod.exists, exists_and_right, exists_eq_right]

lemma mem_values_iff {a : α} : a ∈ m.values ↔ ∃ name, m.get? name = some a := by
  simp only [values, List.mem_map, get?_eq_some_iff, Prod.exists, exists_eq_right]

lemma mem_names_restrict {keep : String → Bool} {name : String} :
    name ∈ (m.restrict keep).names ↔ keep name = true ∧ name ∈ m.names := by
  simp only [mem_names_iff, get?_restrict]
  split <;> simp_all

lemma size_eq_length_names (m : NameMap α) : m.size = m.names.length := by
  simp [size, names]

/-- A map is what it gives under each name. -/
lemma ext_get? {m' : NameMap α} (h : ∀ name, m.get? name = m'.get? name) : m = m' := by
  have hnodup : ∀ m : NameMap α, m.entries.Nodup := fun m => m.names_nodup.of_map
  have hperm : m.entries.Perm m'.entries := by
    rw [List.perm_ext_iff_of_nodup (hnodup m) (hnodup m')]
    rintro ⟨name, a⟩
    rw [← get?_eq_some_iff, ← get?_eq_some_iff, h]
  obtain ⟨entries, hm⟩ := m
  obtain ⟨entries', hm'⟩ := m'
  congr 1
  exact hperm.eq_of_pairwise (fun a b _ _ hab hba => absurd (hab.trans hba) (lt_irrefl _)) hm hm'

lemma insert_insert (m : NameMap α) (name : String) (a b : α) :
    (m.insert name a).insert name b = m.insert name b := by
  refine ext_get? fun other => ?_
  simp only [get?_insert]
  split <;> rfl

lemma insert_eq_self {name : String} {a : α} (h : m.get? name = some a) : m.insert name a = m := by
  refine ext_get? fun other => ?_
  rw [get?_insert]
  split
  · rename_i heq
    rw [heq, h]
  · rfl

end NameMap

/-! ## Valid items -/

namespace Item

/-- Every number in an item, at any depth, is a numeral. -/
def Valid (item : Item) : Prop := ∀ name v, item.get? name = some v → v.Valid

lemma valid_iff_values {item : Item} : Valid item ↔ ∀ v ∈ item.values, v.Valid := by
  simp only [Valid, NameMap.mem_values_iff, forall_exists_index]
  exact forall_comm

lemma Valid.restrict {item : Item} (h : Valid item) (keep : String → Bool) :
    Valid (item.restrict keep) := by
  intro name v hv
  rw [NameMap.get?_restrict] at hv
  split at hv
  · exact h name v hv
  · cases hv

end Item

namespace Answer

lemma checkNumerals_eq_ok {values : List Value} :
    checkNumerals values = .ok () ↔ ∀ v ∈ values, v.Valid := by
  simp only [← Value.invalidNumeral?_eq_none, ← List.findSome?_eq_none_iff]
  simp only [checkNumerals, refuse]
  split <;> simp_all

lemma liftKey_eq_ok {α : Type} {x : Except KeyFault α} {a : α} :
    liftKey x = .ok a ↔ x = .ok a :=
  mapError_eq_ok _

end Answer

/-! ## One key attribute -/

namespace ScalarType

lemma fits_text {v : Value} (h : text.fits v = true) : ∃ s, v = .text s := by
  cases v <;> first | exact ⟨_, rfl⟩ | cases h

lemma fits_number {v : Value} (h : number.fits v = true) : ∃ n, v = .number n := by
  cases v <;> first | exact ⟨_, rfl⟩ | cases h

end ScalarType

namespace KeyAttribute

/-- What a type that is enforced asks of a value. -/
def Admits (a : KeyAttribute) (enforce : Bool) (v : Value) : Prop :=
  enforce = true → ∀ type, a.type = some type → type.fits v = true

lemma valueIn_eq_ok {a : KeyAttribute} {enforce : Bool} {item : Item} {v : Value} :
    a.valueIn enforce item = .ok v ↔ item.get? a.name = some v ∧ a.Admits enforce v := by
  rw [valueIn, Admits]
  cases hget : item.get? a.name with
  | none => simp
  | some w =>
      cases htype : a.type with
      | none => simp
      | some type =>
          cases enforce with
          | false => simp
          | true =>
              by_cases hfits : type.fits w = true
              · simp only [hfits, Bool.not_true, Bool.and_false, Bool.false_eq_true, if_false,
                  Except.ok.injEq, Option.some.injEq, forall_const, forall_eq']
                refine ⟨?_, fun h => h.1⟩
                rintro rfl
                exact ⟨rfl, hfits⟩
              · simp only [hfits, Bool.not_false, Bool.and_true, if_true, Option.some.injEq,
                  forall_const, forall_eq', reduceCtorEq, false_iff, not_and]
                rintro rfl
                exact hfits

end KeyAttribute

/-! ## Keys -/

namespace KeySchema

variable {k : KeySchema} {enforce : Bool}

/-- Whether two items have values that agree under every key attribute. -/
def sameKey (k : KeySchema) (a b : Item) : Bool :=
  k.names.all fun name =>
    match a.get? name, b.get? name with
    | some v, some w => v.agrees w
    | _, _ => false

/-- An item has a value that is admitted under every key attribute. -/
def HasKey (k : KeySchema) (enforce : Bool) (item : Item) : Prop :=
  ∀ a ∈ k.attributes, ∃ v, item.get? a.name = some v ∧ a.Admits enforce v

lemma hasName_iff {name : String} : k.hasName name = true ↔ name ∈ k.names := by
  simp [hasName]

lemma sameKey_iff {a b : Item} :
    k.sameKey a b = true ↔
      ∀ name ∈ k.names, ∃ v w, a.get? name = some v ∧ b.get? name = some w ∧ v.agrees w = true := by
  simp only [sameKey, List.all_eq_true]
  refine forall₂_congr fun name _ => ?_
  cases a.get? name <;> cases b.get? name <;> simp

theorem sameKey_comm (a b : Item) : k.sameKey a b = k.sameKey b a := by
  rw [sameKey, sameKey]
  congr 1
  funext name
  cases a.get? name <;> cases b.get? name <;> simp [Value.agrees_comm]

theorem sameKey_trans {a b c : Item} (hab : k.sameKey a b = true) (hbc : k.sameKey b c = true) :
    k.sameKey a c = true := by
  rw [sameKey_iff] at *
  intro name hname
  obtain ⟨u, v, ha, hb, huv⟩ := hab name hname
  obtain ⟨v', w, hb', hc, hvw⟩ := hbc name hname
  obtain rfl : v = v' := Option.some.inj (hb.symm.trans hb')
  exact ⟨u, w, ha, hc, Value.agrees_trans huv hvw⟩

/-- Items with the same key match the same items. -/
lemma sameKey_congr {a b : Item} (h : k.sameKey a b = true) (c : Item) :
    k.sameKey c a = k.sameKey c b := by
  rw [Bool.eq_iff_iff]
  refine ⟨fun hca => sameKey_trans hca h, fun hcb => sameKey_trans hcb ?_⟩
  rwa [sameKey_comm]

/-- **An item with a valid key has the same key as itself.** -/
theorem sameKey_self {item : Item} (hkey : k.HasKey enforce item) (hvalid : Item.Valid item) :
    k.sameKey item item = true := by
  rw [sameKey_iff]
  intro name hname
  obtain ⟨a, ha, rfl⟩ := List.mem_map.mp hname
  obtain ⟨v, hv, _⟩ := hkey a ha
  exact ⟨v, v, hv, hv, Value.agrees_self (hvalid _ v hv)⟩

section Unchanged

variable {a b : Item}

/-- Only the key attributes count. -/
lemma sameKey_eq_of_get?_eq (h : ∀ name ∈ k.names, a.get? name = b.get? name) (c : Item) :
    k.sameKey a c = k.sameKey b c := by
  rw [Bool.eq_iff_iff, sameKey_iff, sameKey_iff]
  exact forall₂_congr fun name hname => by rw [h name hname]

lemma HasKey.of_get?_eq (hb : k.HasKey enforce b)
    (h : ∀ name ∈ k.names, a.get? name = b.get? name) : k.HasKey enforce a := by
  intro part hpart
  rw [h part.name (List.mem_map_of_mem hpart)]
  exact hb part hpart

end Unchanged

lemma get?_restrict_hasName {name : String} (hname : name ∈ k.names) (item : Item) :
    (item.restrict k.hasName).get? name = item.get? name := by
  rw [NameMap.get?_restrict, if_pos (hasName_iff.mpr hname)]

/-- Of an item that has all key attributes these are kept, and no others. -/
lemma mem_names_restrict_hasName {item : Item}
    (h : ∀ a ∈ k.attributes, ∃ v, item.get? a.name = some v) (name : String) :
    name ∈ (item.restrict k.hasName).names ↔ name ∈ k.names := by
  rw [NameMap.mem_names_restrict, hasName_iff, and_iff_left_iff_imp]
  intro hname
  obtain ⟨a, ha, rfl⟩ := List.mem_map.mp hname
  exact NameMap.mem_names_iff.mpr (h a ha)

/-! ### Keys read from items -/

/-- The key is read off the values under the key attributes. -/
lemma keyOf_eq_ok {item : Item} {key : PrimaryKey} :
    k.keyOf enforce item = .ok key ↔
      k.hash.valueIn enforce item = .ok key.hash ∧
        (match k.range with
          | none => key.range = none
          | some a => ∃ v, a.valueIn enforce item = .ok v ∧ key.range = some v) := by
  obtain ⟨hash, range⟩ := key
  rw [keyOf]
  simp only [bind_eq_ok]
  cases k.range with
  | none =>
      simp only [pure, Except.pure, Except.ok.injEq, PrimaryKey.mk.injEq]
      constructor
      · rintro ⟨v, hv, rfl, rfl⟩
        exact ⟨hv, rfl⟩
      · rintro ⟨hv, rfl⟩
        exact ⟨hash, hv, rfl, rfl⟩
  | some a =>
      simp only [bind_eq_ok, pure, Except.pure, Except.ok.injEq, PrimaryKey.mk.injEq]
      constructor
      · rintro ⟨v, hv, w, hw, rfl, rfl⟩
        exact ⟨hv, w, hw, rfl⟩
      · rintro ⟨hv, w, hw, rfl⟩
        exact ⟨hash, hv, w, hw, rfl, rfl⟩

/-- **A key can be read off exactly the items that have one.** -/
theorem keyOf_isOk_iff {item : Item} :
    (∃ key, k.keyOf enforce item = .ok key) ↔ k.HasKey enforce item := by
  simp only [keyOf_eq_ok, HasKey, attributes, List.forall_mem_cons, KeyAttribute.valueIn_eq_ok]
  cases k.range with
  | none =>
      simp only [Option.toList_none, List.not_mem_nil, false_imp_iff, implies_true, and_true]
      constructor
      · rintro ⟨key, hkey, _⟩
        exact ⟨key.hash, hkey⟩
      · rintro ⟨v, hv⟩
        exact ⟨⟨v, none⟩, hv, rfl⟩
  | some a =>
      simp only [Option.toList_some, List.mem_singleton, forall_eq]
      constructor
      · rintro ⟨key, hkey, w, hw, _⟩
        exact ⟨⟨key.hash, hkey⟩, w, hw⟩
      · rintro ⟨⟨v, hv⟩, w, hw⟩
        exact ⟨⟨v, some w⟩, hv, w, hw, rfl⟩

/-- A key attribute agrees with a value that another item has under it. -/
lemma agreesIn_eq {a : KeyAttribute} {item other : Item} {v : Value}
    (hv : other.get? a.name = some v) :
    a.agreesIn item v =
      match item.get? a.name, other.get? a.name with
      | some v, some w => v.agrees w
      | _, _ => false := by
  rw [KeyAttribute.agreesIn, hv]
  cases item.get? a.name <;> rfl

/-- **Matching the key of an item is having the same key as that item.** -/
theorem matchesKey_eq {item : Item} {key : PrimaryKey} (hkey : k.keyOf enforce item = .ok key)
    (other : Item) : k.matchesKey key other = k.sameKey other item := by
  obtain ⟨hhash, hrange⟩ := keyOf_eq_ok.mp hkey
  have hget := (KeyAttribute.valueIn_eq_ok.mp hhash).1
  simp only [matchesKey, sameKey, names, attributes, List.map_cons, List.all_cons,
    agreesIn_eq hget]
  congr 1
  revert hrange
  cases k.range with
  | none => intro _; rfl
  | some a =>
      rintro ⟨w, hw, hrange⟩
      have hget' := (KeyAttribute.valueIn_eq_ok.mp hw).1
      simp only [hrange, agreesIn_eq hget', Option.toList_some, List.map_cons, List.map_nil,
        List.all_cons, List.all_nil, Bool.and_true]

end KeySchema

/-! ## Requested keys -/

namespace Answer

variable {keys : KeySchema} {enforce : Bool}

lemma checkKey_eq_ok {key : Item} :
    checkKey keys key = .ok () ↔
      (key.size = keys.names.length ∧ ∀ name ∈ key.names, name ∈ keys.names) ∧ Item.Valid key := by
  rw [checkKey]
  simp only [List.all_eq_true, KeySchema.hasName_iff]
  split
  · rename_i h
    rw [checkNumerals_eq_ok, Item.valid_iff_values]
    exact (and_iff_right h).symm
  · rename_i h
    simp [refuse, h]

/-- Where no key attribute is named twice, a key has exactly the key attributes: names that are
distinct and as many as the names among which they are found are all of them. -/
lemma checkKey_eq_ok_of_nodup (hnames : keys.names.Nodup) {key : Item} :
    checkKey keys key = .ok () ↔
      (∀ name, name ∈ key.names ↔ name ∈ keys.names) ∧ Item.Valid key := by
  rw [checkKey_eq_ok, NameMap.size_eq_length_names]
  refine and_congr_left fun _ => ⟨?_, ?_⟩
  · rintro ⟨hlength, hsubset⟩
    have hsubperm := List.subperm_of_subset (NameMap.names_nodup key) hsubset
    have hperm := hsubperm.perm_of_length_le hlength.ge
    exact fun name => hperm.mem_iff
  · intro hmem
    have hperm := (List.perm_ext_iff_of_nodup (NameMap.names_nodup key) hnames).mpr hmem
    exact ⟨hperm.length_eq, fun name => (hmem name).mp⟩

/-- **The key attributes of an item that has them are a key on their own**, provided that the key
has no attribute twice. -/
theorem checkKey_restrict {item : Item} (hnames : keys.names.Nodup)
    (hkey : keys.HasKey enforce item) (hvalid : Item.Valid item) :
    checkKey keys (item.restrict keys.hasName) = .ok () := by
  refine (checkKey_eq_ok_of_nodup hnames).mpr ⟨?_, hvalid.restrict _⟩
  refine KeySchema.mem_names_restrict_hasName fun a ha => ?_
  obtain ⟨v, hv, _⟩ := hkey a ha
  exact ⟨v, hv⟩

end Answer

end ItemStore
