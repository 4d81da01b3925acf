import ItemStore.Proofs.Keys

/-!
# Declared keys

A key is declared as a list of attributes with their roles, and read by handing the roles out one
after the other.  Two lists of two elements make the same key, which is why the order of the
elements is nowhere to be seen in what a key is read as.

* `KeySchema.Declarable` — what the list must be like; `KeySchema.Roles` is the same case by case.
* `KeySchema.ofElements_eq_ok_iff` — a key is read with the attributes that have its roles, and each
  of them is typed.
* **`KeySchema.exists_ofElements_iff`** — the keys that are accepted.
* `KeySchema.ReadFrom` — what an accepted key is like, seen from the declaration.
-/

namespace ItemStore

/-- Among things with distinct names, the first of a name is the one. -/
lemma find?_name_eq_some {α : Type} {name : α → String} {l : List α} {n : String} {a : α}
    (h : (l.map name).Nodup) : l.find? (fun b => name b == n) = some a ↔ a ∈ l ∧ name a = n := by
  constructor
  · intro hfind
    exact ⟨List.mem_of_find?_eq_some hfind, by simpa using List.find?_some hfind⟩
  · rintro ⟨ha, rfl⟩
    obtain ⟨b, hb⟩ := Option.isSome_iff_exists.mp
      (List.find?_isSome (p := fun b => name b == name a).mpr ⟨a, ha, beq_self_eq_true _⟩)
    have hname : name b = name a := by simpa using List.find?_some hb
    rw [hb, List.inj_on_of_nodup_map h (List.mem_of_find?_eq_some hb) ha hname]

lemma ScalarType.isKeyType_iff {t : ScalarType} :
    t.isKeyType = true ↔ t = .text ∨ t = .number := by
  cases t <;> simp [isKeyType]

namespace KeySchema

/-! ## What may be declared -/

/-- A key as it may be declared: one hash attribute and at most one range attribute, in either
order, under different names. -/
structure Declarable (elements : List KeyElement) : Prop where
  length : elements.length = 1 ∨ elements.length = 2
  hash : (elements.map KeyElement.role).count .hash = 1
  range : (elements.map KeyElement.role).count .range ≤ 1
  names : (elements.map KeyElement.name).Nodup

/-- The attributes that have the roles of a key. -/
inductive Roles : List KeyElement → String → Option String → Prop
  | alone (hash : String) : Roles [⟨hash, .hash⟩] hash none
  | hashFirst {hash range : String} (hne : range ≠ hash) :
      Roles [⟨hash, .hash⟩, ⟨range, .range⟩] hash (some range)
  | rangeFirst {hash range : String} (hne : range ≠ hash) :
      Roles [⟨range, .range⟩, ⟨hash, .hash⟩] hash (some range)

variable {elements : List KeyElement} {hash : String} {range : Option String}

lemma Roles.declarable (h : Roles elements hash range) : Declarable elements := by
  cases h with
  | alone => exact ⟨.inl rfl, rfl, Nat.zero_le _, List.nodup_singleton _⟩
  | hashFirst hne => exact ⟨.inr rfl, rfl, le_rfl, by simpa using Ne.symm hne⟩
  | rangeFirst hne => exact ⟨.inr rfl, rfl, le_rfl, by simpa using hne⟩

lemma Declarable.exists_roles (h : Declarable elements) :
    ∃ hash range, Roles elements hash range := by
  obtain ⟨hlength, hhash, hrange, hnames⟩ := h
  rcases hlength with hone | htwo
  · obtain ⟨⟨n, role⟩, rfl⟩ := List.length_eq_one_iff.mp hone
    cases role with
    | hash => exact ⟨n, none, .alone n⟩
    | range => simp at hhash
  · obtain ⟨⟨m, role⟩, ⟨n, role'⟩, rfl⟩ := List.length_eq_two.mp htwo
    have hne : m ≠ n := by simpa using hnames
    cases role <;> cases role'
    · simp at hhash
    · exact ⟨m, some n, .hashFirst hne.symm⟩
    · exact ⟨n, some m, .rangeFirst hne⟩
    · simp at hrange

lemma Roles.mem_hash_iff (h : Roles elements hash range) {name : String} :
    ⟨name, .hash⟩ ∈ elements ↔ name = hash := by
  cases h <;> simp

lemma Roles.mem_range_iff (h : Roles elements hash range) {name : String} :
    ⟨name, .range⟩ ∈ elements ↔ range = some name := by
  cases h <;> simp [eq_comm]

lemma Roles.nodup {k : KeySchema}
    (h : Roles elements k.hash.name (k.range.map KeyAttribute.name)) : k.names.Nodup := by
  obtain ⟨a, range⟩ := k
  cases range with
  | none => exact List.nodup_singleton _
  | some b =>
      have hne : b.name ≠ a.name := by cases h <;> assumption
      simpa [names, attributes] using hne.symm

/-! ## Reading keys -/

variable {owner : KeyOwner} {definitions : List AttributeDefinition} {mustBeDefined : Bool}
  {k : KeySchema}

/-- The type that a name is defined with. -/
def definedType? (definitions : List AttributeDefinition) (name : String) : Option ScalarType :=
  (definitions.find? fun d => d.name == name).map AttributeDefinition.type

lemma definedType?_eq_some (hnodup : (definitions.map AttributeDefinition.name).Nodup)
    {name : String} {t : ScalarType} :
    definedType? definitions name = some t ↔ ⟨name, t⟩ ∈ definitions := by
  simp only [definedType?, Option.map_eq_some_iff, find?_name_eq_some hnodup]
  constructor
  · rintro ⟨⟨_, _⟩, ⟨hmem, rfl⟩, rfl⟩
    exact hmem
  · exact fun hmem => ⟨_, ⟨hmem, rfl⟩, rfl⟩

lemma typed_eq_ok_iff {name : String} {a : KeyAttribute} :
    typed owner definitions mustBeDefined name = .ok a ↔
      a = ⟨name, definedType? definitions name⟩ ∧
        (mustBeDefined = true → (definedType? definitions name).isSome = true) := by
  rw [typed, definedType?]
  cases definitions.find? fun d => d.name == name with
  | none => cases mustBeDefined <;> simp [eq_comm]
  | some d => simp [eq_comm]

lemma name_of_typed {name : String} {a : KeyAttribute}
    (h : typed owner definitions mustBeDefined name = .ok a) : a.name = name :=
  congrArg KeyAttribute.name (typed_eq_ok_iff.mp h).1

/-- Without a range attribute, the hash attribute is all that is to be typed. -/
lemma ofElements_alone :
    ofElements owner definitions mustBeDefined [⟨hash, .hash⟩]
      = do return ⟨← typed owner definitions mustBeDefined hash, none⟩ := rfl

lemma ofElements_of_roles {range : String} (h : Roles elements hash (some range)) :
    ofElements owner definitions mustBeDefined elements = do
      let hash ← typed owner definitions mustBeDefined hash
      let range ← typed owner definitions mustBeDefined range
      return ⟨hash, some range⟩ := by
  cases h with
  | hashFirst hne => simp [ofElements, assignRoles, hne, bind, Except.bind, pure, Except.pure]
  | rangeFirst hne => simp [ofElements, assignRoles, hne, bind, Except.bind, pure, Except.pure]

lemma roles_of_ofElements (h : ofElements owner definitions mustBeDefined elements = .ok k) :
    ∃ hash range, Roles elements hash range := by
  match elements, h with
  | [⟨n, .hash⟩], _ => exact ⟨n, none, .alone n⟩
  | [⟨m, .hash⟩, ⟨n, .range⟩], h =>
      by_cases hne : n = m
      · simp [ofElements, assignRoles, hne, bind, Except.bind] at h
      · exact ⟨m, some n, .hashFirst hne⟩
  | [⟨m, .range⟩, ⟨n, .hash⟩], h =>
      by_cases hne : m = n
      · simp [ofElements, assignRoles, hne, bind, Except.bind] at h
      · exact ⟨n, some m, .rangeFirst hne⟩
  | _ :: _ :: _ :: _, h => simp [ofElements, bind, Except.bind] at h

/-- An accepted key has the attributes with its roles, each of them typed. -/
lemma ofElements_eq_ok_iff :
    ofElements owner definitions mustBeDefined elements = .ok k ↔
      Roles elements k.hash.name (k.range.map KeyAttribute.name) ∧
        ∀ a ∈ k.attributes, typed owner definitions mustBeDefined a.name = .ok a := by
  constructor
  · intro h
    obtain ⟨hash, range, hroles⟩ := roles_of_ofElements h
    cases range with
    | none =>
        cases hroles
        obtain ⟨a, ha, h⟩ := bind_eq_ok.mp (ofElements_alone.symm.trans h)
        cases h
        obtain rfl := name_of_typed ha
        exact ⟨.alone a.name, by simpa [attributes] using ha⟩
    | some range =>
        rw [ofElements_of_roles hroles] at h
        obtain ⟨a, ha, h⟩ := bind_eq_ok.mp h
        obtain ⟨b, hb, h⟩ := bind_eq_ok.mp h
        cases h
        obtain rfl := name_of_typed ha
        obtain rfl := name_of_typed hb
        exact ⟨hroles, by simpa [attributes] using ⟨ha, hb⟩⟩
  · rintro ⟨hroles, htyped⟩
    obtain ⟨a, range⟩ := k
    have ha := htyped a List.mem_cons_self
    cases range with
    | none =>
        cases hroles
        exact ofElements_alone.trans (bind_eq_ok.mpr ⟨a, ha, rfl⟩)
    | some b =>
        have hb := htyped b (by simp [attributes])
        rw [ofElements_of_roles hroles]
        exact bind_eq_ok.mpr ⟨a, ha, bind_eq_ok.mpr ⟨b, hb, rfl⟩⟩

/-- **A key is accepted if it may be declared** and, where this is asked for, its attributes are
defined. -/
theorem exists_ofElements_iff :
    (∃ k, ofElements owner definitions mustBeDefined elements = .ok k) ↔
      Declarable elements ∧
        (mustBeDefined = true →
          ∀ e ∈ elements, (definedType? definitions e.name).isSome = true) := by
  simp only [ofElements_eq_ok_iff, typed_eq_ok_iff]
  constructor
  · rintro ⟨k, hroles, htyped⟩
    refine ⟨hroles.declarable, fun hmust e he => ?_⟩
    obtain ⟨hash, range⟩ := k
    have hhash := (htyped hash List.mem_cons_self).2 hmust
    cases range with
    | none =>
        cases hroles
        obtain rfl := List.mem_singleton.mp he
        exact hhash
    | some range =>
        have hrange := (htyped range (by simp [attributes])).2 hmust
        cases hroles <;>
        · simp only [List.mem_cons, List.not_mem_nil, or_false] at he
          rcases he with rfl | rfl <;> assumption
  · rintro ⟨hdeclarable, hdefined⟩
    obtain ⟨hash, range, hroles⟩ := hdeclarable.exists_roles
    refine ⟨⟨⟨hash, definedType? definitions hash⟩,
      range.map fun name => ⟨name, definedType? definitions name⟩⟩, ?_, ?_⟩
    · simpa [Function.comp_def] using hroles
    · have hhash := fun hmust => hdefined hmust _ (hroles.mem_hash_iff.mpr rfl)
      cases range with
      | none => simpa [attributes] using hhash
      | some range =>
          have hrange := fun hmust => hdefined hmust _ (hroles.mem_range_iff.mpr rfl)
          simpa [attributes] using And.intro hhash hrange

/-- A key as it was declared: its attributes have the roles that they were given, and the types that
they are defined with. -/
structure ReadFrom (definitions : List AttributeDefinition) (elements : List KeyElement)
    (k : KeySchema) : Prop where
  hash : ∀ name, ⟨name, .hash⟩ ∈ elements ↔ k.hash.name = name
  range : ∀ name, ⟨name, .range⟩ ∈ elements ↔ k.range.map KeyAttribute.name = some name
  type : ∀ a ∈ k.attributes, ∀ t, a.type = some t ↔ ⟨a.name, t⟩ ∈ definitions

lemma readFrom_of_ofElements (hnodup : (definitions.map AttributeDefinition.name).Nodup)
    (h : ofElements owner definitions mustBeDefined elements = .ok k) :
    k.ReadFrom definitions elements := by
  obtain ⟨hroles, htyped⟩ := ofElements_eq_ok_iff.mp h
  refine ⟨fun name => hroles.mem_hash_iff.trans eq_comm, fun name => hroles.mem_range_iff, ?_⟩
  intro a ha t
  have htype := congrArg KeyAttribute.type (typed_eq_ok_iff.mp (htyped a ha)).1
  rw [htype]
  exact definedType?_eq_some hnodup

end KeySchema

end ItemStore
