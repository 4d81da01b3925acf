import ItemStore.Proofs.DeclaredKeys

/-!
# Well-formed declarations

A declaration is checked from the front: definitions, the primary key, the indexes one by one.  Each
step has its own reasons to refuse, and the first one that has any decides.  None of this is to be
seen in which declarations are accepted.

* `TableDeclaration.WellFormed` — a declaration that makes sense, with no order of checks.
* `TableSchema.ReadFrom` — what an accepted declaration is read as.
* `TableSchema.Mistyped` — definitions of which a type is the first thing to be wrong.
* `TableSchema.Conflicts` — a step that is refused for a conflict, if it is.
* `TableSchema.ofDeclaration_eq_ok` — acceptance step by step.
* **`TableSchema.ofDeclaration_wellFormed`** — which declarations are accepted, as what, and with
  what code the others are refused.
-/

namespace ItemStore

/-- A declaration that makes sense. -/
structure TableDeclaration.WellFormed (d : TableDeclaration) : Prop where
  definitions : (d.definitions.map AttributeDefinition.name).Nodup
  types : ∀ a ∈ d.definitions, a.type = .text ∨ a.type = .number
  keys : KeySchema.Declarable d.keys
  defined : ∀ e ∈ d.keys, ∃ t, ⟨e.name, t⟩ ∈ d.definitions
  indexKeys : ∀ i ∈ d.globalIndexes ++ d.localIndexes, KeySchema.Declarable i.keys
  named : ∀ i ∈ d.globalIndexes ++ d.localIndexes, i.name ≠ ""
  distinct : ((d.globalIndexes ++ d.localIndexes).map IndexDeclaration.name).Nodup
  sharedHash : ∀ i ∈ d.localIndexes, ∀ name, ⟨name, .hash⟩ ∈ i.keys ↔ ⟨name, .hash⟩ ∈ d.keys
  localRange : ∀ i ∈ d.localIndexes, ∃ name, ⟨name, .range⟩ ∈ i.keys

/-! ## Names that are taken -/

/-- Names that are distinct, and none of which is taken. -/
def Fresh (taken names : List String) : Prop :=
  names.Nodup ∧ ∀ n ∈ names, n ∉ taken

lemma fresh_nil (taken : List String) : Fresh taken [] :=
  ⟨List.nodup_nil, List.forall_mem_nil _⟩

lemma fresh_cons {taken names : List String} {n : String} :
    Fresh taken (n :: names) ↔ n ∉ taken ∧ Fresh (n :: taken) names := by
  simp only [Fresh, List.nodup_cons]
  rw [List.forall_mem_cons]
  simp only [List.mem_cons, not_or]
  constructor
  · rintro ⟨⟨hn, hnames⟩, htaken, hrest⟩
    exact ⟨htaken, hnames, fun m hm => ⟨fun heq => hn (heq ▸ hm), hrest m hm⟩⟩
  · rintro ⟨htaken, hnames, hrest⟩
    exact ⟨⟨fun hn => (hrest n hn).1 rfl, hnames⟩, htaken, fun m hm => (hrest m hm).2⟩

lemma fresh_nil_left {names : List String} : Fresh [] names ↔ names.Nodup := by
  simp [Fresh]

/-- Partners can be found for a list where they can be found for each of its elements. -/
lemma exists_forall₂_iff {α β : Type} {R : α → β → Prop} {as : List α} :
    (∃ bs, List.Forall₂ R as bs) ↔ ∀ a ∈ as, ∃ b, R a b := by
  induction as with
  | nil => simp
  | cons a as ih =>
      rw [List.forall_mem_cons, ← ih]
      constructor
      · rintro ⟨_, _ | ⟨hab, has⟩⟩
        exact ⟨⟨_, hab⟩, ⟨_, has⟩⟩
      · rintro ⟨⟨b, hab⟩, ⟨bs, has⟩⟩
        exact ⟨b :: bs, .cons hab has⟩

/-! ## Reading declarations -/

namespace TableSchema

variable {definitions : List AttributeDefinition} {primary : KeySchema} {taken : List String}

lemma checkDefinitions_eq_ok_iff {u : Unit} :
    checkDefinitions taken definitions = .ok u ↔
      Fresh taken (definitions.map AttributeDefinition.name) ∧
        ∀ a ∈ definitions, a.type.isKeyType = true := by
  induction definitions generalizing taken with
  | nil => simp [checkDefinitions, fresh_nil]
  | cons a rest ih =>
      rw [checkDefinitions, List.map_cons, fresh_cons, List.forall_mem_cons]
      by_cases hname : a.name ∈ taken
      · simp [hname]
      · cases htype : a.type.isKeyType with
        | false => simp [hname]
        | true => simp [hname, ih]

/-- An index as it is read from what was declared of it. -/
structure ReadsAs (definitions : List AttributeDefinition) (primary : KeySchema)
    (declared : IndexKind × IndexDeclaration) (index : Index) : Prop where
  name_eq : index.name = declared.2.name
  kind_eq : index.kind = declared.1
  named : declared.2.name ≠ ""
  keys : KeySchema.ofElements (.index declared.2.name) definitions false declared.2.keys
    = .ok index.keys
  shares : declared.1 = .localIndex →
    index.keys.hash.name = primary.hash.name ∧ index.keys.range.isSome = true

lemma checkLocal_eq_ok {owner : KeyOwner} {keys : KeySchema} :
    checkLocal owner primary keys = .ok () ↔
      keys.hash.name = primary.hash.name ∧ keys.range.isSome = true := by
  rw [checkLocal]
  split_ifs with hhash hrange
  · simp [hhash]
  · simp_all
  · simp_all [← Option.ne_none_iff_isSome]

lemma readIndex_eq_ok {kind : IndexKind} {d : IndexDeclaration} {index : Index} :
    readIndex definitions primary taken kind d = .ok index ↔
      d.name ∉ taken ∧ ReadsAs definitions primary (kind, d) index := by
  rw [readIndex]
  by_cases hnamed : d.name = ""
  · simpa [hnamed, bind, Except.bind] using fun _ (h : ReadsAs _ _ _ _) => h.named hnamed
  by_cases htaken : d.name ∈ taken
  · simp [hnamed, htaken, bind, Except.bind]
  simp only [String.isEmpty_iff, hnamed, List.contains_iff_mem, htaken, if_false, bind_eq_ok,
    not_false_eq_true, true_and]
  constructor
  · rintro ⟨keys, hkeys, h⟩
    split_ifs at h with hlocal
    · obtain ⟨_, hshares, h⟩ := bind_eq_ok.mp h
      cases h
      exact ⟨rfl, rfl, hnamed, hkeys, fun _ => checkLocal_eq_ok.mp hshares⟩
    · cases h
      exact ⟨rfl, rfl, hnamed, hkeys, fun h => absurd h hlocal⟩
  · rintro ⟨hname, hkind, -, hkeys, hshares⟩
    obtain ⟨name, kind', keys⟩ := index
    obtain rfl : name = d.name := hname
    obtain rfl : kind' = kind := hkind
    refine ⟨keys, hkeys, ?_⟩
    split_ifs with hlocal
    · exact bind_eq_ok.mpr ⟨(), checkLocal_eq_ok.mpr (hshares hlocal), rfl⟩
    · rfl

lemma readIndexes_eq_ok {declared : List (IndexKind × IndexDeclaration)} {indexes : List Index} :
    readIndexes definitions primary taken declared = .ok indexes ↔
      Fresh taken (declared.map fun i => i.2.name) ∧
        List.Forall₂ (ReadsAs definitions primary) declared indexes := by
  induction declared generalizing taken indexes with
  | nil => simp [readIndexes, fresh_nil, eq_comm]
  | cons i rest ih =>
      obtain ⟨kind, d⟩ := i
      simp only [readIndexes, bind_eq_ok, readIndex_eq_ok, ih, List.map_cons, fresh_cons,
        List.forall₂_cons_left_iff]
      constructor
      · rintro ⟨index, ⟨hname, hindex⟩, indexes, ⟨hnames, hindexes⟩, ⟨⟩⟩
        exact ⟨⟨hname, hnames⟩, index, indexes, hindex, hindexes, rfl⟩
      · rintro ⟨⟨hname, hnames⟩, index, indexes, hindex, hindexes, rfl⟩
        exact ⟨index, ⟨hname, hindex⟩, indexes, ⟨hnames, hindexes⟩, rfl⟩

/-- An index is read if it is named, its key may be declared and, if it is local, it has the hash
attribute of the table and a range attribute. -/
lemma exists_readsAs_iff {elements : List KeyElement} {kind : IndexKind} {d : IndexDeclaration}
    (hprimary : primary.ReadFrom definitions elements) :
    (∃ index, ReadsAs definitions primary (kind, d) index) ↔
      d.name ≠ "" ∧ KeySchema.Declarable d.keys ∧
        (kind = .localIndex →
          (∀ name, ⟨name, .hash⟩ ∈ d.keys ↔ ⟨name, .hash⟩ ∈ elements) ∧
            ∃ name, ⟨name, .range⟩ ∈ d.keys) := by
  constructor
  · rintro ⟨index, -, -, hnamed, hkeys, hshares⟩
    have hroles := (KeySchema.ofElements_eq_ok_iff.mp hkeys).1
    refine ⟨hnamed, hroles.declarable, fun hlocal => ?_⟩
    obtain ⟨hhash, hrange⟩ := hshares hlocal
    obtain ⟨range, hrange⟩ := Option.isSome_iff_exists.mp hrange
    refine ⟨fun name => ?_, range.name, ?_⟩
    · rw [hroles.mem_hash_iff, hprimary.hash, hhash, eq_comm]
    · rw [hroles.mem_range_iff, hrange, Option.map_some]
  · rintro ⟨hnamed, hdeclarable, hlocal⟩
    obtain ⟨keys, hkeys⟩ : ∃ keys,
        KeySchema.ofElements (.index d.name) definitions false d.keys = .ok keys :=
      KeySchema.exists_ofElements_iff.mpr ⟨hdeclarable, nofun⟩
    have hroles := (KeySchema.ofElements_eq_ok_iff.mp hkeys).1
    refine ⟨⟨d.name, kind, keys⟩, rfl, rfl, hnamed, hkeys, fun h => ?_⟩
    obtain ⟨hhash, name, hrange⟩ := hlocal h
    have hshared := (hhash _).mp (hroles.mem_hash_iff.mpr rfl)
    rw [hroles.mem_range_iff, Option.map_eq_some_iff] at hrange
    obtain ⟨range, hrange, -⟩ := hrange
    exact ⟨((hprimary.hash _).mp hshared).symm, by rw [hrange]; rfl⟩

/-- A declaration is accepted step by step. -/
lemma ofDeclaration_eq_ok {d : TableDeclaration} {s : TableSchema} :
    ofDeclaration d = .ok s ↔
      s.declaration = d ∧ (d.definitions.map AttributeDefinition.name).Nodup ∧
        (∀ a ∈ d.definitions, a.type.isKeyType = true) ∧
        KeySchema.ofElements .table d.definitions true d.keys = .ok s.primary ∧
        ((declaredIndexes d).map fun i => i.2.name).Nodup ∧
        List.Forall₂ (ReadsAs d.definitions s.primary) (declaredIndexes d) s.indexes := by
  simp only [ofDeclaration, bind_eq_ok, checkDefinitions_eq_ok_iff, readIndexes_eq_ok,
    fresh_nil_left]
  constructor
  · rintro ⟨_, ⟨hnames, htypes⟩, primary, hprimary, indexes, ⟨hindexNames, hindexes⟩, ⟨⟩⟩
    exact ⟨rfl, hnames, htypes, hprimary, hindexNames, hindexes⟩
  · rintro ⟨rfl, hnames, htypes, hprimary, hindexNames, hindexes⟩
    exact ⟨(), ⟨hnames, htypes⟩, s.primary, hprimary, s.indexes, ⟨hindexNames, hindexes⟩, rfl⟩

/-- Every check that is made on the way is one on the declaration as a whole. -/
lemma exists_ofDeclaration_iff {d : TableDeclaration} :
    (∃ s, ofDeclaration d = .ok s) ↔ d.WellFormed := by
  have hindexNames : (declaredIndexes d).map (fun i => i.2.name)
      = (d.globalIndexes ++ d.localIndexes).map IndexDeclaration.name := by
    simp [declaredIndexes, Function.comp_def]
  have hforall : ∀ P : IndexKind × IndexDeclaration → Prop, (∀ i ∈ declaredIndexes d, P i) ↔
      (∀ i ∈ d.globalIndexes, P (.globalIndex, i)) ∧ ∀ i ∈ d.localIndexes, P (.localIndex, i) := by
    simp only [declaredIndexes, List.forall_mem_append, List.forall_mem_map, implies_true]
  have hdefined : ∀ e : KeyElement, (d.definitions.map AttributeDefinition.name).Nodup →
      ((KeySchema.definedType? d.definitions e.name).isSome = true ↔
        ∃ t, ⟨e.name, t⟩ ∈ d.definitions) := fun e hnames => by
    simp only [Option.isSome_iff_exists, KeySchema.definedType?_eq_some hnames]
  simp only [ofDeclaration_eq_ok, hindexNames]
  constructor
  · rintro ⟨s, -, hnames, htypes, hprimary, hdistinct, hindexes⟩
    obtain ⟨hkeys, hall⟩ := KeySchema.exists_ofElements_iff.mp ⟨_, hprimary⟩
    have hread := KeySchema.readFrom_of_ofElements hnames hprimary
    obtain ⟨hglobal, hlocal⟩ := (hforall _).mp (exists_forall₂_iff.mp ⟨_, hindexes⟩)
    simp only [exists_readsAs_iff hread] at hglobal hlocal
    exact
      { definitions := hnames
        types := fun a ha => ScalarType.isKeyType_iff.mp (htypes a ha)
        keys := hkeys
        defined := fun e he => (hdefined e hnames).mp (hall rfl e he)
        indexKeys := List.forall_mem_append.mpr
          ⟨fun i hi => (hglobal i hi).2.1, fun i hi => (hlocal i hi).2.1⟩
        named := List.forall_mem_append.mpr
          ⟨fun i hi => (hglobal i hi).1, fun i hi => (hlocal i hi).1⟩
        distinct := hdistinct
        sharedHash := fun i hi => ((hlocal i hi).2.2 trivial).1
        localRange := fun i hi => ((hlocal i hi).2.2 trivial).2 }
  · intro h
    obtain ⟨hglobal, hlocal⟩ := List.forall_mem_append.mp h.indexKeys
    obtain ⟨hglobalNamed, hlocalNamed⟩ := List.forall_mem_append.mp h.named
    obtain ⟨primary, hprimary⟩ : ∃ primary,
        KeySchema.ofElements .table d.definitions true d.keys = .ok primary :=
      KeySchema.exists_ofElements_iff.mpr
        ⟨h.keys, fun _ e he => (hdefined e h.definitions).mpr (h.defined e he)⟩
    have hread := KeySchema.readFrom_of_ofElements h.definitions hprimary
    obtain ⟨indexes, hindexes⟩ := exists_forall₂_iff (R := ReadsAs d.definitions primary)
      |>.mpr ((hforall _).mpr
        ⟨fun i hi => (exists_readsAs_iff hread).mpr ⟨hglobalNamed i hi, hglobal i hi, nofun⟩,
          fun i hi => (exists_readsAs_iff hread).mpr
            ⟨hlocalNamed i hi, hlocal i hi, fun _ => ⟨h.sharedHash i hi, h.localRange i hi⟩⟩⟩)
    exact ⟨⟨d, primary, indexes⟩, rfl, h.definitions,
      fun a ha => ScalarType.isKeyType_iff.mpr (h.types a ha), hprimary, h.distinct, hindexes⟩

/-! ### What an accepted declaration is read as -/

/-- The keys and indexes of a table as they were declared: global indexes first, in the order of
the declaration.  Keys are looked up by the names of indexes. -/
structure ReadFrom (d : TableDeclaration) (s : TableSchema) : Prop where
  primary : s.primary.ReadFrom d.definitions d.keys
  typed : ∀ a ∈ s.primary.attributes, ∃ t, a.type = some t ∧ ⟨a.name, t⟩ ∈ d.definitions
  indexes : List.Forall₂
    (fun declared index => index.kind = declared.1 ∧ index.name = declared.2.name ∧
      index.keys.ReadFrom d.definitions declared.2.keys)
    (d.globalIndexes.map (IndexKind.globalIndex, ·) ++ d.localIndexes.map (IndexKind.localIndex, ·))
    s.indexes
  primaryKeys : ∀ t : Table, t.schema = s → t.keysFor none = .ok s.primary
  indexKeys : ∀ t : Table, t.schema = s → ∀ index ∈ s.indexes,
    t.keysFor (some index.name) = .ok index.keys
  declared : ∀ t : Table, t.schema = s → ∀ name, (∃ keys, t.keysFor (some name) = .ok keys) ↔
    ∃ i ∈ d.globalIndexes ++ d.localIndexes, i.name = name

lemma keysFor_some_eq_ok {t : Table} {name : String} {keys : KeySchema}
    (hnodup : (t.schema.indexes.map Index.name).Nodup) :
    t.keysFor (some name) = .ok keys ↔
      ∃ index ∈ t.schema.indexes, index.name = name ∧ index.keys = keys := by
  have hfind : t.schema.indexKeys? name = some keys ↔
      ∃ index ∈ t.schema.indexes, index.name = name ∧ index.keys = keys := by
    simp only [indexKeys?, Option.map_eq_some_iff, find?_name_eq_some hnodup, and_assoc]
  rw [← hfind, Table.keysFor]
  cases t.schema.indexKeys? name <;> simp

lemma readFrom_of_ofDeclaration {d : TableDeclaration} {s : TableSchema}
    (h : ofDeclaration d = .ok s) : s.ReadFrom d := by
  have hwell := exists_ofDeclaration_iff.mp ⟨s, h⟩
  obtain ⟨-, hnames, -, hprimary, hdistinct, hindexes⟩ := ofDeclaration_eq_ok.mp h
  have hread := KeySchema.readFrom_of_ofElements hnames hprimary
  have hindexNames : s.indexes.map Index.name
      = (d.globalIndexes ++ d.localIndexes).map IndexDeclaration.name := by
    have heq : s.indexes.map Index.name = (declaredIndexes d).map fun i => i.2.name := by
      rw [← List.forall₂_eq_eq_eq, List.forall₂_map_left_iff, List.forall₂_map_right_iff]
      exact (hindexes.imp fun _ _ hindex => hindex.name_eq).flip
    rw [heq]
    simp [declaredIndexes, Function.comp_def]
  have hnodup : ∀ t : Table, t.schema = s → (t.schema.indexes.map Index.name).Nodup := by
    rintro t rfl
    rw [hindexNames]
    exact hwell.distinct
  refine ⟨hread, fun a ha => ?_, ?_, fun t ht => ?_, fun t ht index hindex => ?_,
    fun t ht name => ?_⟩
  · obtain ⟨htype, hsome⟩ := KeySchema.typed_eq_ok_iff.mp
      ((KeySchema.ofElements_eq_ok_iff.mp hprimary).2 a ha)
    obtain ⟨t, ht⟩ := Option.isSome_iff_exists.mp (hsome rfl)
    exact ⟨t, (congrArg KeyAttribute.type htype).trans ht,
      (KeySchema.definedType?_eq_some hnames).mp ht⟩
  · exact hindexes.imp fun _ _ hindex =>
      ⟨hindex.kind_eq, hindex.name_eq, KeySchema.readFrom_of_ofElements hnames hindex.keys⟩
  · rw [Table.keysFor, ht]
  · exact (keysFor_some_eq_ok (hnodup t ht)).mpr ⟨index, ht ▸ hindex, rfl, rfl⟩
  · rw [← List.mem_map, ← hindexNames, List.mem_map]
    simp [keysFor_some_eq_ok (hnodup t ht), ht]

/-! ### Why declarations are refused -/

/-- A step that is refused for a conflict, if it is. -/
def Conflicts {α : Type} (x : Except SchemaFault α) : Prop :=
  ∀ e, x = .error e → (Fault.schemaFault e).code = .schemaConflict

namespace Conflicts

variable {α β : Type} {x : Except SchemaFault α}

lemma ok (a : α) : Conflicts (.ok a) := nofun

lemma error {e : SchemaFault} (he : (Fault.schemaFault e).code = .schemaConflict) :
    Conflicts (.error e : Except SchemaFault α) := by
  rintro _ ⟨⟩
  exact he

lemma bind {f : α → Except SchemaFault β} (hx : Conflicts x) (hf : ∀ a, Conflicts (f a)) :
    Conflicts (x >>= f) := by
  cases x with
  | error e => exact error (hx e rfl)
  | ok a => exact hf a

lemma assignRoles (owner : KeyOwner) (hash range : Option String) (elements : List KeyElement) :
    Conflicts (KeySchema.assignRoles owner hash range elements) := by
  fun_induction KeySchema.assignRoles owner hash range elements with
  | case1 => exact ok _
  | case2 => exact error rfl
  | case3 _ _ _ _ _ _ ih => exact ih
  | case4 => exact error rfl
  | case5 _ _ _ _ _ _ ih => exact ih

lemma typed (owner : KeyOwner) (definitions : List AttributeDefinition) (mustBeDefined : Bool)
    (name : String) : Conflicts (KeySchema.typed owner definitions mustBeDefined name) := by
  rw [KeySchema.typed]
  split
  · exact ok _
  · split
    · exact error rfl
    · exact ok _

lemma ofElements (owner : KeyOwner) (definitions : List AttributeDefinition) (mustBeDefined : Bool)
    (elements : List KeyElement) :
    Conflicts (KeySchema.ofElements owner definitions mustBeDefined elements) := by
  rw [KeySchema.ofElements]
  split
  · exact error (e := .elementCount owner elements.length) rfl
  refine bind (assignRoles owner none none elements) fun roles => ?_
  obtain ⟨_ | hash, range⟩ := roles
  · exact error (e := .noHash owner) rfl
  cases range with
  | none => exact bind (typed _ _ _ _) fun _ => ok _
  | some range =>
      dsimp only
      split
      · exact error (e := .sameAttribute owner hash) rfl
      · exact bind (typed _ _ _ _) fun _ => bind (typed _ _ _ _) fun _ => ok _

lemma checkLocal (owner : KeyOwner) (primary keys : KeySchema) :
    Conflicts (TableSchema.checkLocal owner primary keys) := by
  rw [TableSchema.checkLocal]
  split_ifs
  · exact error rfl
  · exact error rfl
  · exact ok _

lemma readIndex (definitions : List AttributeDefinition) (primary : KeySchema)
    (taken : List String) (kind : IndexKind) (d : IndexDeclaration) :
    Conflicts (TableSchema.readIndex definitions primary taken kind d) := by
  rw [TableSchema.readIndex]
  split
  · exact error (e := .emptyIndexName) rfl
  dsimp only
  split
  · exact error (e := .duplicateIndex d.name) rfl
  refine bind (ofElements _ _ _ _) fun keys => ?_
  split
  · exact bind (checkLocal _ _ _) fun _ => ok _
  · exact ok _

lemma readIndexes (definitions : List AttributeDefinition) (primary : KeySchema)
    (taken : List String) (declared : List (IndexKind × IndexDeclaration)) :
    Conflicts (TableSchema.readIndexes definitions primary taken declared) := by
  induction declared generalizing taken with
  | nil => exact ok _
  | cons i rest ih =>
      exact bind (readIndex definitions primary taken i.1 i.2) fun _ => bind (ih _) fun _ => ok _

end Conflicts

/-- What is wrong first with definitions, behind names that are taken, is a type: up to it the names
are distinct, and the types are those of keys. -/
def Mistyped (taken : List String) (definitions : List AttributeDefinition) : Prop :=
  ∃ before a after, definitions = before ++ a :: after ∧
    Fresh taken ((before ++ [a]).map AttributeDefinition.name) ∧
    (∀ b ∈ before, b.type.isKeyType = true) ∧ a.type.isKeyType = false

lemma mistyped_cons {a : AttributeDefinition} {rest : List AttributeDefinition} :
    Mistyped taken (a :: rest) ↔
      a.name ∉ taken ∧
        (a.type.isKeyType = true → Mistyped (a.name :: taken) rest) := by
  constructor
  · rintro ⟨before, b, after, heq, hfresh, hbefore, hb⟩
    cases before with
    | nil =>
        cases heq
        exact ⟨(fresh_cons.mp hfresh).1, fun ha => absurd (hb.symm.trans ha) Bool.false_ne_true⟩
    | cons c before =>
        cases heq
        obtain ⟨hname, hfresh⟩ := fresh_cons.mp hfresh
        exact ⟨hname, fun _ => ⟨before, b, after, rfl, hfresh,
          (List.forall_mem_cons.mp hbefore).2, hb⟩⟩
  · rintro ⟨hname, hrest⟩
    cases htype : a.type.isKeyType with
    | false =>
        exact ⟨[], a, rest, rfl, fresh_cons.mpr ⟨hname, fresh_nil _⟩, List.forall_mem_nil _, htype⟩
    | true =>
        obtain ⟨before, b, after, rfl, hfresh, hbefore, hb⟩ := hrest htype
        exact ⟨a :: before, b, after, rfl, fresh_cons.mpr ⟨hname, hfresh⟩,
          List.forall_mem_cons.mpr ⟨htype, hbefore⟩, hb⟩

/-- Definitions are refused for a type, or for a conflict of names. -/
lemma code_of_checkDefinitions {e : SchemaFault}
    (h : checkDefinitions taken definitions = .error e) :
    (Mistyped taken definitions → (Fault.schemaFault e).code = .validationError) ∧
      (¬ Mistyped taken definitions → (Fault.schemaFault e).code = .schemaConflict) := by
  induction definitions generalizing taken with
  | nil => cases h
  | cons a rest ih =>
      rw [checkDefinitions] at h
      rw [mistyped_cons]
      by_cases hname : a.name ∈ taken
      · simp only [List.contains_iff_mem, hname, if_true] at h
        cases h
        simp [hname, Fault.code]
      · cases htype : a.type.isKeyType with
        | false => 
          simp [hname, htype] at h
          cases h
          simp [hname, Fault.code]
        | true => simpa [hname, htype] using ih (by simpa [hname, htype] using h)

/-- **The declarations that are accepted are the well-formed ones.**  What is accepted is read as it
was declared.  What is refused is refused for a conflict, unless a definition has a type that no key
may have and nothing is wrong before it. -/
theorem ofDeclaration_wellFormed (d : TableDeclaration) :
    ((∃ s, ofDeclaration d = .ok s) ↔ d.WellFormed) ∧
      (∀ s, ofDeclaration d = .ok s → s.ReadFrom d) ∧
      ∀ e, ofDeclaration d = .error e →
        (Mistyped [] d.definitions → (Fault.schemaFault e).code = .validationError) ∧
          (¬ Mistyped [] d.definitions → (Fault.schemaFault e).code = .schemaConflict) := by
  refine ⟨exists_ofDeclaration_iff, fun _ => readFrom_of_ofDeclaration, fun e he => ?_⟩
  rw [ofDeclaration] at he
  cases hcheck : checkDefinitions [] d.definitions with
  | error e' =>
      rw [hcheck] at he
      cases he
      exact code_of_checkDefinitions hcheck
  | ok u =>
      have hconflict : (Fault.schemaFault e).code = .schemaConflict := by
        rw [hcheck] at he
        have hrest : Conflicts (do
            let primary ← KeySchema.ofElements .table d.definitions true d.keys
            let indexes ← readIndexes d.definitions primary [] (declaredIndexes d)
            return (⟨d, primary, indexes⟩ : TableSchema)) :=
          .bind (.ofElements _ _ _ _) fun primary => .bind (.readIndexes _ _ _ _) fun _ => .ok _
        exact hrest e he
      refine ⟨fun hmistyped => ?_, fun _ => hconflict⟩
      obtain ⟨before, a, after, hdefinitions, -, -, ha⟩ := hmistyped
      have htype := (checkDefinitions_eq_ok_iff.mp hcheck).2 a (hdefinitions ▸ by simp)
      exact absurd (ha.symm.trans htype) Bool.false_ne_true

end TableSchema

namespace Sample

/-- A range attribute before the hash attribute, an index on an attribute that is not defined, and a
local index. -/
def orders : TableDeclaration where
  name := "Orders"
  keys := [⟨"Sort", .range⟩, ⟨"Id", .hash⟩]
  definitions := [⟨"Id", .number⟩, ⟨"Sort", .text⟩]
  globalIndexes := [⟨"ByData", [⟨"Data", .hash⟩], ⟨none, []⟩⟩]
  localIndexes := [⟨"ByTime", [⟨"Id", .hash⟩, ⟨"Time", .range⟩], ⟨none, []⟩⟩]

/-- Wrong in a type, and after it in the name of an index. -/
def mistypedOrders : TableDeclaration :=
  { orders with
    definitions := [⟨"Id", .number⟩, ⟨"Sort", .other "B"⟩, ⟨"Id", .text⟩]
    localIndexes := orders.globalIndexes }

end Sample

theorem TableSchema.ofDeclaration_wellFormed_sample :
    (∃ s, ofDeclaration Sample.orders = .ok s ∧ s.ReadFrom Sample.orders) ∧
      ∃ e, ofDeclaration Sample.mistypedOrders = .error e ∧
        (Fault.schemaFault e).code = .validationError := by
  have haccepted : ofDeclaration Sample.orders
      = .ok ⟨Sample.orders, ⟨⟨"Id", some .number⟩, some ⟨"Sort", some .text⟩⟩,
          [⟨"ByData", .globalIndex, ⟨⟨"Data", none⟩, none⟩⟩,
            ⟨"ByTime", .localIndex, ⟨⟨"Id", some .number⟩, some ⟨"Time", none⟩⟩⟩]⟩ := by
    decide +kernel
  have hrefused : ofDeclaration Sample.mistypedOrders = .error (.invalidType "B" "Sort") := by
    decide +kernel
  have hmistyped : Mistyped [] Sample.mistypedOrders.definitions :=
    ⟨[⟨"Id", .number⟩], ⟨"Sort", .other "B"⟩, [⟨"Id", .text⟩], rfl, fresh_nil_left.mpr (by decide),
      by simp [ScalarType.isKeyType], rfl⟩
  exact ⟨⟨_, haccepted, (ofDeclaration_wellFormed Sample.orders).2.1 _ haccepted⟩, _, hrefused,
    ((ofDeclaration_wellFormed Sample.mistypedOrders).2.2 _ hrefused).1 hmistyped⟩

end ItemStore
