import ItemStore.Schema.Declaration

/-!
# Schemas

The keys of a table and of its indexes, once a declaration has been found to make sense.

A key has one hash attribute and at most one range attribute, and the two differ.  The attributes of
the primary key have declared types.  Those of an index need not, and an attribute without a type
takes values of any.  A local index shares the hash attribute of its table and has a range
attribute.

* `KeySchema.ofElements` reads one declared key.
* `TableSchema.ofDeclaration` reads a whole declaration; the first thing wrong with it decides the
  fault, definitions before keys, the primary key before the indexes, and these in declared order.
* `TableSchema.indexKeys?` looks up the key of an index.
-/

namespace ItemStore

/-! ## Faults -/

/-- Whose key a fault is about. -/
inductive KeyOwner where
  | table
  | index (name : String)
deriving DecidableEq, Repr

def KeyOwner.text : KeyOwner → String
  | table => "Table"
  | index name => s!"Index {name}"

/-- Why a declaration makes no sense. -/
inductive SchemaFault where
  | duplicateDefinition (name : String)
  | invalidType (type name : String)
  | elementCount (owner : KeyOwner) (count : Nat)
  | repeatedRole (owner : KeyOwner) (role : KeyRole)
  | noHash (owner : KeyOwner)
  | sameAttribute (owner : KeyOwner) (name : String)
  | undefinedAttribute (owner : KeyOwner) (name : String)
  | emptyIndexName
  | duplicateIndex (name : String)
  | foreignHash (owner : KeyOwner) (hash : String)
  | localWithoutRange (owner : KeyOwner)
deriving DecidableEq, Repr

def SchemaFault.message : SchemaFault → String
  | duplicateDefinition name => s!"Duplicate attribute definition: {name}"
  | invalidType type name =>
    s!"Invalid attribute type {type} for attribute {name}; expected S or N"
  | elementCount owner count =>
    s!"{owner.text}: key schema must have one or two elements, found {count}"
  | repeatedRole owner role =>
    s!"{owner.text}: key schema has more than one {role.name} element"
  | noHash owner => s!"{owner.text}: key schema has no HASH element"
  | sameAttribute owner name =>
    s!"{owner.text}: HASH and RANGE both name attribute {name}"
  | undefinedAttribute owner name =>
    s!"{owner.text}: key attribute {name} has no attribute definition"
  | emptyIndexName => "Index name must not be empty"
  | duplicateIndex name => s!"Duplicate index name: {name}"
  | foreignHash owner hash =>
    s!"{owner.text}: local index must use the table's HASH attribute {hash}"
  | localWithoutRange owner => s!"{owner.text}: local index requires a RANGE element"

/-! ## Keys -/

/-- A key attribute with its declared type, if it has one. -/
structure KeyAttribute where
  name : String
  type : Option ScalarType
deriving DecidableEq, Repr

/-- The key of a table or an index. -/
structure KeySchema where
  hash : KeyAttribute
  range : Option KeyAttribute
deriving DecidableEq, Repr

namespace KeySchema

/-- The key attributes, hash first. -/
def attributes (k : KeySchema) : List KeyAttribute :=
  k.hash :: k.range.toList

/-- The names of the key attributes, hash first. -/
def names (k : KeySchema) : List String :=
  k.attributes.map KeyAttribute.name

def hasName (k : KeySchema) (name : String) : Bool :=
  k.names.contains name

/-- Give each role its attribute, in the order in which the elements come. -/
def assignRoles (owner : KeyOwner) (hash range : Option String) :
    List KeyElement → Except SchemaFault (Option String × Option String)
  | [] => .ok (hash, range)
  | e :: rest =>
    match e.role with
    | .hash =>
      if hash.isSome then .error (.repeatedRole owner .hash)
      else assignRoles owner (some e.name) range rest
    | .range =>
      if range.isSome then .error (.repeatedRole owner .range)
      else assignRoles owner hash (some e.name) rest

def typed (owner : KeyOwner) (definitions : List AttributeDefinition) (mustBeDefined : Bool)
    (name : String) : Except SchemaFault KeyAttribute :=
  match definitions.find? fun d => d.name == name with
  | some d => .ok ⟨name, some d.type⟩
  | none => if mustBeDefined then .error (.undefinedAttribute owner name) else .ok ⟨name, none⟩

def ofElements (owner : KeyOwner) (definitions : List AttributeDefinition) (mustBeDefined : Bool)
    (elements : List KeyElement) : Except SchemaFault KeySchema := do
  if elements.isEmpty || 2 < elements.length then
    throw (.elementCount owner elements.length)
  let (hash, range) ← assignRoles owner none none elements
  match hash, range with
  | none, _ => throw (.noHash owner)
  | some hash, none =>
    let hash ← typed owner definitions mustBeDefined hash
    return ⟨hash, none⟩
  | some hash, some range =>
    if range = hash then throw (.sameAttribute owner hash)
    let hash ← typed owner definitions mustBeDefined hash
    let range ← typed owner definitions mustBeDefined range
    return ⟨hash, some range⟩

end KeySchema

/-! ## Tables -/

/-- A global index has any key; a local one shares the hash attribute of its table. -/
inductive IndexKind where
  | globalIndex
  | localIndex
deriving DecidableEq, Repr

def IndexKind.name : IndexKind → String
  | .globalIndex => "Global"
  | .localIndex => "Local"

/-- A secondary index. -/
structure Index where
  name : String
  kind : IndexKind
  keys : KeySchema
deriving DecidableEq, Repr

/-- A table's keys and indexes, together with the declaration they were read from. -/
structure TableSchema where
  declaration : TableDeclaration
  primary : KeySchema
  indexes : List Index
deriving DecidableEq, Repr

namespace TableSchema

def name (s : TableSchema) : String :=
  s.declaration.name

/-- Attributes are defined once each, with types that keys may have. -/
def checkDefinitions (seen : List String) : List AttributeDefinition → Except SchemaFault Unit
  | [] => .ok ()
  | d :: rest =>
    if seen.contains d.name then .error (.duplicateDefinition d.name)
    else if !d.type.isKeyType then .error (.invalidType d.type.name d.name)
    else checkDefinitions (d.name :: seen) rest

/-- What a local index owes to its table. -/
def checkLocal (owner : KeyOwner) (primary keys : KeySchema) : Except SchemaFault Unit :=
  if keys.hash.name ≠ primary.hash.name then .error (.foreignHash owner primary.hash.name)
  else if keys.range.isNone then .error (.localWithoutRange owner)
  else .ok ()

def readIndex (definitions : List AttributeDefinition) (primary : KeySchema) (seen : List String)
    (kind : IndexKind) (d : IndexDeclaration) : Except SchemaFault Index := do
  if d.name.isEmpty then throw .emptyIndexName
  if seen.contains d.name then throw (.duplicateIndex d.name)
  let keys ← KeySchema.ofElements (.index d.name) definitions false d.keys
  if kind = .localIndex then checkLocal (.index d.name) primary keys
  return ⟨d.name, kind, keys⟩

/-- Read declared indexes in order; `seen` are the names that are taken. -/
def readIndexes (definitions : List AttributeDefinition) (primary : KeySchema)
    (seen : List String) : List (IndexKind × IndexDeclaration) → Except SchemaFault (List Index)
  | [] => .ok []
  | (kind, d) :: rest => do
    let index ← readIndex definitions primary seen kind d
    let indexes ← readIndexes definitions primary (d.name :: seen) rest
    return index :: indexes

/-- The declared indexes with their kinds, the global ones first. -/
def declaredIndexes (d : TableDeclaration) : List (IndexKind × IndexDeclaration) :=
  d.globalIndexes.map (IndexKind.globalIndex, ·) ++ d.localIndexes.map (IndexKind.localIndex, ·)

def ofDeclaration (d : TableDeclaration) : Except SchemaFault TableSchema := do
  checkDefinitions [] d.definitions
  let primary ← KeySchema.ofElements .table d.definitions true d.keys
  let indexes ← readIndexes d.definitions primary [] (declaredIndexes d)
  return ⟨d, primary, indexes⟩

def indexKeys? (s : TableSchema) (name : String) : Option KeySchema :=
  (s.indexes.find? fun index => index.name == name).map Index.keys

end TableSchema

end ItemStore
