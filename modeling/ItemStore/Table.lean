import ItemStore.Fault

/-!
# Tables

A table is a schema with rows.  It also has an address, which follows from its name and region, and
a stamp: an identity and a time, which are given from outside when the table is created.

The *catalog* holds the tables of a store under their names.
-/

namespace ItemStore

/-- What sets a table apart from an earlier one of its name. -/
structure Stamp where
  id : String
  /-- Seconds since 1970. -/
  createdAt : Int
deriving DecidableEq, Repr

/-- The region of tables that are given none. -/
def defaultRegion : String := "us-east-1"

/-- What the tables of a store have in common. -/
structure Settings where
  region : String := defaultRegion
  enforceTypes : Bool := true
deriving DecidableEq, Repr

def isYes (word : String) : Bool :=
  ["1", "true", "yes", "TRUE", "YES"].contains word

/-- What the environment says of the tables of a store. -/
def Settings.ofEnvironment (region enforceTypes : Option String) : Settings where
  region := region.getD defaultRegion
  enforceTypes := (enforceTypes.map isYes).getD true

/-- A table. -/
structure Table where
  schema : TableSchema
  region : String
  stamp : Stamp
  rows : Rows
deriving DecidableEq

/-- Whether a table is there to stay. -/
inductive TableStatus where
  | active
  | deleting
deriving DecidableEq, Repr

def TableStatus.name : TableStatus → String
  | active => "ACTIVE"
  | deleting => "DELETING"

/-- What clients are told of a table. -/
structure TableDescription where
  declaration : TableDeclaration
  status : TableStatus
  stamp : Stamp
  address : String
  itemCount : Nat
  byteSize : Nat
deriving DecidableEq, Repr

namespace Table

def new (settings : Settings) (stamp : Stamp) (schema : TableSchema) : Table :=
  ⟨schema, settings.region, stamp, .empty schema.primary settings.enforceTypes⟩

def name (t : Table) : String :=
  t.schema.name

def address (t : Table) : String :=
  s!"arn:aws:dynamodb:{t.region}:000000000000:table/{t.name}"

def describe (t : Table) (status : TableStatus) : TableDescription where
  declaration := t.schema.declaration
  status := status
  stamp := t.stamp
  address := t.address
  itemCount := t.rows.count
  byteSize := t.rows.byteSize

/-- The key that a query goes by: the one of the table, or of an index. -/
def keysFor (t : Table) : Option String → Except Fault KeySchema
  | none => .ok t.schema.primary
  | some index =>
    match t.schema.indexKeys? index with
    | some keys => .ok keys
    | none => .error (.requestFault (.unknownIndex index))

end Table

def TableDescription.indexAddress (d : TableDescription) (index : String) : String :=
  s!"{d.address}/index/{index}"

/-! ## Catalogs -/

abbrev Catalog := NameMap Table

/-- The table of a name.  None is ever made on demand. -/
def Catalog.require (c : Catalog) (name : String) : Except Fault Table :=
  match c.get? name with
  | some t => .ok t
  | none => .error (.tableNotFound name)

end ItemStore
