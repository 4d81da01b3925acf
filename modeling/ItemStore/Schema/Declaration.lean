import ItemStore.Value

/-!
# Table declarations

What a client declares of a new table: its name, which attributes are keys, what types they have,
and its secondary indexes.  A declaration is taken as it comes; `ItemStore.Schema` says which ones
make sense.
-/

namespace ItemStore

/-- The part that an attribute plays in a key. -/
inductive KeyRole where
  | hash
  | range
deriving DecidableEq, Repr

def KeyRole.name : KeyRole → String
  | hash => "HASH"
  | range => "RANGE"

/-- The type that a key attribute is declared with.  `other` keeps a name that is no key type. -/
inductive ScalarType where
  | text
  | number
  | other (name : String)
deriving DecidableEq, Repr

namespace ScalarType

def name : ScalarType → String
  | text => "S"
  | number => "N"
  | other name => name

def ofName (name : String) : ScalarType :=
  if name = "S" then text else if name = "N" then number else other name

theorem name_ofName (text : String) : (ofName text).name = text := by
  unfold ofName
  split
  · rename_i h
    exact h.symm
  · split
    · rename_i h
      exact h.symm
    · rfl

def isKeyType : ScalarType → Bool
  | text | number => true
  | other _ => false

def fits : ScalarType → Value → Bool
  | text, .text _ => true
  | number, .number _ => true
  | _, _ => false

end ScalarType

/-- One attribute of a declared key. -/
structure KeyElement where
  name : String
  role : KeyRole
deriving DecidableEq, Repr

/-- The declared type of one attribute. -/
structure AttributeDefinition where
  name : String
  type : ScalarType
deriving DecidableEq, Repr

/-- Which attributes an index is declared to carry. -/
inductive Coverage where
  | all
  | keysOnly
  | listed
deriving DecidableEq, Repr

def Coverage.name : Coverage → String
  | all => "ALL"
  | keysOnly => "KEYS_ONLY"
  | listed => "INCLUDE"

/-- The declared content of an index.  It is given back in descriptions and has no other effect. -/
structure IndexProjection where
  coverage : Option Coverage
  attributes : List String
deriving DecidableEq, Repr

/-- A declared secondary index. -/
structure IndexDeclaration where
  name : String
  keys : List KeyElement
  projection : IndexProjection
deriving DecidableEq, Repr

/-- A declared table. -/
structure TableDeclaration where
  name : String
  keys : List KeyElement
  definitions : List AttributeDefinition
  globalIndexes : List IndexDeclaration
  localIndexes : List IndexDeclaration
deriving DecidableEq, Repr

end ItemStore
