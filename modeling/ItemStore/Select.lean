import ItemStore.Condition

/-!
# Select statements

`SELECT` lists the items of a table that meet some conditions, whole or cut down to named
attributes.  The conditions of one statement are joined all alike: one `OR` among them makes the
whole clause a disjunction.
-/

namespace ItemStore

/-- The attributes that a statement asks for. -/
inductive Selection where
  | all
  | listed (names : List String)
deriving DecidableEq, Repr

/-- The attributes to keep, where none listed means all. -/
def Selection.names : Selection → List String
  | all => []
  | listed names => names

/-- A statement.  The index is read and has no effect: items always come from the table. -/
structure Select where
  table : String
  index : Option String
  selection : Selection
  combinator : Combinator
  conditions : List (String × Condition)
deriving DecidableEq, Repr

end ItemStore
