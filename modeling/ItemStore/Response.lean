import ItemStore.Table

/-!
# Responses

What the store answers to a request that it accepts.  Operations whose answers have one shape share
a constructor.
-/

namespace ItemStore

/-- The answer to a request. -/
inductive Response where
  /-- The table that was created or deleted. -/
  | changedTable (table : TableDescription)
  /-- The table that was asked about. -/
  | table (table : TableDescription)
  /-- A page of table names, and the last of them if there are more. -/
  | tableNames (names : List String) (last : Option String)
  /-- What a write gives back. -/
  | attributes (attributes : Option Item)
  /-- The item that was looked up, if there is one. -/
  | item (item : Option Item)
  /-- The items that were found, and how many were looked at. -/
  | found (items : List Item) (scanned : Nat)
  /-- The items that a batch of keys found, by table. -/
  | batch (items : NameMap (List Item))
  /-- All writes of a batch were made. -/
  | written
  /-- The items that a statement selects. -/
  | selected (items : List Item)
deriving DecidableEq

end ItemStore
