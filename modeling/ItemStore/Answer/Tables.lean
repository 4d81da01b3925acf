import ItemStore.Answer.Checks
import ItemStore.Response

/-!
# Answers about tables

Creating, deleting, describing and listing tables.  Creating a table whose name is taken replaces
the old one with an empty one.
-/

namespace ItemStore.Answer

def createTable (settings : Settings) (stamp : Stamp) (d : TableDeclaration) :
    Work Fault Catalog Response := do
  checkTableName d.name
  let schema ← (TableSchema.ofDeclaration d).mapError Fault.schemaFault
  let t := Table.new settings stamp schema
  modify fun c => c.insert t.name t
  return .changedTable (t.describe .active)

def deleteTable (name : String) : Work Fault Catalog Response := do
  let t ← (← get).require name
  modify fun c => c.erase name
  return .changedTable (t.describe .deleting)

def describeTable (name : String) (c : Catalog) : Except Fault Response := do
  let t ← c.require name
  return .table (t.describe .active)

/-- How many names a page may hold, which is also how many it holds at most by default. -/
def maxPage : Nat := 100

def pageSize : Option Int → Except Fault Nat
  | none => .ok maxPage
  | some limit =>
    if 1 ≤ limit ∧ limit ≤ maxPage then .ok limit.toNat else refuse (.pageLimit limit)

def namesAfter (names : List String) : Option String → List String
  | none => names
  | some start => names.dropWhile fun name => !decide (start < name)

def listTables (r : ListTables) (c : Catalog) : Except Fault Response := do
  let size ← pageSize r.limit
  let names := namesAfter c.names r.after
  let page := names.take size
  return .tableNames page (if size < names.length then page.getLast? else none)

end ItemStore.Answer
