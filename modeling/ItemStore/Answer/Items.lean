import ItemStore.Answer.Checks
import ItemStore.Response

/-!
# Answers about single items

Storing, looking up, changing and removing one item.  `Table.store`, `Table.find`, `Table.amend` and
`Table.remove` do it in a table; the batch operations use them too.

The writes are work on rows, on a table (`Table.onRows`) and on a catalog (`Catalog.onTable`).  What
they leave in their part is put back into the whole, be it after a fault.
-/

namespace ItemStore

open Answer

namespace Table

/-- Work on the rows of a table. -/
def onRows {α : Type} (x : Work KeyFault Rows α) : Work Fault Table α := do
  let t ← get
  let (result, rows) := x.on t.rows
  set { t with rows }
  liftKey result

/-- Store an item.  Returns the one that it replaces. -/
def store (item : Item) : Work Fault Table (Option Item) := do
  checkNumerals item.values
  onRows (Rows.put item)

/-- Find the item with a key and keep some of its attributes. -/
def find (t : Table) (key : Item) (attributes : List String) : Except Fault (Option Item) := do
  checkKey t.rows.keys key
  let primary ← liftKey (t.rows.primaryKey key)
  return (t.rows.get? primary).map fun item => item.project attributes

/-- Remove the item with a key.  Returns it, if there was one. -/
def remove (key : Item) : Work Fault Table (Option Item) := do
  let t ← get
  checkKey t.rows.keys key
  let primary ← liftKey (t.rows.primaryKey key)
  let (old, rows) := t.rows.delete primary
  set { t with rows }
  return old

end Table

/-! ## Changes -/

/-- The change that an update asks for.  Key attributes cannot be changed.  An update without an
action puts its value. -/
def AttributeUpdate.change (keys : KeySchema) (name : String) (u : AttributeUpdate) :
    Except Fault Change :=
  if keys.hasName name then refuse (.keyUpdate name)
  else
    match u.action.getD .put, u.value with
    | .put, some v => do
      checkNumerals [v]
      return .set v
    | .put, none => refuse (.putWithoutValue name)
    | .delete, none => .ok .remove
    | .delete, some _ => refuse (.deleteWithValue name)
    | .add, _ => .error (.unsupportedOperator UpdateAction.add.name)

def changesOf (keys : KeySchema) :
    List (String × AttributeUpdate) → Except Fault (List (String × Change))
  | [] => .ok []
  | (name, u) :: rest => do
    let change ← u.change keys name
    let changes ← changesOf keys rest
    return (name, change) :: changes

/-- What an update gives back of the item before and after it.  An item without attributes is not
given back. -/
def givenBack (returned : Returned) (names : List String) (old : Option Item) (new : Item) :
    Option Item :=
  let given : Option Item :=
    match returned with
    | .nothing => none
    | .allOld => old
    | .allNew => some new
    | .updatedOld => old.map fun item => item.restrict names.contains
    | .updatedNew => some (new.restrict names.contains)
  given.filter fun item => !item.isEmpty

/-- Change the item with a key, or make one from the key.  All updates are checked before any is
made.  Returns the item before and after. -/
def Table.amend (key : Item) (updates : NameList AttributeUpdate) :
    Work Fault Table (Option Item × Item) := do
  let t ← get
  checkKey t.rows.keys key
  let changes ← changesOf t.rows.keys updates.entries
  onRows (Rows.update key changes)

/-- Work on the table of a name. -/
def Catalog.onTable {α : Type} (name : String) (x : Work Fault Table α) :
    Work Fault Catalog α := do
  let t ← (← get).require name
  let (result, t) := x.on t
  modify fun c => c.insert name t
  result

namespace Answer

def oldAttributes (returned : Option Returned) (old : Option Item) : Response :=
  .attributes (if returned = some .allOld then old else none)

def putItem (r : PutItem) : Work Fault Catalog Response :=
  Catalog.onTable r.table do
    checkReturned r.returned
    let old ← Table.store r.item
    return oldAttributes r.returned old

def getItem (r : GetItem) (c : Catalog) : Except Fault Response := do
  let t ← c.require r.table
  checkAttributes r.attributes
  let found ← t.find r.key r.attributes
  return .item found

/-- Remove an item.  It need not be there. -/
def deleteItem (r : DeleteItem) : Work Fault Catalog Response :=
  Catalog.onTable r.table do
    checkReturned r.returned
    let old ← Table.remove r.key
    return oldAttributes r.returned old

def updateItem (r : UpdateItem) : Work Fault Catalog Response :=
  Catalog.onTable r.table do
    let (old, new) ← Table.amend r.key r.updates
    return .attributes (givenBack (r.returned.getD .nothing) r.updates.names old new)

end Answer

end ItemStore
