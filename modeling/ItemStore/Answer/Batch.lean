import ItemStore.Answer.Items

/-!
# Answers to batches

A batch of reads is refused as a whole when one of them is.  A batch of writes is made one write
after the other and ends at the first that fails; the ones before it stay made.
-/

namespace ItemStore

open Answer

/-! ## Reading -/

/-- The items with the given keys, in the order of the keys.  Keys without an item are passed
over. -/
def Table.findAll (t : Table) (attributes : List String) : List Item → Except Fault (List Item)
  | [] => .ok []
  | key :: rest => do
    let found ← t.find key attributes
    let items ← t.findAll attributes rest
    return found.toList ++ items

def Catalog.findAll (c : Catalog) :
    List (String × KeyBatch) → Except Fault (List (String × List Item))
  | [] => .ok []
  | (name, batch) :: rest => do
    let t ← c.require name
    checkAttributes batch.attributes
    let items ← t.findAll batch.attributes batch.keys
    let others ← Catalog.findAll c rest
    return (name, items) :: others

/-! ## Writing -/

def Table.write (w : BatchedWrite) : Work Fault Table Unit :=
  match w.put, w.delete with
  | some item, none => do
    let _ ← Table.store item
  | none, some key => do
    let _ ← Table.remove key
  | _, _ => do
    refuse .unclearWrite

/-- Make writes in a table until one fails. -/
def Table.writeAll : List BatchedWrite → Work Fault Table Unit
  | [] => return ()
  | w :: rest => do
    Table.write w
    Table.writeAll rest

/-- Make the writes of all tables until one fails. -/
def Catalog.writeAll : List (String × List BatchedWrite) → Work Fault Catalog Unit
  | [] => return ()
  | (name, writes) :: rest => do
    Catalog.onTable name (Table.writeAll writes)
    Catalog.writeAll rest

namespace Answer

/-- Look up a batch of keys.  Every table that is named is in the answer. -/
def batchGetItem (batches : NameList KeyBatch) (c : Catalog) : Except Fault Response := do
  let found ← c.findAll batches.entries
  return .batch (NameMap.ofList found)

def batchWriteItem (batches : NameList (List BatchedWrite)) : Work Fault Catalog Response := do
  Catalog.writeAll batches.entries
  return .written

end Answer

end ItemStore
