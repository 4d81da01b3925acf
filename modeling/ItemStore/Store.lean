import ItemStore.Answer.Batch
import ItemStore.Answer.Search
import ItemStore.Answer.Tables

/-!
# The store

A store answers requests one at a time.  Requests that only read cannot change it.  The others are
work on its tables, and what they have changed by the time they fail stays changed.

* `Store.answer` is one step.
* `Store.run` is a run of steps, each with the stamp that a table gets if the step creates one.
-/

namespace ItemStore

/-- A store: its tables, and what they have in common. -/
structure Store where
  settings : Settings
  catalog : Catalog
deriving DecidableEq

namespace Store

def new (settings : Settings) : Store :=
  ⟨settings, .empty⟩

def reset (s : Store) : Store :=
  { s with catalog := .empty }

def reading (s : Store) (answer : Catalog → Except Fault Response) :
    Except Fault Response × Store :=
  (answer s.catalog, s)

/-- Answer by work on the catalog, which stays as that leaves it. -/
def writing (s : Store) (answer : Work Fault Catalog Response) : Except Fault Response × Store :=
  let (result, catalog) := answer.on s.catalog
  (result, { s with catalog })

/-- Answer a request.  The stamp is for the table that it may create. -/
def answer (s : Store) (stamp : Stamp) : Request → Except Fault Response × Store
  | .createTable d => s.writing (Answer.createTable s.settings stamp d)
  | .deleteTable t => s.writing (Answer.deleteTable t)
  | .describeTable t => s.reading (Answer.describeTable t)
  | .listTables r => s.reading (Answer.listTables r)
  | .putItem r => s.writing (Answer.putItem r)
  | .getItem r => s.reading (Answer.getItem r)
  | .updateItem r => s.writing (Answer.updateItem r)
  | .deleteItem r => s.writing (Answer.deleteItem r)
  | .query q => s.reading (Answer.query q)
  | .scan r => s.reading (Answer.scan r)
  | .batchGetItem b => s.reading (Answer.batchGetItem b)
  | .batchWriteItem b => s.writing (Answer.batchWriteItem b)
  | .executeStatement text => s.reading (Answer.executeStatement text)

def run (s : Store) : List (Stamp × Request) → List (Except Fault Response) × Store
  | [] => ([], s)
  | (stamp, request) :: rest =>
    let (result, s) := s.answer stamp request
    let (results, s) := s.run rest
    (result :: results, s)

end Store

end ItemStore
