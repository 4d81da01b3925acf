import ItemStore.Condition
import ItemStore.NameList
import ItemStore.Schema.Declaration

/-!
# Requests

What a client may ask of the store: thirteen operations, each with its own input.  A request says
what the client wrote and nothing more.  Whether the table exists, whether the key fits it and which
default applies is decided when the request is answered.

Conditions, updates and the tables of a batch are listed under names in the order in which the
client mentioned them (`NameList`), because they take effect, or fail, in that order.
-/

namespace ItemStore

/-- The operations that requests name. -/
inductive Operation where
  | createTable
  | deleteTable
  | describeTable
  | listTables
  | putItem
  | getItem
  | updateItem
  | deleteItem
  | query
  | scan
  | batchGetItem
  | batchWriteItem
  | executeStatement
deriving DecidableEq, Repr

namespace Operation

def name : Operation → String
  | createTable => "CreateTable"
  | deleteTable => "DeleteTable"
  | describeTable => "DescribeTable"
  | listTables => "ListTables"
  | putItem => "PutItem"
  | getItem => "GetItem"
  | updateItem => "UpdateItem"
  | deleteItem => "DeleteItem"
  | query => "Query"
  | scan => "Scan"
  | batchGetItem => "BatchGetItem"
  | batchWriteItem => "BatchWriteItem"
  | executeStatement => "ExecuteStatement"

def all : List Operation :=
  [createTable, deleteTable, describeTable, listTables, putItem, getItem, updateItem, deleteItem,
    query, scan, batchGetItem, batchWriteItem, executeStatement]

/-- The operation of a name, in this spelling only. -/
def ofName? (text : String) : Option Operation :=
  all.find? fun op => op.name == text

theorem ofName?_name (op : Operation) : ofName? op.name = some op := by
  cases op <;> rfl

end Operation

/-! ## Words of requests -/

/-- What a write gives back of the item it changed. -/
inductive Returned where
  | nothing
  | allOld
  | updatedOld
  | allNew
  | updatedNew
deriving DecidableEq, Repr, Inhabited

def Returned.name : Returned → String
  | nothing => "NONE"
  | allOld => "ALL_OLD"
  | updatedOld => "UPDATED_OLD"
  | allNew => "ALL_NEW"
  | updatedNew => "UPDATED_NEW"

/-- What an update does with an attribute.  The store knows of `add` only to refuse it. -/
inductive UpdateAction where
  | put
  | delete
  | add
deriving DecidableEq, Repr, Inhabited

def UpdateAction.name : UpdateAction → String
  | put => "PUT"
  | delete => "DELETE"
  | add => "ADD"

/-- The update of one attribute, as the client wrote it. -/
structure AttributeUpdate where
  value : Option Value
  action : Option UpdateAction
deriving DecidableEq, Repr

/-! ## Inputs -/

/-- List the tables whose names come after a given one. -/
structure ListTables where
  after : Option String
  limit : Option Int
deriving DecidableEq, Repr

/-- Store an item. -/
structure PutItem where
  table : String
  item : Item
  returned : Option Returned
deriving DecidableEq

/-- Look up an item. -/
structure GetItem where
  table : String
  key : Item
  attributes : List String
deriving DecidableEq

/-- Change attributes of an item. -/
structure UpdateItem where
  table : String
  key : Item
  updates : NameList AttributeUpdate
  returned : Option Returned
deriving DecidableEq

/-- Remove an item. -/
structure DeleteItem where
  table : String
  key : Item
  returned : Option Returned
deriving DecidableEq

/-- List the items under a hash value, by the key of the table or of an index. -/
structure Query where
  table : String
  index : Option String
  keyConditions : NameList Condition
  filter : NameList Condition
  combinator : Option Combinator
  attributes : List String
deriving DecidableEq

/-- List the items that meet some conditions. -/
structure Scan where
  table : String
  filter : NameList Condition
  combinator : Option Combinator
  attributes : List String
deriving DecidableEq

/-- The keys to look up in one table of a batch. -/
structure KeyBatch where
  keys : List Item
  attributes : List String
deriving DecidableEq

/-- One write of a batch.  It must store an item or remove one, and not both. -/
structure BatchedWrite where
  put : Option Item
  delete : Option Item
deriving DecidableEq

/-- A request. -/
inductive Request where
  | createTable (declaration : TableDeclaration)
  | deleteTable (table : String)
  | describeTable (table : String)
  | listTables (input : ListTables)
  | putItem (input : PutItem)
  | getItem (input : GetItem)
  | updateItem (input : UpdateItem)
  | deleteItem (input : DeleteItem)
  | query (input : Query)
  | scan (input : Scan)
  | batchGetItem (batches : NameList KeyBatch)
  | batchWriteItem (batches : NameList (List BatchedWrite))
  | executeStatement (statement : String)
deriving DecidableEq

def Request.operation : Request → Operation
  | createTable _ => .createTable
  | deleteTable _ => .deleteTable
  | describeTable _ => .describeTable
  | listTables _ => .listTables
  | putItem _ => .putItem
  | getItem _ => .getItem
  | updateItem _ => .updateItem
  | deleteItem _ => .deleteItem
  | query _ => .query
  | scan _ => .scan
  | batchGetItem _ => .batchGetItem
  | batchWriteItem _ => .batchWriteItem
  | executeStatement _ => .executeStatement

end ItemStore
