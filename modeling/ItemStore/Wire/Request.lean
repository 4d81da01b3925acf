import ItemStore.Blank
import ItemStore.Request
import ItemStore.Wire.Declaration
import ItemStore.Wire.Value

/-!
# Requests in JSON

A request is an object with the input of its operation; the name of the operation comes with it and
is not part of the object.

* `decodeRequest` reads the body of an operation.  A blank body stands for an empty object.
* `encodeRequest` writes the input of a request.  Fields that are absent or empty are left out,
  apart from `AttributeDefinitions`, `Projection` and `KeyConditions`, which are always written.
-/

namespace ItemStore.Wire

/-! ## Words -/

def returned : Decoder Returned :=
  variant (named Returned.name [.nothing, .allOld, .updatedOld, .allNew, .updatedNew])

def updateAction : Decoder UpdateAction :=
  variant (named UpdateAction.name [.put, .delete, .add])

def combinator : Decoder Combinator :=
  variant (named Combinator.name [.all, .any])

/-- The operator of a condition.  Any name will do here. -/
def operator : Decoder Operator := fun room j =>
  (string room j).map Operator.ofName

/-! ## Parts of requests -/

def condition : Decoder Condition :=
  Record.decode <| Condition.mk
    <$> .required "ComparisonOperator" operator
    <*> .defaulted "AttributeValueList" (listOf value) []

def attributeUpdate : Decoder AttributeUpdate :=
  Record.decode <| AttributeUpdate.mk
    <$> .optional "Value" value
    <*> .optional "Action" updateAction

def keyBatch : Decoder KeyBatch :=
  Record.decode <| KeyBatch.mk
    <$> .required "Keys" (listOf item)
    <*> .defaulted "AttributesToGet" (listOf string) []

def batchedWrite : Decoder BatchedWrite :=
  Record.decode <| BatchedWrite.mk
    <$> .optional "PutRequest" (Record.decode (.required "Item" item))
    <*> .optional "DeleteRequest" (Record.decode (.required "Key" item))

/-! ## Inputs -/

/-- The input of an operation on a table as a whole. -/
def tableName : Decoder String :=
  Record.decode (.required "TableName" string)

def listTables : Decoder ListTables :=
  Record.decode <| ListTables.mk
    <$> .optional "ExclusiveStartTableName" string
    <*> .optional "Limit" int32

def putItem : Decoder PutItem :=
  Record.decode <| PutItem.mk
    <$> .required "TableName" string
    <*> .required "Item" item
    <*> .optional "ReturnValues" returned

def getItem : Decoder GetItem :=
  Record.decode <| GetItem.mk
    <$> .required "TableName" string
    <*> .required "Key" item
    <*> .defaulted "AttributesToGet" (listOf string) []

def updateItem : Decoder UpdateItem :=
  Record.decode <| UpdateItem.mk
    <$> .required "TableName" string
    <*> .required "Key" item
    <*> .defaulted "AttributeUpdates" (nameListOf attributeUpdate) .empty
    <*> .optional "ReturnValues" returned

def deleteItem : Decoder DeleteItem :=
  Record.decode <| DeleteItem.mk
    <$> .required "TableName" string
    <*> .required "Key" item
    <*> .optional "ReturnValues" returned

def query : Decoder Query :=
  Record.decode <| Query.mk
    <$> .required "TableName" string
    <*> .optional "IndexName" string
    <*> .defaulted "KeyConditions" (nameListOf condition) .empty
    <*> .defaulted "QueryFilter" (nameListOf condition) .empty
    <*> .optional "ConditionalOperator" combinator
    <*> .defaulted "AttributesToGet" (listOf string) []

def scan : Decoder Scan :=
  Record.decode <| Scan.mk
    <$> .required "TableName" string
    <*> .defaulted "ScanFilter" (nameListOf condition) .empty
    <*> .optional "ConditionalOperator" combinator
    <*> .defaulted "AttributesToGet" (listOf string) []

def batchGetItem : Decoder (NameList KeyBatch) :=
  Record.decode (.required "RequestItems" (nameListOf keyBatch))

def batchWriteItem : Decoder (NameList (List BatchedWrite)) :=
  Record.decode (.required "RequestItems" (nameListOf (listOf batchedWrite)))

def statement : Decoder String :=
  Record.decode (.required "Statement" string)

/-! ## Requests -/

def request (op : Operation) : Decoder Request := fun room j =>
  match op with
  | .createTable => (tableDeclaration room j).map .createTable
  | .deleteTable => (tableName room j).map .deleteTable
  | .describeTable => (tableName room j).map .describeTable
  | .listTables => (listTables room j).map .listTables
  | .putItem => (putItem room j).map .putItem
  | .getItem => (getItem room j).map .getItem
  | .updateItem => (updateItem room j).map .updateItem
  | .deleteItem => (deleteItem room j).map .deleteItem
  | .query => (query room j).map .query
  | .scan => (scan room j).map .scan
  | .batchGetItem => (batchGetItem room j).map .batchGetItem
  | .batchWriteItem => (batchWriteItem room j).map .batchWriteItem
  | .executeStatement => (statement room j).map .executeStatement

def isBlankBody (body : String) : Bool :=
  body.toList.all isBlank

def decodeRequest (op : Operation) (body : String) : Except DecodeFault Request :=
  decodeText (request op) (if isBlankBody body then "\x7b\x7d" else body)

/-! ## Writing -/

def encodeNameList {α : Type} (encode : α → Json) (l : NameList α) : Json :=
  .record (l.entries.map fun e => (e.1, encode e.2))

/-- A member that is written only when something is listed. -/
def nonemptyNames {α : Type} (name : String) (encode : α → Json) (l : NameList α) :
    List (String × Json) :=
  if l.isEmpty then [] else [(name, encodeNameList encode l)]

def encodeCondition (c : Condition) : Json :=
  .record <|
    ("ComparisonOperator", .text c.operator.name) ::
    Json.nonempty "AttributeValueList" (Json.arrayOf encodeValue) c.operands

def encodeAttributeUpdate (u : AttributeUpdate) : Json :=
  .record <|
    Json.optional "Value" encodeValue u.value ++
    Json.optional "Action" (fun a => .text a.name) u.action

def encodeKeyBatch (b : KeyBatch) : Json :=
  .record <|
    ("Keys", Json.arrayOf encodeItem b.keys) ::
    Json.nonempty "AttributesToGet" (Json.arrayOf Json.text) b.attributes

def encodeBatchedWrite (w : BatchedWrite) : Json :=
  .record <|
    Json.optional "PutRequest" (fun item => .record [("Item", encodeItem item)]) w.put ++
    Json.optional "DeleteRequest" (fun key => .record [("Key", encodeItem key)]) w.delete

def encodeReturned (r : Option Returned) : List (String × Json) :=
  Json.optional "ReturnValues" (fun r => .text r.name) r

def encodeCombinator (c : Option Combinator) : List (String × Json) :=
  Json.optional "ConditionalOperator" (fun c => .text c.name) c

def encodeAttributes (attributes : List String) : List (String × Json) :=
  Json.nonempty "AttributesToGet" (Json.arrayOf Json.text) attributes

def encodeRequest : Request → Json
  | .createTable d => encodeTableDeclaration d
  | .deleteTable t | .describeTable t => .record [("TableName", .text t)]
  | .listTables r =>
    .record <|
      Json.optional "ExclusiveStartTableName" Json.text r.after ++
      Json.optional "Limit" Json.int r.limit
  | .putItem r =>
    .record <|
      [("TableName", .text r.table), ("Item", encodeItem r.item)] ++ encodeReturned r.returned
  | .getItem r =>
    .record <|
      [("TableName", .text r.table), ("Key", encodeItem r.key)] ++ encodeAttributes r.attributes
  | .updateItem r =>
    .record <|
      [("TableName", .text r.table), ("Key", encodeItem r.key)] ++
      nonemptyNames "AttributeUpdates" encodeAttributeUpdate r.updates ++
      encodeReturned r.returned
  | .deleteItem r =>
    .record <|
      [("TableName", .text r.table), ("Key", encodeItem r.key)] ++ encodeReturned r.returned
  | .query r =>
    .record <|
      [("TableName", .text r.table)] ++
      Json.optional "IndexName" Json.text r.index ++
      [("KeyConditions", encodeNameList encodeCondition r.keyConditions)] ++
      nonemptyNames "QueryFilter" encodeCondition r.filter ++
      encodeCombinator r.combinator ++
      encodeAttributes r.attributes
  | .scan r =>
    .record <|
      [("TableName", .text r.table)] ++
      nonemptyNames "ScanFilter" encodeCondition r.filter ++
      encodeCombinator r.combinator ++
      encodeAttributes r.attributes
  | .batchGetItem b => .record [("RequestItems", encodeNameList encodeKeyBatch b)]
  | .batchWriteItem b =>
    .record [("RequestItems", encodeNameList (Json.arrayOf encodeBatchedWrite) b)]
  | .executeStatement s => .record [("Statement", .text s)]

end ItemStore.Wire
