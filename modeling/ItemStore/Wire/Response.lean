import ItemStore.Response
import ItemStore.Wire.Declaration
import ItemStore.Wire.Value

/-!
# Responses in JSON

Answers and reports of faults as clients get them.  A response is written when the tables have
changed already, and what could not be written would be reported as a fault of its own.
-/

namespace ItemStore.Wire

/-- A global index of a table.  Indexes are ready as soon as their table is. -/
def encodeGlobalIndex (t : TableDescription) (d : IndexDeclaration) : Json :=
  .record <|
    [("IndexName", .text d.name)] ++
    Json.nonempty "KeySchema" (Json.arrayOf encodeKeyElement) d.keys ++
    [ ("Projection", encodeIndexProjection d.projection),
      ("IndexStatus", .text TableStatus.active.name),
      ("IndexArn", .text (t.indexAddress d.name))]

def encodeLocalIndex (t : TableDescription) (d : IndexDeclaration) : Json :=
  .record <|
    [("IndexName", .text d.name)] ++
    Json.nonempty "KeySchema" (Json.arrayOf encodeKeyElement) d.keys ++
    [ ("Projection", encodeIndexProjection d.projection),
      ("IndexArn", .text (t.indexAddress d.name))]

/-- A time, in whole seconds with a point. -/
def encodeTime (seconds : Int) : Json :=
  .number (seconds.repr ++ ".0")

/-- A number as given in answers, which have room for numbers up to a limit.  The limit stands for
what is beyond it. -/
def capped (limit n : Nat) : Nat :=
  if n ≤ limit then n else limit

/-- The limit of counts, which is the one of 32 bits with a sign. -/
def maxCount : Nat := 2147483647

/-- The limit of totals, which is the one of 64 bits with a sign. -/
def maxTotal : Nat := 9223372036854775807

/-- How many items there are in an answer, or were looked at for it. -/
def encodeCount (n : Nat) : Json :=
  .nat (capped maxCount n)

/-- How many items or bytes there are in a table. -/
def encodeTotal (n : Nat) : Json :=
  .nat (capped maxTotal n)

def encodeTable (t : TableDescription) : Json :=
  .record <|
    [("TableName", .text t.declaration.name), ("TableStatus", .text t.status.name)] ++
    Json.nonempty "KeySchema" (Json.arrayOf encodeKeyElement) t.declaration.keys ++
    Json.nonempty "AttributeDefinitions" (Json.arrayOf encodeAttributeDefinition)
      t.declaration.definitions ++
    [ ("CreationDateTime", encodeTime t.stamp.createdAt),
      ("ItemCount", encodeTotal t.itemCount),
      ("TableSizeBytes", encodeTotal t.byteSize),
      ("TableArn", .text t.address),
      ("TableId", .text t.stamp.id)] ++
    Json.nonempty "GlobalSecondaryIndexes" (Json.arrayOf (encodeGlobalIndex t))
      t.declaration.globalIndexes ++
    Json.nonempty "LocalSecondaryIndexes" (Json.arrayOf (encodeLocalIndex t))
      t.declaration.localIndexes

def encodeItems (items : List Item) : Json :=
  Json.arrayOf encodeItem items

def encodeResponse : Response → Json
  | .changedTable t => .record [("TableDescription", encodeTable t)]
  | .table t => .record [("Table", encodeTable t)]
  | .tableNames names last =>
    .record <|
      ("TableNames", Json.arrayOf Json.text names) ::
      Json.optional "LastEvaluatedTableName" Json.text last
  | .attributes attributes => .record (Json.optional "Attributes" encodeItem attributes)
  | .item item => .record (Json.optional "Item" encodeItem item)
  | .found items scanned =>
    .record [
      ("Items", encodeItems items),
      ("Count", encodeCount items.length),
      ("ScannedCount", encodeCount scanned)]
  | .batch items =>
    .record [
      ("Responses", .record (items.entries.map fun e => (e.1, encodeItems e.2))),
      ("UnprocessedKeys", .record [])]
  | .written => .record [("UnprocessedItems", .record [])]
  | .selected items => .record [("Items", encodeItems items)]

def encodeReport (r : Report) : Json :=
  .record [("__type", .text r.code.name), ("message", .text r.message)]

def writeResponse (r : Response) : Except Report String :=
  if (encodeResponse r).isWritable then .ok (encodeResponse r).render
  else .error ⟨.serializationError, "Failed to serialize response"⟩

end ItemStore.Wire
