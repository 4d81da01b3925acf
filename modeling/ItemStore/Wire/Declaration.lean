import ItemStore.Schema.Declaration
import ItemStore.Wire.Decoder

/-!
# Table declarations in JSON

The declared keys, attribute types and indexes of a table, in both directions.  Decoding what was
written gives back the declaration.
-/

namespace ItemStore.Wire

/-! ## Words -/

/-- Pair values with their names, as `variant` wants them. -/
def named {α : Type} (name : α → String) (values : List α) : List (String × α) :=
  values.map fun a => (name a, a)

def keyRole : Decoder KeyRole :=
  variant (named KeyRole.name [.hash, .range])

def coverage : Decoder Coverage :=
  variant (named Coverage.name [.all, .keysOnly, .listed])

/-- The type of a key attribute.  Any name will do here. -/
def scalarType : Decoder ScalarType := fun room j =>
  (string room j).map ScalarType.ofName

/-! ## Reading -/

def keyElement : Decoder KeyElement :=
  Record.decode <| KeyElement.mk
    <$> .required "AttributeName" string
    <*> .required "KeyType" keyRole

def attributeDefinition : Decoder AttributeDefinition :=
  Record.decode <| AttributeDefinition.mk
    <$> .required "AttributeName" string
    <*> .required "AttributeType" scalarType

def indexProjection : Decoder IndexProjection :=
  Record.decode <| IndexProjection.mk
    <$> .optional "ProjectionType" coverage
    <*> .defaulted "NonKeyAttributes" (listOf string) []

/-- An index.  Without a projection nothing is declared of its content. -/
def indexDeclaration : Decoder IndexDeclaration :=
  Record.decode <| IndexDeclaration.mk
    <$> .required "IndexName" string
    <*> .required "KeySchema" (listOf keyElement)
    <*> .defaulted "Projection" indexProjection ⟨none, []⟩

def tableDeclaration : Decoder TableDeclaration :=
  Record.decode <| TableDeclaration.mk
    <$> .required "TableName" string
    <*> .required "KeySchema" (listOf keyElement)
    <*> .defaulted "AttributeDefinitions" (listOf attributeDefinition) []
    <*> .defaulted "GlobalSecondaryIndexes" (listOf indexDeclaration) []
    <*> .defaulted "LocalSecondaryIndexes" (listOf indexDeclaration) []

/-! ## Writing -/

def encodeKeyElement (e : KeyElement) : Json :=
  .record [("AttributeName", .text e.name), ("KeyType", .text e.role.name)]

def encodeAttributeDefinition (d : AttributeDefinition) : Json :=
  .record [("AttributeName", .text d.name), ("AttributeType", .text d.type.name)]

def encodeIndexProjection (p : IndexProjection) : Json :=
  .record <|
    Json.optional "ProjectionType" (fun c => .text c.name) p.coverage ++
    Json.nonempty "NonKeyAttributes" (Json.arrayOf Json.text) p.attributes

def encodeIndexDeclaration (d : IndexDeclaration) : Json :=
  .record [
    ("IndexName", .text d.name),
    ("KeySchema", Json.arrayOf encodeKeyElement d.keys),
    ("Projection", encodeIndexProjection d.projection)]

def encodeTableDeclaration (d : TableDeclaration) : Json :=
  .record <|
    [ ("TableName", .text d.name),
      ("KeySchema", Json.arrayOf encodeKeyElement d.keys),
      ("AttributeDefinitions", Json.arrayOf encodeAttributeDefinition d.definitions)] ++
    Json.nonempty "GlobalSecondaryIndexes" (Json.arrayOf encodeIndexDeclaration)
      d.globalIndexes ++
    Json.nonempty "LocalSecondaryIndexes" (Json.arrayOf encodeIndexDeclaration) d.localIndexes

end ItemStore.Wire
