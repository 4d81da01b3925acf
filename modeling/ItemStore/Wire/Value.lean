import ItemStore.Value
import ItemStore.Wire.Decoder

/-!
# Attribute values in JSON

An attribute value is an object with one member, whose name is the tag of its type: `S` and `N`
with a string, `BOOL` with a boolean, `NULL` with true, `L` with an array of values, `M` with an
object of values.  An item is the object that an `M` holds.
-/

namespace ItemStore.Wire

/-! ## Writing -/

mutual

def encodeValue : Value → Json
  | .text s => .record [("S", .text s)]
  | .number n => .record [("N", .text n)]
  | .bool b => .record [("BOOL", .bool b)]
  | .null => .record [("NULL", .bool true)]
  | .list elements => .record [("L", .array (encodeElements elements))]
  | .map fields => .record [("M", .object (encodeFields fields))]

def encodeElements : List Value → List Json
  | [] => []
  | v :: rest => encodeValue v :: encodeElements rest

def encodeFields : List (String × Value) → List (Option String × Json)
  | [] => []
  | (name, v) :: rest => (some name, encodeValue v) :: encodeFields rest

end

def encodeItem (item : Item) : Json :=
  .object (encodeFields item.entries)

/-! ## Reading -/

def isTag (name : String) : Bool :=
  ["S", "N", "BOOL", "NULL", "L", "M"].contains name

def textPayload (tag : String) (s : String) : Except DecodeFault Value :=
  if tag = "S" then .ok (.text s)
  else if tag = "N" then
    if isNumeral s then .ok (.number s) else .error (.badNumeral s)
  else .error .malformed

def boolPayload (tag : String) (b : Bool) : Except DecodeFault Value :=
  if tag = "BOOL" then .ok (.bool b)
  else if tag = "NULL" then
    if b then .ok .null else .error .nullNotTrue
  else .error .malformed

def noFurtherTag (v : Value) : List (Option String × Json) → Except DecodeFault Value
  | [] => .ok v
  | (none, _) :: _ => .error .malformed
  | (some name, _) :: _ => .error (.extraTag name)

mutual

def value (room : Nat) : Json → Except DecodeFault Value
  | .object members =>
    match room with
    | 0 => .error .malformed
    | room + 1 => tagged room members
  | _ => .error .malformed

def tagged (room : Nat) : List (Option String × Json) → Except DecodeFault Value
  | [] => .error .noTag
  | (none, _) :: _ => .error .malformed
  | (some tag, j) :: rest =>
    if isTag tag then
      match payload room tag j with
      | .ok v => noFurtherTag v rest
      | .error e => .error e
    else .error (.unknownTag tag)

def payload (room : Nat) (tag : String) : Json → Except DecodeFault Value
  | .string (some s) => textPayload tag s
  | .bool b => boolPayload tag b
  | .array elements =>
    match room with
    | 0 => .error .malformed
    | room + 1 =>
      if tag = "L" then (valueElements room elements).map Value.list else .error .malformed
  | .object members =>
    match room with
    | 0 => .error .malformed
    | room + 1 =>
      if tag = "M" then (valueFields room members).map Value.ofFields else .error .malformed
  | _ => .error .malformed

def valueElements (room : Nat) : List Json → Except DecodeFault (List Value)
  | [] => .ok []
  | j :: rest =>
    match value room j with
    | .ok v => (valueElements room rest).map (v :: ·)
    | .error e => .error e

def valueFields (room : Nat) :
    List (Option String × Json) → Except DecodeFault (List (String × Value))
  | [] => .ok []
  | (none, _) :: _ => .error .malformed
  | (some name, j) :: rest =>
    match value room j with
    | .ok v => (valueFields room rest).map ((name, v) :: ·)
    | .error e => .error e

end

/-- Decode an item.  Of a repeated name the last value counts. -/
def item : Decoder Item
  | room + 1, .object members => (valueFields room members).map NameMap.ofList
  | _, _ => .error .malformed

end ItemStore.Wire
