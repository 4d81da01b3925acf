import ItemStore.NameMap
import ItemStore.Number

/-!
# Attribute values

The values that attributes hold: text, number, boolean, null, list and map, nested in any way.  A
number is kept as the text the client wrote, so that it is given back unchanged; what it denotes is
the business of `ItemStore.Value.Decoded`.

A map value lists its fields in increasing order of their names, as `NameMap` does.  The order is
not part of the type here, because values nest in themselves; whatever builds a map value arranges
its fields (`Value.ofFields`).

An `Item` is a map from attribute names to values.
-/

namespace ItemStore

/-- The value of an attribute. -/
inductive Value where
  | text (s : String)
  | number (numeral : String)
  | bool (b : Bool)
  | null
  | list (elements : List Value)
  | map (fields : List (String × Value))
deriving Repr, Inhabited

namespace Value

/-! ## Equality

Two values are equal when they are spelled alike, numbers included.
-/

mutual

def decEq : (a b : Value) → Decidable (a = b)
  | .text a, .text b =>
    if h : a = b then isTrue (congrArg _ h) else isFalse fun e => h (Value.text.inj e)
  | .number a, .number b =>
    if h : a = b then isTrue (congrArg _ h) else isFalse fun e => h (Value.number.inj e)
  | .bool a, .bool b =>
    if h : a = b then isTrue (congrArg _ h) else isFalse fun e => h (Value.bool.inj e)
  | .null, .null => isTrue rfl
  | .list a, .list b =>
    match decEqElements a b with
    | isTrue h => isTrue (congrArg _ h)
    | isFalse h => isFalse fun e => h (Value.list.inj e)
  | .map a, .map b =>
    match decEqFields a b with
    | isTrue h => isTrue (congrArg _ h)
    | isFalse h => isFalse fun e => h (Value.map.inj e)
  | .text _, .number _ | .text _, .bool _ | .text _, .null | .text _, .list _ | .text _, .map _
  | .number _, .text _ | .number _, .bool _ | .number _, .null | .number _, .list _
  | .number _, .map _ | .bool _, .text _ | .bool _, .number _ | .bool _, .null | .bool _, .list _
  | .bool _, .map _ | .null, .text _ | .null, .number _ | .null, .bool _ | .null, .list _
  | .null, .map _ | .list _, .text _ | .list _, .number _ | .list _, .bool _ | .list _, .null
  | .list _, .map _ | .map _, .text _ | .map _, .number _ | .map _, .bool _ | .map _, .null
  | .map _, .list _ => isFalse (by intro h; cases h)

def decEqElements : (a b : List Value) → Decidable (a = b)
  | [], [] => isTrue rfl
  | [], _ :: _ => isFalse (by intro h; cases h)
  | _ :: _, [] => isFalse (by intro h; cases h)
  | v :: vs, w :: ws =>
    match decEq v w with
    | isFalse h => isFalse fun e => h (List.cons.inj e).1
    | isTrue h =>
      match decEqElements vs ws with
      | isFalse h' => isFalse fun e => h' (List.cons.inj e).2
      | isTrue h' => isTrue (h ▸ h' ▸ rfl)

def decEqFields : (a b : List (String × Value)) → Decidable (a = b)
  | [], [] => isTrue rfl
  | [], _ :: _ => isFalse (by intro h; cases h)
  | _ :: _, [] => isFalse (by intro h; cases h)
  | (m, v) :: vs, (n, w) :: ws =>
    if hn : m = n then
      match decEq v w with
      | isFalse h => isFalse fun e => h (Prod.mk.inj (List.cons.inj e).1).2
      | isTrue h =>
        match decEqFields vs ws with
        | isFalse h' => isFalse fun e => h' (List.cons.inj e).2
        | isTrue h' => isTrue (hn ▸ h ▸ h' ▸ rfl)
    else isFalse fun e => hn (Prod.mk.inj (List.cons.inj e).1).1

end

instance : DecidableEq Value := decEq

/-! ## Parts of a value -/

/-- The map value with the given fields, of which the last of each name counts. -/
def ofFields (fields : List (String × Value)) : Value :=
  .map (arrange fields)

def typeTag : Value → String
  | .text _ => "S"
  | .number _ => "N"
  | .bool _ => "BOOL"
  | .null => "NULL"
  | .list _ => "L"
  | .map _ => "M"

def asText? : Value → Option String
  | .text s => some s
  | _ => none

def asNumeral? : Value → Option String
  | .number n => some n
  | _ => none

def isNull : Value → Bool
  | .null => true
  | _ => false

/-- A one-line summary; containers show only how much they hold. -/
def summary : Value → String
  | .text s => "\x7bS: " ++ s ++ "\x7d"
  | .number n => "\x7bN: " ++ n ++ "\x7d"
  | .bool b => "\x7bBOOL: " ++ (if b then "true" else "false") ++ "\x7d"
  | .null => "\x7bNULL: true\x7d"
  | .list elements => "\x7bL: " ++ elements.length.repr ++ " items\x7d"
  | .map fields => "\x7bM: " ++ fields.length.repr ++ " keys\x7d"

/-! ## Numbers that are no numbers -/

mutual

/-- The first number, at any depth, whose text is no numeral. -/
def invalidNumeral? : Value → Option String
  | .number n => if isNumeral n then none else some n
  | .list elements => invalidElement? elements
  | .map fields => invalidField? fields
  | .text _ | .bool _ | .null => none

/-- The first such number among the elements of a list. -/
def invalidElement? : List Value → Option String
  | [] => none
  | v :: rest => (invalidNumeral? v).or (invalidElement? rest)

/-- The first such number among the fields of a map. -/
def invalidField? : List (String × Value) → Option String
  | [] => none
  | (_, v) :: rest => (invalidNumeral? v).or (invalidField? rest)

end

/-! ## Storage size -/

mutual

/-- The bytes that a value counts for.  A number takes half a byte a digit and one more; a
container takes three bytes, and one for each thing it holds. -/
def byteSize : Value → Nat
  | .text s => s.utf8ByteSize
  | .number n => (n.utf8ByteSize + 1) / 2 + 1
  | .bool _ | .null => 1
  | .list elements => 3 + elementsByteSize elements
  | .map fields => 3 + fieldsByteSize fields

def elementsByteSize : List Value → Nat
  | [] => 0
  | v :: rest => (1 + byteSize v) + elementsByteSize rest

def fieldsByteSize : List (String × Value) → Nat
  | [] => 0
  | (name, v) :: rest => (name.utf8ByteSize + 1 + byteSize v) + fieldsByteSize rest

end

end Value

abbrev Item := NameMap Value

namespace Item

attribute [local instance] natZero

/-- The bytes that an item counts for: its attribute names and their values. -/
def byteSize (item : Item) : Nat :=
  (item.entries.map fun e => e.1.utf8ByteSize + e.2.byteSize).sum

/-- The first number in an item, at any depth, whose text is no numeral. -/
def invalidNumeral? (item : Item) : Option String :=
  item.values.findSome? Value.invalidNumeral?

/-- Keep the listed attributes.  An empty list keeps them all. -/
def project (item : Item) (attributes : List String) : Item :=
  if attributes.isEmpty then item else item.restrict attributes.contains

end Item

end ItemStore
