import ItemStore.Value

/-!
# Fingerprints of values

A fingerprint is the sequence of marks that a hash of a value takes in.  Equal maps give equal
fingerprints however their fields happen to be listed, because the fields are put in order of their
names before they are marked.

A fingerprint does not tell all values apart: a map does not mark where it ends, so
`{a: {}, b: null}` and `{a: {b: null}}` are marked alike.  A set of values therefore compares the
values that have one hash.

* `Value.identical` compares two values as they are spelled, maps in whatever order their fields
  are listed.
* `Value.fingerprint` marks a value.
* `Value.addTo` puts a value into a hash set, unless it is there; `distinctCount` counts values with
  such a set.
-/

namespace ItemStore

/-- One thing that a hash takes in. -/
inductive Mark where
  | tag (name : String)
  | text (s : String)
  | flag (b : Bool)
  | count (n : Nat)
deriving DecidableEq, Repr, Hashable

/-- Put the fields of a map in order of their names. -/
def sortedByName {α : Type} (fields : List (String × α)) : List (String × α) :=
  fields.mergeSort fun a b => a.1 ≤ b.1

namespace Value

mutual

/-- Whether two values are spelled alike.  Maps are, when they are of one size and every field of
the one has its like under its name in the other. -/
def identical : Value → Value → Bool
  | .text a, .text b => a == b
  | .number a, .number b => a == b
  | .bool a, .bool b => a == b
  | .null, .null => true
  | .list a, .list b => identicalElements a b
  | .map a, .map b => (a.length == b.length) && fieldsWithin a b
  | _, _ => false

/-- Whether two lists are identical element by element. -/
def identicalElements : List Value → List Value → Bool
  | [], [] => true
  | v :: vs, w :: ws => identical v w && identicalElements vs ws
  | _, _ => false

/-- Whether every field has its like among other fields. -/
def fieldsWithin : List (String × Value) → List (String × Value) → Bool
  | [], _ => true
  | (name, v) :: rest, fields =>
    (match fields.lookup name with
      | some w => identical v w
      | none => false) && fieldsWithin rest fields

end

mutual

/-- The marks of a value: its type, then its content. -/
def fingerprint : Value → List Mark
  | .text s => [.tag "S", .text s]
  | .number n => [.tag "N", .text n]
  | .bool b => [.tag "BOOL", .flag b]
  | .null => [.tag "NULL"]
  | .list elements => .tag "L" :: .count elements.length :: elementMarks elements
  | .map fields =>
    .tag "M" :: (sortedByName (fieldMarks fields)).flatMap fun field => .text field.1 :: field.2

def elementMarks : List Value → List Mark
  | [] => []
  | v :: rest => fingerprint v ++ elementMarks rest

/-- The marks of each field of a map, under its name. -/
def fieldMarks : List (String × Value) → List (String × List Mark)
  | [] => []
  | (name, v) :: rest => (name, fingerprint v) :: fieldMarks rest

end

/-- Put a value into a set, which keeps values with their hashes.  It is looked for only among the
values that have its hash. -/
def addTo (hash : List Mark → UInt64) (set : List (UInt64 × Value)) (v : Value) :
    List (UInt64 × Value) :=
  let h := hash v.fingerprint
  if set.any fun e => e.1 == h && e.2.identical v then set else set ++ [(h, v)]

/-- A hash set of values. -/
def hashSet (hash : List Mark → UInt64) (values : List Value) : List (UInt64 × Value) :=
  values.foldl (addTo hash) []

def distinctCount (values : List Value) : Nat :=
  (hashSet Hashable.hash values).length

end Value

end ItemStore
