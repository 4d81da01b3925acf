import ItemStore.Value

/-!
# Decoded values

What a value stands for once its numbers are read.  Every comparison that the store makes, of keys,
in conditions and in statements, is made on decoded values, so `5`, `5.0` and `5e0` are one key.

* `Value.decode` reads the numbers at every depth.
* `Decoded.same` is sameness up to the representation of numbers; a NaN is not the same as itself.
* `Decoded.compare` orders numbers, texts and booleans, and nothing else.
* `Decoded.encode` spells a decoded value again, each number in its canonical form.
-/

namespace ItemStore

/-- A value with its numbers read. -/
inductive Decoded where
  | null
  | bool (b : Bool)
  | number (n : Number)
  | text (s : String)
  | list (elements : List Decoded)
  | map (fields : List (String × Decoded))
deriving Repr, Inhabited

mutual

def Value.decode : Value → Decoded
  | .null => .null
  | .bool b => .bool b
  | .number n => .number (Number.read n)
  | .text s => .text s
  | .list elements => .list (Value.decodeElements elements)
  | .map fields => .map (Value.decodeFields fields)

def Value.decodeElements : List Value → List Decoded
  | [] => []
  | v :: rest => v.decode :: Value.decodeElements rest

def Value.decodeFields : List (String × Value) → List (String × Decoded)
  | [] => []
  | (name, v) :: rest => (name, v.decode) :: Value.decodeFields rest

end

namespace Decoded

mutual

def encode : Decoded → Value
  | .null => .null
  | .bool b => .bool b
  | .number n => .number n.text
  | .text s => .text s
  | .list elements => .list (encodeElements elements)
  | .map fields => .map (encodeFields fields)

def encodeElements : List Decoded → List Value
  | [] => []
  | d :: rest => encode d :: encodeElements rest

def encodeFields : List (String × Decoded) → List (String × Value)
  | [] => []
  | (name, d) :: rest => (name, encode d) :: encodeFields rest

end

mutual

/-- Whether two decoded values are the same.  Lists agree element by element, and maps field by
field, since their fields stand in order of their names. -/
def same : Decoded → Decoded → Bool
  | .null, .null => true
  | .bool a, .bool b => a == b
  | .number a, .number b => a.same b
  | .text a, .text b => a == b
  | .list a, .list b => sameElements a b
  | .map a, .map b => sameFields a b
  | _, _ => false

/-- Whether two lists agree element by element. -/
def sameElements : List Decoded → List Decoded → Bool
  | [], [] => true
  | a :: as, b :: bs => same a b && sameElements as bs
  | _, _ => false

/-- Whether two maps have the same names with the same values under them. -/
def sameFields : List (String × Decoded) → List (String × Decoded) → Bool
  | [], [] => true
  | (m, a) :: as, (n, b) :: bs => (m == n) && same a b && sameFields as bs
  | _, _ => false

end

/-- The order of two texts, by code points. -/
def compareText (a b : String) : Ordering :=
  if a < b then .lt else if a = b then .eq else .gt

/-- The order of two booleans, false before true. -/
def compareBool : Bool → Bool → Ordering
  | false, true => .lt
  | true, false => .gt
  | _, _ => .eq

/-- The order of two decoded values of one ordered type. -/
def compare : Decoded → Decoded → Option Ordering
  | .number a, .number b => a.compare b
  | .text a, .text b => some (compareText a b)
  | .bool a, .bool b => some (compareBool a b)
  | _, _ => none

end Decoded

def Value.agrees (a b : Value) : Bool :=
  a.decode.same b.decode

end ItemStore
