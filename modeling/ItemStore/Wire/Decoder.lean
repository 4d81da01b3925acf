import ItemStore.Arithmetic
import ItemStore.Json.Reader
import ItemStore.NameList
import ItemStore.NameMap

/-!
# Decoding JSON

A decoder takes a JSON value apart and says what is wrong with it, if anything.  Faults are those
of the text read from left to right: whatever stands first in the text is reported first, whether it
is bad syntax or bad content, and a missing field is noticed where its object ends.

Every decoder gets the number of containers it may still go into, its *room*.  A text has room for
127 of them, one inside the other; what is skipped takes no room.

* `Record` decodes objects with known fields.  A record may also be written as an array of its
  fields in order.
* `variant` decodes one of several names.
* `decodeText` decodes a whole text.
-/

namespace ItemStore.Wire

/-- Why a text cannot be decoded. -/
inductive DecodeFault where
  /-- The text is not JSON, or JSON of a shape that does not fit, or nested too deep.  All that a
  JSON library can report of a text is this one fault. -/
  | malformed
  | badNumeral (text : String)
  | noTag
  | extraTag (name : String)
  | nullNotTrue
  | unknownTag (name : String)
  | missingField (name : String)
  | duplicateField (name : String)
  | unknownVariant (name : String) (expected : List String)
deriving DecidableEq, Repr

namespace DecodeFault

/-- A name between grave accents. -/
def quoted (name : String) : String :=
  "`" ++ name ++ "`"

def alternatives : List String → String
  | [a] => s!"expected {quoted a}"
  | [a, b] => s!"expected {quoted a} or {quoted b}"
  | names => "expected one of " ++ ", ".intercalate (names.map quoted)

/-- The text of a fault.  The program takes it from its JSON library where a text is `malformed`,
and then has a different one for each thing that can be wrong, with the place of it in the text.
The one here only stands for these and is not the program's; nothing depends on it. -/
def message : DecodeFault → String
  | malformed => "the text does not have the expected form"
  | badNumeral text => s!"'{text}' cannot be converted to a numeric value"
  | noTag => "AttributeValue must have exactly one key"
  | extraTag name => s!"AttributeValue must have exactly one key, found extra key '{name}'"
  | nullNotTrue => "NULL must be true when present"
  | unknownTag name =>
    "unknown field " ++ quoted name ++ ", " ++ alternatives ["S", "N", "BOOL", "NULL", "L", "M"]
  | missingField name => s!"missing field {quoted name}"
  | duplicateField name => s!"duplicate field {quoted name}"
  | unknownVariant name expected =>
    s!"unknown variant {quoted name}, {alternatives expected}"

end DecodeFault

abbrev Decoder (α : Type) := (room : Nat) → Json → Except DecodeFault α

/-! ## Plain values -/

def string : Decoder String
  | _, .string (some s) => .ok s
  | _, _ => .error .malformed

/-- The integer of a number literal that is a plain integer.  `-0` is not one. -/
def integerOfLiteral? (literal : String) : Option Int :=
  if literal = "-0" then none else Numeral.integer? literal.toList

attribute [local instance] intPow

/-- An integer of 32 bits, written without point and exponent. -/
def int32 : Decoder Int
  | _, .number literal =>
    match integerOfLiteral? literal with
    | some i => if -2 ^ (31 : Nat) ≤ i ∧ i < 2 ^ (31 : Nat) then .ok i else .error .malformed
    | none => .error .malformed
  | _, _ => .error .malformed

def nullable {α : Type} (d : Decoder α) : Decoder (Option α)
  | _, .null => .ok none
  | room, j => (d room j).map some

/-- Decode elements in order; the first fault ends it. -/
def eachElement {α : Type} (d : Decoder α) (room : Nat) : List Json → Except DecodeFault (List α)
  | [] => .ok []
  | j :: rest => do
    let a ← d room j
    let as ← eachElement d room rest
    return a :: as

def listOf {α : Type} (d : Decoder α) : Decoder (List α)
  | room + 1, .array elements => eachElement d room elements
  | _, _ => .error .malformed

/-- Decode members in order; the first fault ends it. -/
def eachMember {α : Type} (d : Decoder α) (room : Nat) :
    List (Option String × Json) → Except DecodeFault (List (String × α))
  | [] => .ok []
  | (none, _) :: _ => .error .malformed
  | (some name, j) :: rest => do
    let a ← d room j
    let as ← eachMember d room rest
    return (name, a) :: as

/-- An object whose names are data.  A name that comes again keeps its first place and takes the
later value. -/
def nameListOf {α : Type} (d : Decoder α) : Decoder (NameList α)
  | room + 1, .object members => (eachMember d room members).map NameList.ofList
  | _, _ => .error .malformed

/-! ## Variants -/

def pick {α : Type} (variants : List (String × α)) (name : String) : Except DecodeFault α :=
  match variants.lookup name with
  | some a => .ok a
  | none => .error (.unknownVariant name (variants.map Prod.fst))

/-- One of several names, as a string or as the one name of an object whose value is null. -/
def variant {α : Type} (variants : List (String × α)) : Decoder α
  | _, .string (some name) => pick variants name
  | _ + 1, .object ((some name, j) :: rest) => do
    let a ← pick variants name
    match j, rest with
    | .null, [] => return a
    | _, _ => throw .malformed
  | _, _ => .error .malformed

/-! ## Records -/

/-- A field of a record: its name, what its value must pass, and whether an array may end before
it. -/
structure Field where
  name : String
  check : Nat → Json → Except DecodeFault Unit
  mayEndBefore : Bool

/-- A decoder of objects with known fields.  `build` takes the values of the fields by name, once
they have passed their checks. -/
structure Record (α : Type) where
  fields : List Field
  build : Nat → (String → Option Json) → Except DecodeFault α

namespace Record

variable {α β : Type}

def pure (a : α) : Record α :=
  ⟨[], fun _ _ => .ok a⟩

def seq (f : Record (α → β)) (a : Record α) : Record β :=
  ⟨f.fields ++ a.fields, fun room get => do
    let f ← f.build room get
    let a ← a.build room get
    return f a⟩

instance : Applicative Record where
  pure := pure
  seq f a := seq f (a ())

def accepts (d : Decoder α) (room : Nat) (j : Json) : Except DecodeFault Unit :=
  (d room j).map fun _ => ()

def required (name : String) (d : Decoder α) : Record α :=
  ⟨[⟨name, accepts d, false⟩], fun room get =>
    match get name with
    | some j => d room j
    | none => .error (.missingField name)⟩

def optional (name : String) (d : Decoder α) : Record (Option α) :=
  ⟨[⟨name, accepts (nullable d), false⟩], fun room get =>
    match get name with
    | some j => nullable d room j
    | none => .ok none⟩

def defaulted (name : String) (d : Decoder α) (default : α) : Record α :=
  ⟨[⟨name, accepts d, true⟩], fun room get =>
    match get name with
    | some j => d room j
    | none => .ok default⟩

/-- Check members in order.  A known field may come once; an unknown one is skipped, though it must
be good syntax. -/
def checkMembers (fields : List Field) (room : Nat) (seen : List String) :
    List (Option String × Json) → Except DecodeFault Unit
  | [] => .ok ()
  | (none, _) :: _ => .error .malformed
  | (some name, j) :: rest =>
    match fields.find? fun f => f.name == name with
    | none => if j.isWhole then checkMembers fields room seen rest else .error .malformed
    | some f =>
      if seen.contains name then .error (.duplicateField name)
      else do
        f.check room j
        checkMembers fields room (name :: seen) rest

/-- Check elements as the fields in order.  None may be left over, and none may be missing but
those at the end that have a default. -/
def checkElements (room : Nat) : List Field → List Json → Except DecodeFault Unit
  | [], [] => .ok ()
  | [], _ :: _ => .error .malformed
  | f :: fields, [] => if f.mayEndBefore then checkElements room fields [] else .error .malformed
  | f :: fields, j :: rest => do
    f.check room j
    checkElements room fields rest

def decode (r : Record α) : Decoder α
  | room + 1, .object members => do
    checkMembers r.fields room [] members
    r.build room fun name => members.lookup (some name)
  | room + 1, .array elements => do
    checkElements room r.fields elements
    r.build room fun name => ((r.fields.map Field.name).zip elements).lookup name
  | _, _ => .error .malformed

end Record

/-! ## Texts -/

/-- How many containers may stand one inside the other. -/
def maxDepth : Nat := 127

/-- Decode a text that holds one value and nothing else. -/
def decodeText {α : Type} (d : Decoder α) (text : String) : Except DecodeFault α := do
  let (j, complete) := Json.read text
  let a ← d maxDepth j
  if complete then return a else throw .malformed

end ItemStore.Wire
