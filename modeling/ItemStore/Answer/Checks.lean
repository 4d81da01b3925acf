import ItemStore.Table

/-!
# Checks of inputs

What an input must pass before anything is looked up or changed.  Each check fails with the first
thing that is wrong.
-/

namespace ItemStore

/-- Refuse a request for its input. -/
def refuse {α : Type} (fault : RequestFault) : Except Fault α :=
  .error (.requestFault fault)

namespace Answer

/-! ## Names -/

def isTableNameChar (c : Char) : Bool :=
  c.isAlphanum || c == '.' || c == '_' || c == '-'

/-- New tables have names of 3 to 255 bytes, all of them letters, digits, points, underscores and
hyphens of ASCII. -/
def checkTableName (name : String) : Except Fault Unit :=
  if name.utf8ByteSize < 3 || 255 < name.utf8ByteSize then
    refuse (.tableNameLength name.utf8ByteSize)
  else if name.toList.all isTableNameChar then .ok ()
  else refuse (.tableNameCharacters name)

/-- The first name of a list that came before, or is one of those seen already. -/
def firstRepeated? (seen : List String) : List String → Option String
  | [] => none
  | name :: rest => if seen.contains name then some name else firstRepeated? (name :: seen) rest

/-- The attributes to keep are named once each. -/
def checkAttributes (attributes : List String) : Except Fault Unit :=
  match firstRepeated? [] attributes with
  | some name => refuse (.repeatedAttribute name)
  | none => .ok ()

/-! ## Values -/

/-- Every number is a numeral, at any depth. -/
def checkNumerals (values : List Value) : Except Fault Unit :=
  match values.findSome? Value.invalidNumeral? with
  | some text => refuse (.invalidNumeral text)
  | none => .ok ()

/-- A key has exactly the key attributes, and its numbers are numerals. -/
def checkKey (keys : KeySchema) (key : Item) : Except Fault Unit :=
  if key.size = keys.names.length ∧ key.names.all keys.hasName then checkNumerals key.values
  else refuse (.keyNames key.names keys.names)

/-! ## Conditions -/

/-- Fail as an unknown operator fails. -/
def liftOperator {α : Type} (x : Except UnsupportedOperator α) : Except Fault α :=
  x.mapError fun e => .unsupportedOperator e.name

/-- Fail as a key fails. -/
def liftKey {α : Type} (x : Except KeyFault α) : Except Fault α :=
  x.mapError .keyFault

def checkOperators (conditions : List Condition) : Except Fault Unit :=
  match firstUnsupported? conditions with
  | some e => .error (.unsupportedOperator e.name)
  | none => .ok ()

/-- The store has every operator, and the numbers among the operands are numerals. -/
def checkConditions (conditions : List Condition) : Except Fault Unit := do
  checkOperators conditions
  checkNumerals (conditions.flatMap Condition.operands)

/-! ## What writes give back -/

/-- A write that puts or removes a whole item gives back the old item or nothing. -/
def checkReturned : Option Returned → Except Fault Unit
  | none | some .nothing | some .allOld => .ok ()
  | some returned => refuse (.invalidReturned returned)

end Answer

end ItemStore
