import ItemStore.Answer.Checks
import ItemStore.Response
import ItemStore.Select.Reader

/-!
# Answers about many items

A *query* goes by the key of the table or of an index: the hash attribute must equal a value, and
the range attribute may have to meet one condition.  A *scan* looks at every item.  A *statement* is
a scan in words.

Whether one of them is accepted depends on the input and on the schema and never on the items.
-/

namespace ItemStore

open Answer

/-! ## Key conditions -/

/-- The operators that a condition on the range attribute may have. -/
def Operator.ordersKeys : Operator → Bool
  | .eq | .le | .lt | .ge | .gt | .beginsWith | .between => true
  | _ => false

/-- The number of operands that a condition on the range attribute must have. -/
def Operator.keyOperands : Operator → Nat
  | .between => 2
  | _ => 1

namespace KeySchema

def hashValue (keys : KeySchema) (conditions : NameList Condition) : Except Fault Value :=
  match conditions.get? keys.hash.name with
  | none => refuse (.noHashCondition keys.hash.name)
  | some c =>
    match c.operator, c.operands with
    | .eq, [v] => .ok v
    | operator, _ => refuse (.invalidHashCondition keys.hash.name operator)

/-- What a key condition must be that is not on the hash attribute. -/
def checkRange (keys : KeySchema) (name : String) (c : Condition) : Except Fault Unit :=
  if (keys.range.map KeyAttribute.name) ≠ some name then refuse (.foreignKeyCondition name)
  else if !c.operator.ordersKeys then refuse (.invalidRangeOperator c.operator name)
  else if c.operands.length ≠ c.operator.keyOperands then refuse (.operandCount c.operator)
  else .ok ()

/-- The condition on the range attribute, if there is one.  There is no other attribute to have
conditions on. -/
def rangeCondition (keys : KeySchema) :
    List (String × Condition) → Except Fault (Option (String × Condition))
  | [] => .ok none
  | (name, c) :: rest =>
    if name = keys.hash.name then keys.rangeCondition rest
    else do
      keys.checkRange name c
      let later ← keys.rangeCondition rest
      return later.or (some (name, c))

def keyQuery (keys : KeySchema) (conditions : NameList Condition) : Except Fault KeyQuery := do
  let hashValue ← keys.hashValue conditions
  let range ← keys.rangeCondition conditions.entries
  return ⟨keys.hash.name, hashValue, range⟩

end KeySchema

namespace Answer

/-- The test that a filter puts to an item.  Conditions are joined by `AND` unless the client says
otherwise. -/
def filterTest (combinator : Option Combinator) (filter : NameList Condition) (item : Item) :
    Except UnsupportedOperator Bool :=
  (combinator.getD .all).evaluate filter.entries item

/-- Answer a query.  The items that the key conditions leave over count as looked at. -/
def query (q : Query) (c : Catalog) : Except Fault Response := do
  let t ← c.require q.table
  checkAttributes q.attributes
  let keys ← t.keysFor q.index
  checkConditions (q.keyConditions.values ++ q.filter.values)
  let keyQuery ← keys.keyQuery q.keyConditions
  let candidates ← liftOperator (t.rows.query keyQuery)
  let items ← liftOperator (selectRows (filterTest q.combinator q.filter) candidates)
  return .found (items.map fun item => item.project q.attributes) candidates.length

def scan (s : Scan) (c : Catalog) : Except Fault Response := do
  let t ← c.require s.table
  checkAttributes s.attributes
  checkConditions s.filter.values
  let items ← liftOperator (t.rows.scan (filterTest s.combinator s.filter))
  return .found (items.map fun item => item.project s.attributes) t.rows.count

def select (s : Select) (c : Catalog) : Except Fault (List Item) := do
  let t ← c.require s.table
  checkOperators (s.conditions.map Prod.snd)
  let items ← liftOperator (t.rows.scan (s.combinator.evaluate s.conditions))
  return items.map fun item => item.project s.selection.names

/-- Answer a statement.  A text that is no statement is refused whatever tables there are. -/
def executeStatement (text : String) (c : Catalog) : Except Fault Response := do
  let s ← (Select.read text).mapError .syntaxFault
  let items ← select s c
  return .selected items

end Answer

end ItemStore
