import ItemStore.Condition
import ItemStore.Schema
import ItemStore.Work

/-!
# Rows

The items of one table.  An item is addressed by the values of its key attributes, compared once
decoded; `5` and `5.0` address one item.

Rows stand in an order that answers show.  A new item comes last.  Taking an item out moves the last
row into the gap.  Putting an item under a taken key takes the old one out and adds the new one at
the end, and an update leaves the item where it is.

* `Rows.primaryKey` reads the key of an item, or says what is wrong with it.
* `put`, `get`, `delete` and `update` work on the first row that matches a key.
* `query` and `scan` list the rows that pass a test.
-/

namespace ItemStore

/-! ## Keys of items -/

/-- The values of the key attributes of an item. -/
structure PrimaryKey where
  hash : Value
  range : Option Value
deriving DecidableEq, Repr

/-- Why an item has no key. -/
inductive KeyFault where
  | missing (name : String)
  | mistyped (name expected actual : String)
deriving DecidableEq, Repr

def KeyFault.message : KeyFault → String
  | missing name =>
    s!"One or more parameter values were invalid: Missing the key {name} in the item"
  | mistyped name expected actual =>
    s!"One or more parameter values were invalid: Type mismatch for key {name} " ++
      s!"expected: {expected} actual: {actual}"

namespace KeyAttribute

/-- The value of a key attribute in an item.  Its type is checked where types are enforced and one
is declared. -/
def valueIn (a : KeyAttribute) (enforce : Bool) (item : Item) : Except KeyFault Value :=
  match item.get? a.name with
  | none => .error (.missing a.name)
  | some v =>
    match a.type with
    | some type =>
      if enforce && !type.fits v then .error (.mistyped a.name type.name v.typeTag) else .ok v
    | none => .ok v

/-- Whether an item has a key attribute with a value that decodes alike. -/
def agreesIn (a : KeyAttribute) (item : Item) (expected : Value) : Bool :=
  match item.get? a.name with
  | some v => v.agrees expected
  | none => false

end KeyAttribute

namespace KeySchema

/-- Read the key of an item, the hash attribute first. -/
def keyOf (k : KeySchema) (enforce : Bool) (item : Item) : Except KeyFault PrimaryKey := do
  let hash ← k.hash.valueIn enforce item
  match k.range with
  | none => return ⟨hash, none⟩
  | some a =>
    let range ← a.valueIn enforce item
    return ⟨hash, some range⟩

def matchesKey (k : KeySchema) (key : PrimaryKey) (item : Item) : Bool :=
  k.hash.agreesIn item key.hash &&
    match k.range, key.range with
    | none, _ => true
    | some a, some expected => a.agreesIn item expected
    | some _, none => false

end KeySchema

/-! ## Lists of rows -/

/-- Take out the element at a position and move the last one there. -/
def swapRemove {α : Type} (i : Nat) (rows : List α) : List α :=
  match rows.getLast? with
  | some last => (rows.set i last).dropLast
  | none => []

/-- The rows that pass a test, which ends at its first failure. -/
def selectRows {ε : Type} (test : Item → Except ε Bool) : List Item → Except ε (List Item)
  | [] => .ok []
  | item :: rest => do
    let keep ← test item
    let kept ← selectRows test rest
    return if keep then item :: kept else kept

/-! ## Changes of items -/

/-- One change of an attribute. -/
inductive Change where
  | set (value : Value)
  | remove
deriving DecidableEq, Repr

/-- Make changes to named attributes, one after the other. -/
def Item.change (item : Item) (changes : List (String × Change)) : Item :=
  changes.foldl (fun item c =>
    match c.2 with
    | .set value => item.insert c.1 value
    | .remove => item.erase c.1) item

/-! ## Rows -/

/-- The items of a table, with the key they are stored by. -/
structure Rows where
  keys : KeySchema
  enforceTypes : Bool
  items : List Item
deriving DecidableEq

/-- What a query asks of the key: a value of the hash attribute and perhaps a condition on another
attribute. -/
structure KeyQuery where
  hashName : String
  hashValue : Value
  range : Option (String × Condition)

def KeyQuery.test (q : KeyQuery) (item : Item) : Except UnsupportedOperator Bool :=
  match item.get? q.hashName with
  | none => .ok false
  | some v =>
    if v.agrees q.hashValue then
      match q.range with
      | some (name, c) => c.evaluate (item.get? name)
      | none => .ok true
    else .ok false

namespace Rows

attribute [local instance] natZero

def empty (keys : KeySchema) (enforceTypes : Bool) : Rows :=
  ⟨keys, enforceTypes, []⟩

def count (t : Rows) : Nat :=
  t.items.length

def byteSize (t : Rows) : Nat :=
  (t.items.map Item.byteSize).sum

def primaryKey (t : Rows) (item : Item) : Except KeyFault PrimaryKey :=
  t.keys.keyOf t.enforceTypes item

/-- Where the first row with a key stands. -/
def position? (t : Rows) (key : PrimaryKey) : Option Nat :=
  t.items.findIdx? (t.keys.matchesKey key)

/-- The first row with a key. -/
def get? (t : Rows) (key : PrimaryKey) : Option Item :=
  t.items.find? (t.keys.matchesKey key)

/-- Take out the item with a key, if there is one. -/
def delete (t : Rows) (key : PrimaryKey) : Option Item × Rows :=
  match t.position? key with
  | some i => (t.items[i]?, { t with items := swapRemove i t.items })
  | none => (none, t)

/-- Store an item in place of the one with its key, which is returned.  Nothing of the old item is
kept. -/
def put (item : Item) : Work KeyFault Rows (Option Item) := do
  let key ← (← get).primaryKey item
  let old ← modifyGet fun t => t.delete key
  modify fun t => { t with items := t.items ++ [item] }
  return old

/-- Change the item with a key.  Where there is none, the changes are made to the key itself and the
outcome is stored as a new item.  Returns the item before and after. -/
def update (key : Item) (changes : List (String × Change)) :
    Work KeyFault Rows (Option Item × Item) := do
  let t ← get
  let primary ← t.primaryKey key
  match t.position? primary with
  | some i =>
    let old := t.items[i]?
    let new := (old.getD key).change changes
    set { t with items := t.items.set i new }
    return (old, new)
  | none =>
    let new := key.change changes
    set { t with items := t.items ++ [new] }
    return (none, new)

def query (t : Rows) (q : KeyQuery) : Except UnsupportedOperator (List Item) :=
  selectRows q.test t.items

def scan (t : Rows) (test : Item → Except UnsupportedOperator Bool) :
    Except UnsupportedOperator (List Item) :=
  selectRows test t.items

end Rows

end ItemStore
