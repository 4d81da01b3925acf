import ItemStore.Answer.Search
import ItemStore.Proofs.Keys

/-!
# Rows that conditions select

Conditions are evaluated one by one, and each may fail, stop the search or let it go on.  Once the
operators have been checked none of them fails, and what is left is a test of rows that does not
depend on where the search stops: all of the conditions hold, or some of them.

* `Condition.holds`, `Combinator.holds` — the truth of a condition, and of a list of conditions.
* `Condition.Checked` — a condition that passes the checks of a request;
  `checkConditions_eq_ok` says that these are the checks.
* **`Combinator.evaluate_eq_holds`** — evaluating checked conditions is asking whether they hold.
* **`selectRows_eq_filter`** — selecting rows by a test that does not fail is filtering them.
-/

namespace ItemStore

open Answer

/-! ## Conditions -/

namespace Condition

/-- Whether a condition holds of an attribute.  None holds of a missing one. -/
def holds (c : Condition) (value : Option Value) : Bool :=
  (value.map fun v => c.operator.test v c.operands).getD false

/-- Whether a condition on a named attribute holds of an item. -/
def holdsIn (item : Item) (e : String × Condition) : Bool :=
  e.2.holds (item.get? e.1)

/-- A condition with an operator that the store has, on valid operands. -/
structure Checked (c : Condition) : Prop where
  supported : c.operator.isSupported = true
  valid : ∀ v ∈ c.operands, v.Valid

lemma evaluate_eq_holds {c : Condition} (h : c.operator.isSupported = true)
    (value : Option Value) : c.evaluate value = .ok (c.holds value) := by
  obtain ⟨operator, operands⟩ := c
  cases operator <;> first | rfl | cases h

end Condition

lemma firstUnsupported?_eq_none {conditions : List Condition} :
    firstUnsupported? conditions = none ↔ ∀ c ∈ conditions, c.operator.isSupported = true := by
  rw [firstUnsupported?, List.findSome?_eq_none_iff]
  refine forall₂_congr fun c _ => ?_
  cases c.operator <;> simp [Operator.isSupported]

namespace Answer

lemma checkOperators_eq_ok {conditions : List Condition} :
    checkOperators conditions = .ok () ↔ ∀ c ∈ conditions, c.operator.isSupported = true := by
  rw [← firstUnsupported?_eq_none, checkOperators]
  cases firstUnsupported? conditions <;> simp

/-- The checks of conditions pass exactly the checked ones. -/
theorem checkConditions_eq_ok {conditions : List Condition} :
    checkConditions conditions = .ok () ↔ ∀ c ∈ conditions, c.Checked := by
  rw [checkConditions, bind_eq_ok]
  constructor
  · rintro ⟨_, hoperators, hnumerals⟩
    rw [checkOperators_eq_ok] at hoperators
    rw [checkNumerals_eq_ok, List.forall_mem_flatMap] at hnumerals
    exact fun c hc => ⟨hoperators c hc, hnumerals c hc⟩
  · intro h
    refine ⟨(), checkOperators_eq_ok.mpr fun c hc => (h c hc).supported, ?_⟩
    rw [checkNumerals_eq_ok, List.forall_mem_flatMap]
    exact fun c hc => (h c hc).valid

lemma liftOperator_eq_ok {α : Type} {x : Except UnsupportedOperator α} {a : α} :
    liftOperator x = .ok a ↔ x = .ok a :=
  mapError_eq_ok _

end Answer

/-! ## Lists of conditions -/

namespace Combinator

/-- Whether joined conditions hold of an item.  No conditions hold of every item. -/
def holds (combinator : Combinator) (conditions : List (String × Condition)) (item : Item) : Bool :=
  match combinator with
  | all => conditions.all (Condition.holdsIn item)
  | any => conditions.isEmpty || conditions.any (Condition.holdsIn item)

variable {conditions : List (String × Condition)}

lemma everyHolds_eq (h : ∀ e ∈ conditions, e.2.operator.isSupported = true) (item : Item) :
    everyHolds item conditions = .ok (conditions.all (Condition.holdsIn item)) := by
  induction conditions with
  | nil => rfl
  | cons e rest ih =>
      obtain ⟨he, hrest⟩ := List.forall_mem_cons.mp h
      rw [everyHolds, Condition.evaluate_eq_holds he, List.all_cons, Condition.holdsIn]
      cases e.2.holds (item.get? e.1)
      · rfl
      · exact ih hrest

lemma someHolds_eq (h : ∀ e ∈ conditions, e.2.operator.isSupported = true) (item : Item) :
    someHolds item conditions = .ok (conditions.any (Condition.holdsIn item)) := by
  induction conditions with
  | nil => rfl
  | cons e rest ih =>
      obtain ⟨he, hrest⟩ := List.forall_mem_cons.mp h
      rw [someHolds, Condition.evaluate_eq_holds he, List.any_cons, Condition.holdsIn]
      cases e.2.holds (item.get? e.1)
      · exact ih hrest
      · rfl

/-- **Evaluating conditions whose operators are known is asking whether they hold.** -/
theorem evaluate_eq_holds (h : ∀ e ∈ conditions, e.2.operator.isSupported = true)
    (combinator : Combinator) (item : Item) :
    combinator.evaluate conditions item = .ok (combinator.holds conditions item) := by
  cases combinator with
  | all => exact everyHolds_eq h item
  | any =>
      rw [evaluate, holds]
      cases hempty : conditions.isEmpty
      · exact someHolds_eq h item
      · rfl

end Combinator

/-! ## Rows -/

/-- **Selecting rows by a test that does not fail is filtering them.** -/
theorem selectRows_eq_filter {ε : Type} {test : Item → Except ε Bool} {p : Item → Bool}
    (h : ∀ item, test item = .ok (p item)) (rows : List Item) :
    selectRows test rows = .ok (rows.filter p) := by
  induction rows with
  | nil => rfl
  | cons item rest ih =>
      rw [selectRows, h, ih, List.filter_cons]
      rfl

end ItemStore
