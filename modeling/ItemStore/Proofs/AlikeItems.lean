import ItemStore.Proofs.Agreement
import ItemStore.Proofs.Selection
import ItemStore.Proofs.ValueOrder

/-!
# Items that are alike

Two items are alike when they have the same attributes with agreeing values.  Nothing that the store
asks of an item tells alike items apart: not any condition, and not which of its attributes are
given back.

* `SameOutcome` — the same fault, or success on both sides with related results.  Steps that keep
  it can be put together (`SameOutcome.bind`).
* `Value.Alike.compare_eq`, `Operator.test_eq_of_alike` — what is asked of values.
* `Item.Alike` — likeness of items; `Item.Alike.change` says that changes keep it.
* **`Combinator.evaluate_eq_of_alike`** — alike items meet the same conditions.
-/

namespace ItemStore

/-! ## Outcomes -/

/-- The same fault, or success with related results. -/
inductive SameOutcome {ε α : Type} (R : α → α → Prop) : Except ε α → Except ε α → Prop
  | ok {a b : α} (h : R a b) : SameOutcome R (.ok a) (.ok b)
  | error (e : ε) : SameOutcome R (.error e) (.error e)

namespace SameOutcome

variable {ε ε' α β : Type} {R : α → α → Prop} {S : β → β → Prop} {x y : Except ε α}

lemma refl (hR : ∀ a, R a a) (x : Except ε α) : SameOutcome R x x := by
  cases x with
  | ok a => exact .ok (hR a)
  | error e => exact .error e

lemma imp {R' : α → α → Prop} (h : SameOutcome R x y) (himp : ∀ a b, R a b → R' a b) :
    SameOutcome R' x y := by
  cases h with
  | ok hab => exact .ok (himp _ _ hab)
  | error e => exact .error e

lemma bind {f g : α → Except ε β} (h : SameOutcome R x y)
    (hfg : ∀ a b, R a b → SameOutcome S (f a) (g b)) : SameOutcome S (x >>= f) (y >>= g) := by
  cases h with
  | ok hab => exact hfg _ _ hab
  | error e => exact .error e

/-- A step that is the same on both sides, whose result is known to be one of that step. -/
lemma bind_ok {f g : α → Except ε β} (hfg : ∀ a, x = .ok a → SameOutcome S (f a) (g a)) :
    SameOutcome S (x >>= f) (x >>= g) := by
  cases x with
  | ok a => exact hfg a rfl
  | error e => exact .error e

/-- A step that is the same on both sides. -/
lemma bind_same (x : Except ε α) {f g : α → Except ε β} (hfg : ∀ a, SameOutcome S (f a) (g a)) :
    SameOutcome S (x >>= f) (x >>= g) :=
  bind_ok fun a _ => hfg a

lemma map {f g : α → β} (h : SameOutcome R x y) (hfg : ∀ a b, R a b → S (f a) (g b)) :
    SameOutcome S (x.map f) (y.map g) := by
  cases h with
  | ok hab => exact .ok (hfg _ _ hab)
  | error e => exact .error e

/-- Results of which a function sees no difference are one result to it. -/
lemma map_eq {f : α → β} (h : SameOutcome (fun a b => f a = f b) x y) : x.map f = y.map f := by
  cases h with
  | ok hab => exact congrArg Except.ok hab
  | error e => rfl

lemma mapError (reword : ε → ε') (h : SameOutcome R x y) :
    SameOutcome R (x.mapError reword) (y.mapError reword) := by
  cases h with
  | ok hab => exact .ok hab
  | error e => exact .error (reword e)

end SameOutcome

/-! ## Values -/

namespace Value

variable {v v' w w' : Value}

lemma Alike.symm (h : v.Alike w) : w.Alike v :=
  (agrees_comm w v).trans h

lemma Alike.trans (h : v.Alike w) {u : Value} (h' : w.Alike u) : v.Alike u :=
  agrees_trans h h'

/-- Values that agree with each other agree with the same values. -/
lemma Alike.agrees_eq (hv : v.Alike v') (hw : w.Alike w') : v.agrees w = v'.agrees w' :=
  Bool.eq_iff_iff.mpr
    ⟨fun h => (hv.symm.trans h).trans hw, fun h => (hv.trans h).trans hw.symm⟩

lemma Alike.isNull_eq (h : v.Alike w) : v.isNull = w.isNull := by
  cases v <;> cases w <;> first | rfl | cases h

lemma Alike.asText?_eq (h : v.Alike w) : v.asText? = w.asText? := by
  cases v <;> cases w
  case text.text s t => rw [show s = t from beq_iff_eq.mp h]
  all_goals first | rfl | cases h

lemma Alike.fits_eq (h : v.Alike w) (type : ScalarType) : type.fits v = type.fits w := by
  cases type <;> cases v <;> cases w <;> first | rfl | cases h

/-- Values that agree stand at one point, if they stand at any. -/
lemma Alike.point?_eq (h : v.Alike w) : v.decode.point? = w.decode.point? := by
  cases v <;> cases w
  case text.text s t => rw [show s = t from beq_iff_eq.mp h]
  case bool.bool a b => rw [show a = b from beq_iff_eq.mp h]
  case number.number m n =>
    obtain ⟨x, hm, hn⟩ := Number.same_iff.mp h
    rw [decode, decode, Decoded.point?, Decoded.point?, hm, hn]
  all_goals first | rfl | cases h

/-- Values that agree have the same values before and after them. -/
theorem Alike.compare_eq (hv : v.Alike v') (hw : w.Alike w') :
    v.decode.compare w.decode = v'.decode.compare w'.decode := by
  rw [Decoded.compare_eq_order, Decoded.compare_eq_order, hv.point?_eq, hw.point?_eq]

end Value

/-! ## Conditions -/

/-- The same operator, with operands that agree. -/
structure Condition.Alike (c c' : Condition) : Prop where
  operator_eq : c.operator = c'.operator
  operands : List.Forall₂ Value.Alike c.operands c'.operands

namespace Operator

variable {v v' : Value} {ws ws' : List Value}

lemma orders_eq_of_alike (check : Ordering → Bool) (hv : v.Alike v')
    (hws : List.Forall₂ Value.Alike ws ws') : orders check v ws = orders check v' ws' := by
  cases hws with
  | nil => rfl
  | cons hw _ => rw [orders, orders, hv.compare_eq hw]

lemma relatesTexts_eq_of_alike (relation : List Char → List Char → Bool) (hv : v.Alike v')
    (hws : List.Forall₂ Value.Alike ws ws') :
    relatesTexts relation v ws = relatesTexts relation v' ws' := by
  cases hws with
  | nil => rfl
  | cons hw _ => rw [relatesTexts, relatesTexts, hv.asText?_eq, hw.asText?_eq]

lemma any_agrees_eq_of_alike (hv : v.Alike v') (hws : List.Forall₂ Value.Alike ws ws') :
    (ws.any fun w => v.agrees w) = ws'.any fun w => v'.agrees w := by
  induction hws with
  | nil => rfl
  | cons hw _ ih => rw [List.any_cons, List.any_cons, hv.agrees_eq hw, ih]

/-- **No operator tells values that agree apart**, on either side. -/
theorem test_eq_of_alike (op : Operator) (hv : v.Alike v')
    (hws : List.Forall₂ Value.Alike ws ws') : op.test v ws = op.test v' ws' := by
  cases op with
  | eq =>
      cases hws with
      | nil => rfl
      | cons hw _ => exact hv.agrees_eq hw
  | ne =>
      cases hws with
      | nil => rfl
      | cons hw _ => exact congrArg Bool.not (hv.agrees_eq hw)
  | le => exact orders_eq_of_alike _ hv hws
  | lt => exact orders_eq_of_alike _ hv hws
  | ge => exact orders_eq_of_alike _ hv hws
  | gt => exact orders_eq_of_alike _ hv hws
  | notNull => rw [test, test, hv.isNull_eq]
  | null => exact hv.isNull_eq
  | contains => rw [test, test, relatesTexts_eq_of_alike _ hv hws]
  | notContains => rw [test, test, relatesTexts_eq_of_alike _ hv hws]
  | beginsWith => rw [test, test, relatesTexts_eq_of_alike _ hv hws]
  | isIn => exact any_agrees_eq_of_alike hv hws
  | between =>
      match hws with
      | .nil => rfl
      | .cons _ .nil => rfl
      | .cons hlow (.cons hhigh _) =>
          rw [test, test, orders_eq_of_alike _ hv (.cons hlow .nil),
            orders_eq_of_alike _ hv (.cons hhigh .nil)]
  | unknown name => rfl

end Operator

namespace Condition

variable {c c' : Condition}

lemma Alike.holds_eq (hc : c.Alike c') {v v' : Option Value} (hv : Option.Rel Value.Alike v v') :
    c.holds v = c'.holds v' := by
  cases hv with
  | none => rfl
  | some h =>
      rw [holds, holds, ← hc.operator_eq]
      exact c.operator.test_eq_of_alike h hc.operands

lemma Alike.evaluate_eq (hc : c.Alike c') {v v' : Option Value}
    (hv : Option.Rel Value.Alike v v') : c.evaluate v = c'.evaluate v' := by
  cases hop : c.operator.isSupported with
  | true =>
      have hop' : c'.operator.isSupported = true := hc.operator_eq ▸ hop
      rw [evaluate_eq_holds hop, evaluate_eq_holds hop', hc.holds_eq hv]
  | false =>
      obtain ⟨operator, operands⟩ := c
      obtain ⟨operator', operands'⟩ := c'
      obtain ⟨rfl, _⟩ := hc
      cases operator <;> first | rfl | cases hop

/-- A condition on valid operands agrees with itself. -/
lemma Checked.alike_self (h : c.Checked) : c.Alike c :=
  ⟨rfl, List.forall₂_same.mpr fun v hv => Value.agrees_self (h.valid v hv)⟩

end Condition

/-! ## Items -/

namespace Item

/-- The same attributes, with values that agree. -/
def Alike (a b : Item) : Prop :=
  Entrywise Value.Alike a.entries b.entries

variable {a b : Item}

lemma Alike.get? (h : Alike a b) (name : String) :
    Option.Rel Value.Alike (a.get? name) (b.get? name) :=
  Entrywise.lookup h name

lemma Alike.names_eq (h : Alike a b) : a.names = b.names :=
  Entrywise.map_fst h

lemma Alike.size_eq (h : Alike a b) : a.size = b.size := by
  rw [NameMap.size_eq_length_names, NameMap.size_eq_length_names, h.names_eq]

lemma Alike.isEmpty_eq (h : Alike a b) : a.isEmpty = b.isEmpty := by
  have hsize : a.entries.length = b.entries.length := h.size_eq
  rw [NameMap.isEmpty, NameMap.isEmpty, Bool.eq_iff_iff, List.isEmpty_iff_length_eq_zero,
    List.isEmpty_iff_length_eq_zero, hsize]

lemma Alike.restrict (h : Alike a b) (keep : String → Bool) :
    Alike (a.restrict keep) (b.restrict keep) :=
  Entrywise.filter h keep

lemma Alike.project (h : Alike a b) (attributes : List String) :
    Alike (a.project attributes) (b.project attributes) := by
  rw [Item.project, Item.project]
  split
  · exact h
  · exact h.restrict _

end Item

/-- Changes that set values that agree, or both remove. -/
inductive Change.Alike : Change → Change → Prop
  | set {v w : Value} (h : v.Alike w) : Alike (.set v) (.set w)
  | remove : Alike .remove .remove

/-- Changes keep items alike. -/
lemma Item.Alike.change {a b : Item} (h : Item.Alike a b) {cs cs' : List (String × Change)}
    (hcs : Entrywise Change.Alike cs cs') : Item.Alike (a.change cs) (b.change cs') := by
  rw [Item.change, Item.change]
  induction hcs generalizing a b with
  | nil => exact h
  | @cons c c' _ _ hc _ ih =>
      obtain ⟨name, change⟩ := c
      obtain ⟨name', change'⟩ := c'
      obtain ⟨rfl, hchange⟩ := hc
      rw [List.foldl_cons, List.foldl_cons]
      cases hchange with
      | set hv => exact ih (Entrywise.insertEntry h name hv)
      | remove => exact ih (Entrywise.filter h fun other => other != name)

/-! ## Conditions on items -/

namespace Combinator

variable {a b : Item} {cs cs' : List (String × Condition)}

lemma everyHolds_eq_of_alike (h : Item.Alike a b) (hcs : Entrywise Condition.Alike cs cs') :
    everyHolds a cs = everyHolds b cs' := by
  induction hcs with
  | nil => rfl
  | cons hc _ ih =>
      rw [everyHolds, everyHolds, hc.2.evaluate_eq (h.get? _), hc.1, ih]

lemma someHolds_eq_of_alike (h : Item.Alike a b) (hcs : Entrywise Condition.Alike cs cs') :
    someHolds a cs = someHolds b cs' := by
  induction hcs with
  | nil => rfl
  | cons hc _ ih =>
      rw [someHolds, someHolds, hc.2.evaluate_eq (h.get? _), hc.1, ih]

/-- **Alike items meet the same conditions**, and conditions on values that agree are met by the
same items. -/
theorem evaluate_eq_of_alike (combinator : Combinator) (h : Item.Alike a b)
    (hcs : Entrywise Condition.Alike cs cs') :
    combinator.evaluate cs a = combinator.evaluate cs' b := by
  cases combinator with
  | all => exact everyHolds_eq_of_alike h hcs
  | any =>
      have hempty : cs.isEmpty = cs'.isEmpty := by cases hcs <;> rfl
      rw [evaluate, evaluate, hempty, someHolds_eq_of_alike h hcs]

end Combinator

end ItemStore
