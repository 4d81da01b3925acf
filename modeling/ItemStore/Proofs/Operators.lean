import ItemStore.Proofs.Selection
import ItemStore.Proofs.ValueOrder

/-!
# The algebra of operators

Equality is decided by `Decoded.same` and order by `Decoded.compare`, which are two recursions of
their own.  On valid values of one ordered type the two cohere, so exactly one of less, equal and
greater holds there, and the other operators of order are made up of these three.  On all other
pairs nothing is less, equal or greater by order, even where the values are the same.

* `Value.Ordered` — pairs of one of the types that have an order; `Value.Ordered.exists_compare` and
  `Value.compare_eq_none` say that these are the pairs that compare.
* `Operator.test_iff_eq_ofOrdering` — of less, equal and greater, the one that holds is the one that
  the comparison names.
* `occursIn_iff` — a text occurs in another if it stands there without a gap, so one that begins
  another occurs in it.
* `Combinator.evaluate_perm` — joined conditions may be listed in any order.
* **`Operator.evaluation_laws`** — all of it, for conditions as they are evaluated.
-/

namespace ItemStore

/-! ## Pairs that compare -/

namespace Value

variable {v w : Value}

/-- Two values of one of the types that have an order. -/
inductive Ordered : Value → Value → Prop
  | text (s t : String) : Ordered (.text s) (.text t)
  | number (m n : String) : Ordered (.number m) (.number n)
  | bool (a b : Bool) : Ordered (.bool a) (.bool b)

/-- Valid values of one ordered type compare.  Numbers need to be valid for it, since a NaN compares
with nothing. -/
lemma Ordered.exists_compare (h : v.Ordered w) (hv : v.Valid) (hw : w.Valid) :
    ∃ o, v.decode.compare w.decode = some o := by
  cases h with
  | text s t => exact ⟨_, rfl⟩
  | bool a b => exact ⟨_, rfl⟩
  | number m n =>
      obtain ⟨x, hx⟩ := Option.isSome_iff_exists.mp (Number.value?_read_isSome (valid_number.mp hv))
      obtain ⟨y, hy⟩ := Option.isSome_iff_exists.mp (Number.value?_read_isSome (valid_number.mp hw))
      refine ⟨cmp x y, Decoded.compare_eq_some.mpr ⟨.number x, .number y, ?_, ?_, rfl⟩⟩
      · rw [decode, Decoded.point?, hx, Option.map_some]
      · rw [decode, Decoded.point?, hy, Option.map_some]

/-- Other pairs do not compare. -/
lemma compare_eq_none (h : ¬ v.Ordered w) : v.decode.compare w.decode = none := by
  cases v <;> cases w <;> first | rfl | exact absurd (by constructor) h

/-- Where values compare, they agree if the comparison says so. -/
lemma agrees_eq_isEq {o : Ordering} (h : v.decode.compare w.decode = some o) :
    v.agrees w = o.isEq := by
  rw [Bool.eq_iff_iff, agrees, ← Decoded.eq_iff_same_of_compare h]
  cases o <;> simp

end Value

/-! ## Operators of order -/

namespace Operator

variable {v w : Value} {ws : List Value} {o : Ordering}

/-- The operator that holds of two values when they compare in some way. -/
def ofOrdering : Ordering → Operator
  | .lt => lt
  | .eq => eq
  | .gt => gt

lemma orders_eq (check : Ordering → Bool) (ws : List Value)
    (h : v.decode.compare w.decode = some o) : orders check v (w :: ws) = check o := by
  rw [orders, h, Option.map_some, Option.getD_some]

lemma orders_eq_false (check : Ordering → Bool) (ws : List Value)
    (h : v.decode.compare w.decode = none) : orders check v (w :: ws) = false := by
  rw [orders, h, Option.map_none, Option.getD_none]

/-- No operator of order holds of values that do not compare. -/
lemma test_eq_false_of_not_ordered (h : ¬ v.Ordered w) (ws : List Value) {op : Operator}
    (hop : op ∈ [lt, le, gt, ge]) : op.test v (w :: ws) = false := by
  have hnone := Value.compare_eq_none h
  simp only [List.mem_cons, List.not_mem_nil, or_false] at hop
  obtain rfl | rfl | rfl | rfl := hop <;> rw [test, orders_eq_false _ ws hnone]

/-- Of less, equal and greater, the one that holds is the one that the comparison names. -/
lemma test_iff_eq_ofOrdering (h : v.decode.compare w.decode = some o) {op : Operator}
    (hop : op ∈ [lt, eq, gt]) : op.test v (w :: ws) = true ↔ op = ofOrdering o := by
  have hlt : lt.test v (w :: ws) = o.isLT := orders_eq _ ws h
  have hgt : gt.test v (w :: ws) = o.isGT := orders_eq _ ws h
  have heq : eq.test v (w :: ws) = o.isEq := Value.agrees_eq_isEq h
  simp only [List.mem_cons, List.not_mem_nil, or_false] at hop
  obtain rfl | rfl | rfl := hop
  · rw [hlt]
    cases o <;> decide
  · rw [heq]
    cases o <;> decide
  · rw [hgt]
    cases o <;> decide

/-- **Exactly one** of less, equal and greater holds of values that compare. -/
lemma existsUnique_test (h : v.decode.compare w.decode = some o) :
    ∃! op, op ∈ [lt, eq, gt] ∧ op.test v (w :: ws) = true := by
  have hmem : ofOrdering o ∈ [lt, eq, gt] := by cases o <;> decide
  refine ⟨ofOrdering o, ⟨hmem, (test_iff_eq_ofOrdering h hmem).mpr rfl⟩, ?_⟩
  rintro op ⟨hop, htest⟩
  exact (test_iff_eq_ofOrdering h hop).mp htest

/-- An order with equality holds when the strict one does or the values agree. -/
lemma orders_eq_or (h : v.decode.compare w.decode = some o) (ws : List Value)
    {check strict : Ordering → Bool} (hcheck : ∀ o, check o = (strict o || o.isEq)) :
    orders check v (w :: ws) = (orders strict v (w :: ws) || eq.test v (w :: ws)) := by
  have heq : eq.test v (w :: ws) = o.isEq := Value.agrees_eq_isEq h
  rw [heq, orders_eq _ ws h, orders_eq _ ws h, hcheck]

/-! ## Missing operands -/

/-- How many operands an operator looks at, not counting the further alternatives of `isIn`. -/
def leastOperands : Operator → Nat
  | null | notNull | unknown _ => 0
  | between => 2
  | _ => 1

/-- An operator is false of every value when it lacks an operand. -/
lemma test_eq_false_of_length_lt {op : Operator} (h : ws.length < op.leastOperands) :
    op.test v ws = false := by
  match ws with
  | [] => cases op <;> first | rfl | cases h
  | [_] => cases op <;> first | rfl | simp [leastOperands] at h
  | _ :: _ :: _ => cases op <;> simp [leastOperands] at h

end Operator

/-! ## Operators on texts -/

/-- A text occurs in another if it stands there without a gap. -/
lemma occursIn_iff {part : List Char} : ∀ {whole : List Char},
    occursIn part whole = true ↔ part <:+: whole
  | [] => by rw [occursIn, List.isEmpty_iff, List.infix_nil]
  | c :: rest => by
      rw [occursIn, Bool.or_eq_true, List.isPrefixOf_iff_prefix, occursIn_iff, List.infix_cons_iff]

namespace Operator

variable {v w : Value} {ws : List Value}

lemma relatesTexts_eq_false (relation : List Char → List Char → Bool) (ws : List Value)
    (h : ¬ ∃ s t, v = .text s ∧ w = .text t) : relatesTexts relation v (w :: ws) = false := by
  cases v <;> first | rfl | skip
  cases w <;> first | rfl | exact absurd ⟨_, _, rfl, rfl⟩ h

/-- No operator on texts holds of other values, not even the negative one. -/
lemma test_eq_false_of_not_texts (h : ¬ ∃ s t, v = .text s ∧ w = .text t) (ws : List Value)
    {op : Operator} (hop : op ∈ [contains, notContains, beginsWith]) :
    op.test v (w :: ws) = false := by
  simp only [List.mem_cons, List.not_mem_nil, or_false] at hop
  obtain rfl | rfl | rfl := hop <;> rw [test, relatesTexts_eq_false _ ws h]

/-- A text that begins another occurs in it. -/
lemma contains_of_beginsWith (h : beginsWith.test v (w :: ws) = true) :
    contains.test v (w :: ws) = true := by
  by_cases htexts : ∃ s t, v = .text s ∧ w = .text t
  · obtain ⟨s, t, rfl, rfl⟩ := htexts
    have hprefix : t.toList <+: s.toList := List.isPrefixOf_iff_prefix.mp h
    exact occursIn_iff.mpr hprefix.isInfix
  · rw [test, relatesTexts_eq_false _ ws htexts] at h
    cases h

end Operator

/-! ## Lists of conditions -/

namespace Combinator

variable {conditions conditions' : List (String × Condition)}

lemma evaluate_all_eq_true (h : ∀ e ∈ conditions, e.2.operator.isSupported = true) (item : Item) :
    all.evaluate conditions item = .ok true ↔
      ∀ e ∈ conditions, e.2.evaluate (item.get? e.1) = .ok true := by
  rw [evaluate_eq_holds h, holds, Except.ok.injEq, List.all_eq_true]
  refine forall₂_congr fun e he => ?_
  rw [Condition.evaluate_eq_holds (h e he), Condition.holdsIn, Except.ok.injEq]

lemma evaluate_any_eq_true (h : ∀ e ∈ conditions, e.2.operator.isSupported = true) (item : Item) :
    any.evaluate conditions item = .ok true ↔
      conditions = [] ∨ ∃ e ∈ conditions, e.2.evaluate (item.get? e.1) = .ok true := by
  rw [evaluate_eq_holds h, holds, Except.ok.injEq, Bool.or_eq_true, List.isEmpty_iff,
    List.any_eq_true]
  refine or_congr_right (exists_congr fun e => and_congr_right fun he => ?_)
  rw [Condition.evaluate_eq_holds (h e he), Condition.holdsIn, Except.ok.injEq]

lemma holds_perm (h : conditions.Perm conditions') (combinator : Combinator) (item : Item) :
    combinator.holds conditions item = combinator.holds conditions' item := by
  cases combinator with
  | all => exact h.all_eq
  | any => rw [holds, holds, h.any_eq, h.isEmpty_eq]

/-- Joined conditions may be listed in any order: where the search stops makes no difference. -/
lemma evaluate_perm (h : ∀ e ∈ conditions, e.2.operator.isSupported = true)
    (hperm : conditions.Perm conditions') (combinator : Combinator) (item : Item) :
    combinator.evaluate conditions item = combinator.evaluate conditions' item := by
  have h' : ∀ e ∈ conditions', e.2.operator.isSupported = true := fun e he =>
    h e (hperm.mem_iff.mpr he)
  rw [evaluate_eq_holds h, evaluate_eq_holds h', holds_perm hperm]

end Combinator

/-! ## The laws -/

namespace Operator

/-- **The algebra of operators.**  A condition with an operator that the store has evaluates to the
test of its operator, which is false if an operand is missing, and to false on a missing attribute.

* `ne` is the negation of `eq`, given an operand, and `null` that of `notNull`.
* On valid values of one ordered type exactly one of `lt`, `eq` and `gt` holds; `le` and `ge` are
  `lt` and `gt` or `eq`.  On all other pairs none of the four operators of order holds, even if the
  values agree.
* `between` is `ge` the one operand and `le` the other; `isIn` is `eq` to some operand.
* On texts `notContains` is the negation of `contains`, and a text contains what it begins with.
  Unless both values are texts these three operators are false.
* Conditions joined by `all` hold when each of them does, and joined by `any` when some do or when
  there are none; and they may be listed in any order. -/
theorem evaluation_laws (v w : Value) (ws : List Value) :
    (∀ (op : Operator) (operands : List Value), op.isSupported = true →
      (Condition.mk op operands).evaluate (some v) = .ok (op.test v operands) ∧
        (Condition.mk op operands).evaluate none = .ok false ∧
        (operands.length < op.leastOperands → op.test v operands = false)) ∧
      ne.test v (w :: ws) = !eq.test v (w :: ws) ∧
      null.test v ws = !notNull.test v ws ∧
      (v.Ordered w → v.Valid → w.Valid →
        (∃! op, op ∈ [lt, eq, gt] ∧ op.test v (w :: ws) = true) ∧
          le.test v (w :: ws) = (lt.test v (w :: ws) || eq.test v (w :: ws)) ∧
          ge.test v (w :: ws) = (gt.test v (w :: ws) || eq.test v (w :: ws))) ∧
      (¬ v.Ordered w → ∀ op ∈ [lt, le, gt, ge], op.test v (w :: ws) = false) ∧
      (∀ high, between.test v (w :: high :: ws) = (ge.test v [w] && le.test v [high])) ∧
      (isIn.test v ws = true ↔ ∃ u ∈ ws, eq.test v [u] = true) ∧
      ((∃ s t, v = .text s ∧ w = .text t) →
        notContains.test v (w :: ws) = !contains.test v (w :: ws) ∧
          (beginsWith.test v (w :: ws) = true → contains.test v (w :: ws) = true)) ∧
      ((¬ ∃ s t, v = .text s ∧ w = .text t) →
        ∀ op ∈ [contains, notContains, beginsWith], op.test v (w :: ws) = false) ∧
      ∀ (conditions : List (String × Condition)) (item : Item),
        (∀ e ∈ conditions, e.2.operator.isSupported = true) →
          (∀ combinator : Combinator, ∃ b, combinator.evaluate conditions item = .ok b ∧
            ∀ conditions', conditions.Perm conditions' →
              combinator.evaluate conditions' item = .ok b) ∧
          (Combinator.all.evaluate conditions item = .ok true ↔
            ∀ e ∈ conditions, e.2.evaluate (item.get? e.1) = .ok true) ∧
          (Combinator.any.evaluate conditions item = .ok true ↔
            conditions = [] ∨ ∃ e ∈ conditions, e.2.evaluate (item.get? e.1) = .ok true) := by
  refine ⟨?_, rfl, ?_, ?_, ?_, fun _ => rfl, List.any_eq_true, ?_, ?_, ?_⟩
  · intro op operands hop
    exact ⟨Condition.evaluate_eq_holds hop _, Condition.evaluate_eq_holds hop _,
      test_eq_false_of_length_lt⟩
  · rw [test, test, Bool.not_not]
  · intro hordered hv hw
    obtain ⟨o, ho⟩ := hordered.exists_compare hv hw
    refine ⟨existsUnique_test ho, orders_eq_or ho ws fun o => ?_, orders_eq_or ho ws fun o => ?_⟩
    · cases o <;> rfl
    · cases o <;> rfl
  · exact fun hordered op hop => test_eq_false_of_not_ordered hordered ws hop
  · rintro ⟨s, t, rfl, rfl⟩
    exact ⟨rfl, contains_of_beginsWith⟩
  · exact fun htexts op hop => test_eq_false_of_not_texts htexts ws hop
  · intro conditions item h
    refine ⟨fun combinator => ?_, Combinator.evaluate_all_eq_true h item,
      Combinator.evaluate_any_eq_true h item⟩
    refine ⟨combinator.holds conditions item, Combinator.evaluate_eq_holds h combinator item, ?_⟩
    intro conditions' hperm
    rw [← Combinator.evaluate_perm h hperm, Combinator.evaluate_eq_holds h]

/-- Two numbers around `2 ^ 53`, two nulls, a range without its upper end, two texts, a text and a
number, and two conditions of which the second decides. -/
theorem evaluation_laws_sample :
    (∃! op, op ∈ [lt, eq, gt] ∧
      op.test (.number "9007199254740993") [.number "9007199254740992.0"] = true) ∧
      (eq.test .null [.null] = true ∧ le.test .null [.null] = false) ∧
      between.test (.number "5") [.number "3"] = false ∧
      contains.test (.text "third") [.text "th"] = true ∧
      notContains.test (.text "third") [.number "3"] = false ∧
      Combinator.any.evaluate
        [("note", ⟨lt, [.text "th"]⟩), ("note", ⟨beginsWith, [.text "th"]⟩)]
        (.ofList [("note", .text "third")]) = .ok true := by
  have hnumbers := evaluation_laws (.number "9007199254740993") (.number "9007199254740992.0") []
  have hnulls := evaluation_laws .null .null []
  have hrange := evaluation_laws (.number "5") (.number "3") []
  have htexts := evaluation_laws (.text "third") (.text "th") []
  have hmixed := evaluation_laws (.text "third") (.number "3") []
  obtain ⟨_, _, _, hordered, _⟩ := hnumbers
  obtain ⟨_, _, _, _, hunordered, _⟩ := hnulls
  obtain ⟨_, _, _, _, _, _, _, hbegins, _, hconditions⟩ := htexts
  obtain ⟨_, _, _, _, _, _, _, _, hfalse, _⟩ := hmixed
  refine ⟨?_, ⟨by decide +kernel, ?_⟩, ?_, ?_, ?_, ?_⟩
  · refine (hordered (.number _ _) ?_ ?_).1 <;> rw [Value.valid_number] <;> decide +kernel
  · refine hunordered ?_ le (by decide)
    rintro ⟨⟩
  · exact (hrange.1 between [.number "3"] rfl).2.2 (by decide)
  · exact (hbegins ⟨_, _, rfl, rfl⟩).2 (by decide +kernel)
  · refine hfalse ?_ notContains (by decide)
    rintro ⟨_, _, _, hw⟩
    cases hw
  · obtain ⟨_, _, hany⟩ := hconditions
      [("note", ⟨lt, [.text "th"]⟩), ("note", ⟨beginsWith, [.text "th"]⟩)]
      (.ofList [("note", .text "third")]) (by decide)
    exact hany.mpr (.inr ⟨("note", ⟨beginsWith, [.text "th"]⟩), by decide, by decide +kernel⟩)

end Operator

end ItemStore
