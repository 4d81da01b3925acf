import ItemStore.Proofs.AlikeItems
import ItemStore.Proofs.Rows

/-!
# Rows that are alike

Two sets of rows are alike when they have alike items at the same places.  A key that is sought in
both is found at the same place, or in neither, since alike items have the same key.  So each
operation does to both the same thing at the same place, and they stay alike.

* `KeySchema.keyOf_alike`, `KeySchema.matchesKey_eq_of_alike` — keys of alike items.
* `swapRemove_rel`, `selectRows_alike` — lists of rows.
* **`Rows.Alike.put`**, **`Rows.Alike.delete`**, **`Rows.Alike.update`** — the writes.
* `KeyQuery.Alike` — queries that ask for the same rows.
-/

namespace ItemStore

/-! ## Lists with related elements -/

section

variable {α β : Type} {R : α → α → Prop} {as bs : List α} {a b : α}

lemma getElem?_rel (h : List.Forall₂ R as bs) (i : ℕ) : Option.Rel R as[i]? bs[i]? := by
  induction h generalizing i with
  | nil => exact .none
  | cons hab _ ih =>
      cases i with
      | zero => exact .some hab
      | succ i => exact ih i

lemma getLast?_rel (h : List.Forall₂ R as bs) : Option.Rel R as.getLast? bs.getLast? := by
  rw [List.getLast?_eq_getElem?, List.getLast?_eq_getElem?, h.length_eq]
  exact getElem?_rel h _

lemma set_rel (h : List.Forall₂ R as bs) (i : ℕ) (hab : R a b) :
    List.Forall₂ R (as.set i a) (bs.set i b) := by
  induction h generalizing i with
  | nil => exact .nil
  | cons hfirst hrest ih =>
      cases i with
      | zero => exact .cons hab hrest
      | succ i => exact .cons hfirst (ih i)

/-- Moving the last row into a gap keeps rows related. -/
lemma swapRemove_rel (h : List.Forall₂ R as bs) (i : ℕ) :
    List.Forall₂ R (swapRemove i as) (swapRemove i bs) := by
  have hlast := getLast?_rel h
  rw [swapRemove, swapRemove]
  generalize as.getLast? = last, bs.getLast? = last' at hlast
  cases hlast with
  | none => exact .nil
  | some hab =>
      have hset := set_rel h i hab
      dsimp only
      rw [List.dropLast_eq_take, List.dropLast_eq_take, hset.length_eq]
      exact List.forall₂_take _ hset

section

variable {p q : α → Bool} (hpq : ∀ a b, R a b → p a = q b)

include hpq

lemma findIdx?_eq_of_rel (h : List.Forall₂ R as bs) : as.findIdx? p = bs.findIdx? q := by
  induction h with
  | nil => rfl
  | cons hab _ ih => rw [List.findIdx?_cons, List.findIdx?_cons, hpq _ _ hab, ih]

lemma find?_rel (h : List.Forall₂ R as bs) : Option.Rel R (as.find? p) (bs.find? q) := by
  induction h with
  | nil => exact .none
  | cons hab _ ih =>
      rw [List.find?_cons, List.find?_cons, hpq _ _ hab]
      split
      · exact .some hab
      · exact ih

end

end

/-- Both parts are related. -/
def Both {α β : Type} (R : α → α → Prop) (S : β → β → Prop) (x y : α × β) : Prop :=
  R x.1 y.1 ∧ S x.2 y.2

lemma Both.exists_of_eq {α β : Type} {S : β → β → Prop} {x y : α × β} (h : Both (· = ·) S x y) :
    ∃ a b b', x = (a, b) ∧ y = (a, b') ∧ S b b' :=
  ⟨x.1, x.2, y.2, rfl, Prod.ext h.1.symm rfl, h.2⟩

/-- Selecting by tests that do not tell related rows apart. -/
lemma selectRows_alike {ε : Type} {test test' : Item → Except ε Bool}
    (htest : ∀ a b, Item.Alike a b → test a = test' b) {rows rows' : List Item}
    (h : List.Forall₂ Item.Alike rows rows') :
    SameOutcome (List.Forall₂ Item.Alike) (selectRows test rows) (selectRows test' rows') := by
  induction h with
  | nil => exact .ok .nil
  | cons hab _ ih =>
      rw [selectRows, selectRows, htest _ _ hab]
      refine .bind_same _ fun keep => ih.bind fun kept kept' hkept => .ok ?_
      cases keep
      · exact hkept
      · exact .cons hab hkept

/-! ## Keys -/

/-- Values that agree, with as many parts. -/
structure PrimaryKey.Alike (key key' : PrimaryKey) : Prop where
  hash : key.hash.Alike key'.hash
  range : Option.Rel Value.Alike key.range key'.range

section

variable {a b : Item}

lemma KeyAttribute.valueIn_alike (part : KeyAttribute) (enforce : Bool) (h : Item.Alike a b) :
    SameOutcome Value.Alike (part.valueIn enforce a) (part.valueIn enforce b) := by
  have hget := h.get? part.name
  rw [valueIn, valueIn]
  generalize a.get? part.name = v, b.get? part.name = w at hget
  cases hget with
  | none => exact .error _
  | some hvw =>
      cases part.type with
      | none => exact .ok hvw
      | some type =>
          dsimp only
          rw [hvw.fits_eq, hvw.typeTag_eq]
          split
          · exact .error _
          · exact .ok hvw

lemma KeyAttribute.agreesIn_eq_of_alike (part : KeyAttribute) (h : Item.Alike a b) {v w : Value}
    (hvw : v.Alike w) : part.agreesIn a v = part.agreesIn b w := by
  have hget := h.get? part.name
  rw [agreesIn, agreesIn]
  generalize a.get? part.name = v', b.get? part.name = w' at hget
  cases hget with
  | none => rfl
  | some hab => exact hab.agrees_eq hvw

namespace KeySchema

/-- **Alike items have alike keys**, or the same is wrong with both. -/
theorem keyOf_alike (k : KeySchema) (enforce : Bool) (h : Item.Alike a b) :
    SameOutcome PrimaryKey.Alike (k.keyOf enforce a) (k.keyOf enforce b) := by
  rw [keyOf, keyOf]
  refine (k.hash.valueIn_alike enforce h).bind fun v w hvw => ?_
  cases k.range with
  | none => exact .ok ⟨hvw, .none⟩
  | some part =>
      exact (part.valueIn_alike enforce h).bind fun v' w' hvw' => .ok ⟨hvw, .some hvw'⟩

/-- **Alike keys match alike items.** -/
theorem matchesKey_eq_of_alike (k : KeySchema) {key key' : PrimaryKey} (hkey : key.Alike key')
    (h : Item.Alike a b) : k.matchesKey key a = k.matchesKey key' b := by
  obtain ⟨hash, range⟩ := key
  obtain ⟨hash', range'⟩ := key'
  obtain ⟨hhash, hrange⟩ := hkey
  rw [matchesKey, matchesKey, k.hash.agreesIn_eq_of_alike h hhash]
  congr 1
  cases hrange with
  | none => cases k.range <;> rfl
  | some hvw =>
      cases k.range with
      | none => rfl
      | some part => exact part.agreesIn_eq_of_alike h hvw

end KeySchema

end

/-! ## Rows -/

namespace Rows

/-- Rows under the same keys, with alike items at the same places. -/
structure Alike (t t' : Rows) : Prop where
  keys_eq : t.keys = t'.keys
  enforceTypes_eq : t.enforceTypes = t'.enforceTypes
  items : List.Forall₂ Item.Alike t.items t'.items

variable {t t' : Rows} {item item' : Item} {key key' : PrimaryKey}

lemma Alike.withItems (h : Alike t t') {items items' : List Item}
    (hitems : List.Forall₂ Item.Alike items items') :
    Alike { t with items } { t' with items := items' } :=
  ⟨h.keys_eq, h.enforceTypes_eq, hitems⟩

lemma Alike.count_eq (h : Alike t t') : t.count = t'.count :=
  h.items.length_eq

lemma Alike.primaryKey (h : Alike t t') (hitem : Item.Alike item item') :
    SameOutcome PrimaryKey.Alike (t.primaryKey item) (t'.primaryKey item') := by
  rw [Rows.primaryKey, Rows.primaryKey, h.keys_eq, h.enforceTypes_eq]
  exact t'.keys.keyOf_alike t'.enforceTypes hitem

/-- Alike keys are found at the same place. -/
lemma Alike.position?_eq (h : Alike t t') (hkey : key.Alike key') :
    t.position? key = t'.position? key' := by
  rw [position?, position?, h.keys_eq]
  exact findIdx?_eq_of_rel (fun _ _ => t'.keys.matchesKey_eq_of_alike hkey) h.items

lemma Alike.get? (h : Alike t t') (hkey : key.Alike key') :
    Option.Rel Item.Alike (t.get? key) (t'.get? key') := by
  rw [Rows.get?, Rows.get?, h.keys_eq]
  exact find?_rel (fun _ _ => t'.keys.matchesKey_eq_of_alike hkey) h.items

/-! ### Writes -/

/-- **Deleting alike keys** takes out alike items at the same place. -/
theorem Alike.delete (h : Alike t t') (hkey : key.Alike key') :
    Both (Option.Rel Item.Alike) Alike (t.delete key) (t'.delete key') := by
  rw [Rows.delete, Rows.delete, h.position?_eq hkey]
  cases t'.position? key' with
  | none => exact ⟨.none, h⟩
  | some i => exact ⟨getElem?_rel h.items i, h.withItems (swapRemove_rel h.items i)⟩

/-- **Putting alike items** replaces alike items at the same place. -/
theorem Alike.put (h : Alike t t') (hitem : Item.Alike item item') :
    SameOutcome (Both (Option.Rel Item.Alike) Alike) ((put item).attempt t)
      ((put item').attempt t') := by
  rw [attempt_put, attempt_put]
  refine (h.primaryKey hitem).bind fun key key' hkey => ?_
  obtain ⟨hold, hrest⟩ := h.delete hkey
  exact .ok ⟨hold, hrest.withItems (List.rel_append hrest.items (.cons hitem .nil))⟩

/-- **Updating under alike keys** changes alike items at the same place, or makes alike ones of the
keys. -/
theorem Alike.update (h : Alike t t') (hitem : Item.Alike item item')
    {changes changes' : List (String × Change)}
    (hchanges : Entrywise Change.Alike changes changes') :
    SameOutcome (Both (Both (Option.Rel Item.Alike) Item.Alike) Alike)
      ((update item changes).attempt t) ((update item' changes').attempt t') := by
  rw [attempt_update, attempt_update]
  refine (h.primaryKey hitem).bind fun key key' hkey => ?_
  rw [h.position?_eq hkey]
  cases t'.position? key' with
  | none =>
      have hnew := hitem.change hchanges
      exact .ok ⟨⟨.none, hnew⟩, h.withItems (List.rel_append h.items (.cons hnew .nil))⟩
  | some i =>
      have hold := getElem?_rel h.items i
      have hnew : Item.Alike ((t.items[i]?.getD item).change changes)
          ((t'.items[i]?.getD item').change changes') := by
        refine Item.Alike.change ?_ hchanges
        generalize t.items[i]? = old, t'.items[i]? = old' at hold
        cases hold with
        | none => exact hitem
        | some hitems => exact hitems
      exact .ok ⟨⟨hold, hnew⟩, h.withItems (set_rel h.items i hnew)⟩

end Rows

/-! ## Queries by key -/

/-- Queries that ask for the same rows. -/
structure KeyQuery.Alike (q q' : KeyQuery) : Prop where
  hashName_eq : q.hashName = q'.hashName
  hashValue : q.hashValue.Alike q'.hashValue
  range : Option.Rel (fun c c' => c.1 = c'.1 ∧ c.2.Alike c'.2) q.range q'.range

lemma KeyQuery.Alike.test_eq {q q' : KeyQuery} (hq : q.Alike q') {a b : Item}
    (h : Item.Alike a b) : q.test a = q'.test b := by
  obtain ⟨hashName, hashValue, range⟩ := q
  obtain ⟨hashName', hashValue', range'⟩ := q'
  obtain ⟨rfl, hvalue, hrange⟩ := hq
  have hget := h.get? hashName
  rw [KeyQuery.test, KeyQuery.test]
  dsimp only
  generalize a.get? hashName = v, b.get? hashName = w at hget
  cases hget with
  | none => rfl
  | some hvw =>
      dsimp only
      rw [hvw.agrees_eq hvalue]
      split
      · cases hrange with
        | none => rfl
        | @some c c' hc =>
            obtain ⟨name, c⟩ := c
            obtain ⟨name', c'⟩ := c'
            obtain ⟨rfl, hc⟩ := hc
            exact hc.evaluate_eq (h.get? name)
      · rfl

end ItemStore
