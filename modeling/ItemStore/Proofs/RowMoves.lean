import ItemStore.Proofs.Rows
import Mathlib.Algebra.Order.Group.Multiset

/-!
# Writes exchange one row for another

`ItemStore.Proofs.Rows` reads the three writes as updates of a map, which takes rows with unique
keys.  Some things hold of the list of rows whatever stands in it, be it two rows with one key or
numbers that are none: at most one row goes, the first that matches the key, and at most one comes.
All other rows stay, and at most the last of them moves.

* `Exchanged` — one list comes from another by taking out an element and adding one, in any order;
  multisets, lengths and sums follow from this alone.
* `getElem?_swapRemove` — the last element moves into the gap, even where it is the gap itself.
* `RowWrite.perform` — a write together with the rows that its work leaves, also where it fails;
  `RowWrite.placeAfter` — where it leaves a row that it does not take out.
* **`RowWrite.perform_spec`** — a write that has a key is such an exchange, and one without leaves
  the rows as they are.
-/

namespace ItemStore

/-! ## Exchanging an element of a list -/

/-- The elements of `items'` are those of `items`, less `old` and with `new`. -/
structure Exchanged {α : Type} (items items' : List α) (old new : Option α) : Prop where
  mem : ∀ a ∈ old, a ∈ items
  perm : (items' ++ old.toList).Perm (items ++ new.toList)

namespace Exchanged

variable {α : Type} {items items' : List α} {old new : Option α}

lemma coe_eq [DecidableEq α] (h : Exchanged items items' old new) :
    (items' : Multiset α) = (items : Multiset α) - (old.toList : Multiset α) + new.toList := by
  have hle : (old.toList : Multiset α) ≤ items := by
    cases old with
    | none => exact Multiset.zero_le _
    | some a => exact Multiset.singleton_le.mpr (h.mem a rfl)
  have hperm : (items' : Multiset α) + old.toList = (items : Multiset α) + new.toList :=
    Multiset.coe_eq_coe.mpr h.perm
  rw [tsub_add_eq_add_tsub hle, ← hperm, add_tsub_cancel_right]

lemma length_eq (h : Exchanged items items' old new) :
    items'.length + old.toList.length = items.length + new.toList.length := by
  simpa only [List.length_append] using h.perm.length_eq

lemma sum_eq (h : Exchanged items items' old new) (size : α → ℕ) :
    (items'.map size).sum + (old.toList.map size).sum
      = (items.map size).sum + (new.toList.map size).sum := by
  simpa only [List.map_append, List.sum_append] using (h.perm.map size).sum_eq

lemma refl (items : List α) : Exchanged items items none none :=
  ⟨nofun, List.Perm.refl _⟩

/-- Whatever has gone, something comes. -/
lemma concat (h : Exchanged items items' old none) (b : α) :
    Exchanged items (items' ++ [b]) old (some b) := by
  refine ⟨h.mem, ?_⟩
  have hperm : (items' ++ old.toList).Perm items := by simpa using h.perm
  calc List.Perm (items' ++ [b] ++ old.toList) (items' ++ old.toList ++ [b]) := by
        rw [List.append_assoc, List.append_assoc]
        exact List.perm_append_comm.append_left items'
    List.Perm _ (items ++ [b]) := hperm.append_right [b]

section Gap

variable {i : ℕ} {a : α} (ha : items[i]? = some a)

include ha

lemma perm_cons_eraseIdx : items.Perm (a :: items.eraseIdx i) := by
  obtain ⟨hi, rfl⟩ := List.getElem?_eq_some_iff.mp ha
  exact (List.getElem_cons_eraseIdx_perm hi).symm

/-- Something goes, and the last element moves into the gap. -/
lemma swapRemove : Exchanged items (swapRemove i items) (some a) none := by
  have hi := (List.getElem?_eq_some_iff.mp ha).1
  refine ⟨fun b hb => Option.some.inj hb ▸ List.mem_of_getElem? ha, ?_⟩
  rw [Option.toList_none, List.append_nil]
  calc List.Perm (ItemStore.swapRemove i items ++ [a]) (items.eraseIdx i ++ [a]) :=
        (swapRemove_perm hi).append_right [a]
    List.Perm _ (a :: items.eraseIdx i) := List.perm_append_singleton a _
    List.Perm _ items := (perm_cons_eraseIdx ha).symm

/-- Something goes, and something else comes in its place. -/
lemma set (b : α) : Exchanged items (items.set i b) (some a) (some b) := by
  have hi := (List.getElem?_eq_some_iff.mp ha).1
  refine ⟨fun c hc => Option.some.inj hc ▸ List.mem_of_getElem? ha, ?_⟩
  calc List.Perm (items.set i b ++ [a]) (a :: b :: items.eraseIdx i) :=
        (List.perm_append_singleton a _).trans ((List.set_perm_cons_eraseIdx hi b).cons a)
    List.Perm _ (b :: a :: items.eraseIdx i) := List.Perm.swap b a _
    List.Perm _ (items ++ [b]) :=
        ((perm_cons_eraseIdx ha).symm.cons b).trans (List.perm_append_singleton b _).symm

end Gap

end Exchanged

/-- **The last element moves into the gap**, and everything else stays; where the last element is
itself taken out, nothing moves. -/
lemma getElem?_swapRemove {α : Type} {items : List α} {i : ℕ} (h : i < items.length) (j : ℕ) :
    (swapRemove i items)[j]?
      = if j + 1 < items.length then (if j = i then items.getLast? else items[j]?) else none := by
  obtain ⟨last, hlast⟩ : ∃ last, items.getLast? = some last :=
    ⟨_, List.getLast?_eq_some_getLast (List.ne_nil_of_length_pos (by omega))⟩
  simp only [swapRemove, hlast, List.getElem?_dropLast, List.length_set, List.getElem?_set]
  split_ifs <;> first | rfl | omega

namespace Rows

variable {t : Rows} {key : PrimaryKey} {j : ℕ} {item : Item}

/-- The rows without the one at a gap, into which the last one moves. -/
def without (t : Rows) : Option ℕ → List Item
  | some i => swapRemove i t.items
  | none => t.items

/-- The rows with an item in the gap, or at the end where there is none. -/
def withAt (t : Rows) (item : Item) : Option ℕ → List Item
  | some i => t.items.set i item
  | none => t.items ++ [item]

/-- The row that stands where the first match stands is the first match. -/
lemma get?_of_position?_eq_some {i : ℕ} (h : t.position? key = some i) :
    t.items[i]? = t.get? key ∧ ∃ old, t.get? key = some old := by
  have hget : t.items[i]? = t.get? key := getElem?_eq_find? h
  have hi : i < t.items.length := lt_length_of_findIdx? h
  exact ⟨hget, t.items[i], hget.symm.trans (List.getElem?_eq_getElem hi)⟩

lemma get?_of_position?_eq_none (h : t.position? key = none) : t.get? key = none :=
  List.find?_eq_none.mpr fun item hitem => by simp [List.findIdx?_eq_none_iff.mp h item hitem]

lemma exchanged_without (t : Rows) (key : PrimaryKey) :
    Exchanged t.items (t.without (t.position? key)) (t.get? key) none := by
  cases hgap : t.position? key with
  | none =>
      rw [get?_of_position?_eq_none hgap]
      exact .refl t.items
  | some i =>
      obtain ⟨hget, old, hold⟩ := get?_of_position?_eq_some hgap
      rw [hold]
      exact .swapRemove (hget.trans hold)

lemma exchanged_withAt (t : Rows) (key : PrimaryKey) (item : Item) :
    Exchanged t.items (t.withAt item (t.position? key)) (t.get? key) (some item) := by
  cases hgap : t.position? key with
  | none =>
      rw [get?_of_position?_eq_none hgap]
      exact (Exchanged.refl t.items).concat item
  | some i =>
      obtain ⟨hget, old, hold⟩ := get?_of_position?_eq_some hgap
      rw [hold]
      exact .set (hget.trans hold) item

/-- Of the rows that stay, the last one moves into the gap. -/
lemma getElem?_without (hgap : t.position? key ≠ some j) (hitem : t.items[j]? = some item) :
    (t.without (t.position? key))[if j + 1 = t.count then (t.position? key).getD j else j]?
      = some item := by
  cases hposition : t.position? key with
  | none => rwa [Option.getD_none, ite_self]
  | some i =>
      have hi : i < t.items.length := lt_length_of_findIdx? hposition
      have hj : j < t.items.length := (List.getElem?_eq_some_iff.mp hitem).1
      have hij : i ≠ j := fun heq => hgap (heq ▸ hposition)
      rw [without, Option.getD_some, getElem?_swapRemove hi, count]
      by_cases hlast : j + 1 = t.items.length
      · rw [if_pos hlast, if_pos (by omega), if_pos rfl, List.getLast?_eq_getElem?, ← hlast,
          Nat.add_sub_cancel, hitem]
      · rw [if_neg hlast, if_pos (by omega), if_neg (Ne.symm hij), hitem]

/-- What is added last moves nothing. -/
lemma getElem?_append_of_eq_some {items more : List Item} (h : items[j]? = some item) :
    (items ++ more)[j]? = some item := by
  rw [List.getElem?_append_left (List.getElem?_eq_some_iff.mp h).1, h]

lemma getElem?_withAt (hgap : t.position? key ≠ some j) (hitem : t.items[j]? = some item)
    (new : Item) : (t.withAt new (t.position? key))[j]? = some item := by
  cases hposition : t.position? key with
  | none => exact getElem?_append_of_eq_some hitem
  | some i =>
      have hij : i ≠ j := fun heq => hgap (heq ▸ hposition)
      rw [withAt, List.getElem?_set_ne hij, hitem]

/-! ## The writes -/

lemma delete_eq (t : Rows) (key : PrimaryKey) :
    t.delete key = (t.get? key, { t with items := t.without (t.position? key) }) := by
  rw [delete]
  cases hgap : t.position? key with
  | none => rw [get?_of_position?_eq_none hgap, without]
  | some i => rw [← (get?_of_position?_eq_some hgap).1, without]

lemma put_of_key (hkey : t.primaryKey item = .ok key) :
    (put item).attempt t
      = .ok (t.get? key, { t with items := t.without (t.position? key) ++ [item] }) := by
  rw [attempt_put, hkey]
  simp only [bind, Except.bind, delete_eq]
  rfl

lemma update_of_key {seed : Item} (hkey : t.primaryKey seed = .ok key)
    (changes : List (String × Change)) :
    (update seed changes).attempt t
      = .ok ((t.get? key, ((t.get? key).getD seed).change changes),
          { t with items :=
              t.withAt (((t.get? key).getD seed).change changes) (t.position? key) }) := by
  rw [attempt_update, hkey]
  cases hgap : t.position? key with
  | none =>
      rw [get?_of_position?_eq_none hgap]
      simp [bind, Except.bind, pure, Except.pure, hgap, withAt]
  | some i =>
      rw [← (get?_of_position?_eq_some hgap).1]
      simp [bind, Except.bind, pure, Except.pure, hgap, withAt]

end Rows

/-- A write to the rows of a table. -/
inductive RowWrite where
  | put (item : Item)
  | delete (key : PrimaryKey)
  | update (key : Item) (changes : List (String × Change))

namespace RowWrite

/-- The key that a write looks for, or what is wrong with it. -/
def key (t : Rows) : RowWrite → Except KeyFault PrimaryKey
  | put item => t.primaryKey item
  | delete key => .ok key
  | update key _ => t.primaryKey key

/-- What a write leaves under its key, by what it finds there. -/
def leaves (old : Option Item) : RowWrite → Option Item
  | put item => some item
  | delete _ => none
  | update key changes => some ((old.getD key).change changes)

/-- The work of a write.  The outcome is the row that it takes out and the row that it adds. -/
def work : RowWrite → Work KeyFault Rows (Option Item × Option Item)
  | put item => do
    let old ← Rows.put item
    return (old, some item)
  | delete key => do
    let old ← modifyGet fun t => t.delete key
    return (old, none)
  | update key changes => do
    let (old, new) ← Rows.update key changes
    return (old, some new)

/-- Make a write.  The rows are those that its work leaves, also where it fails. -/
def perform (t : Rows) (w : RowWrite) : Except KeyFault (Option Item × Option Item) × Rows :=
  w.work.on t

/-- Where a row stands after a write, if it stood at `j` and was not the one at `gap` that the write
takes out.  An update moves nothing; the others move the last row into the gap. -/
def placeAfter (t : Rows) (gap : Option ℕ) (j : ℕ) : RowWrite → ℕ
  | put _ | delete _ => if j + 1 = t.count then gap.getD j else j
  | update _ _ => j

/-- What a write does that has a key. -/
structure Performed (w : RowWrite) (t : Rows) (key : PrimaryKey) (old new : Option Item)
    (t' : Rows) : Prop where
  /-- The row taken out is the first one with the key. -/
  old_eq : old = t.items.find? (t.keys.matchesKey key)
  new_eq : new = w.leaves old
  keys_eq : t'.keys = t.keys
  enforceTypes_eq : t'.enforceTypes = t.enforceTypes
  items_eq : (t'.items : Multiset Item) = (t.items : Multiset Item) - old.toList + new.toList
  others : ∀ j item, t.items[j]? = some item → t.position? key ≠ some j →
    t'.items[w.placeAfter t (t.position? key) j]? = some item
  count_eq : t'.count + old.toList.length = t.count + new.toList.length
  byteSize_eq : t'.byteSize + (old.toList.map Item.byteSize).sum
    = t.byteSize + (new.toList.map Item.byteSize).sum

/-- The rows after a write that has a key. -/
def itemsAfter (t : Rows) (key : PrimaryKey) : RowWrite → List Item
  | put item => t.without (t.position? key) ++ [item]
  | delete _ => t.without (t.position? key)
  | update seed changes => t.withAt (((t.get? key).getD seed).change changes) (t.position? key)

section

variable (w : RowWrite) (t : Rows) (key : PrimaryKey)

/-- A write takes out the first row with its key and adds what it leaves there. -/
lemma exchanged_itemsAfter :
    Exchanged t.items (w.itemsAfter t key) (t.get? key) (w.leaves (t.get? key)) := by
  cases w with
  | put item => exact (t.exchanged_without key).concat item
  | delete _ => exact t.exchanged_without key
  | update seed changes => exact t.exchanged_withAt key _

lemma getElem?_itemsAfter {j : ℕ} {item : Item} (hitem : t.items[j]? = some item)
    (hgap : t.position? key ≠ some j) :
    (w.itemsAfter t key)[w.placeAfter t (t.position? key) j]? = some item := by
  cases w with
  | put _ => exact Rows.getElem?_append_of_eq_some (Rows.getElem?_without hgap hitem)
  | delete _ => exact Rows.getElem?_without hgap hitem
  | update seed changes => exact Rows.getElem?_withAt hgap hitem _

/-- What a write does to multisets and counts follows from the exchange that it makes. -/
lemma performed_itemsAfter :
    w.Performed t key (t.get? key) (w.leaves (t.get? key))
      { t with items := w.itemsAfter t key } where
  old_eq := rfl
  new_eq := rfl
  keys_eq := rfl
  enforceTypes_eq := rfl
  items_eq := (w.exchanged_itemsAfter t key).coe_eq
  others _ _ := w.getElem?_itemsAfter t key
  count_eq := (w.exchanged_itemsAfter t key).length_eq
  byteSize_eq := (w.exchanged_itemsAfter t key).sum_eq Item.byteSize

end

/-- With a key, a write succeeds. -/
lemma attempt_work_of_key {t : Rows} {w : RowWrite} {key : PrimaryKey} (h : w.key t = .ok key) :
    w.work.attempt t
      = .ok ((t.get? key, w.leaves (t.get? key)), { t with items := w.itemsAfter t key }) := by
  cases w with
  | put item =>
      rw [work, Work.attempt_bind, Rows.put_of_key h]
      rfl
  | delete primary =>
      obtain rfl : primary = key := Except.ok.inj h
      rw [work, Work.attempt_modifyGet_bind, Rows.delete_eq]
      rfl
  | update seed changes =>
      rw [work, Work.attempt_bind, Rows.update_of_key h]
      rfl

/-- Without a key, a write fails. -/
lemma attempt_work_of_error {t : Rows} {w : RowWrite} {e : KeyFault} (h : w.key t = .error e) :
    w.work.attempt t = .error e := by
  cases w with
  | put item =>
      rw [work, Work.attempt_bind, Rows.attempt_put, show t.primaryKey item = .error e from h]
      rfl
  | delete key => cases h
  | update key changes =>
      rw [work, Work.attempt_bind, Rows.attempt_update, show t.primaryKey key = .error e from h]
      rfl

/-- The key is read before the rows are changed. -/
lemma work_atomic (w : RowWrite) : w.work.Atomic := by
  cases w with
  | put item => exact (Rows.put_atomic item).bind_sure fun _ => Work.sure_pure _
  | delete key => exact ((Work.sure_modifyGet _).bind fun _ => Work.sure_pure _).atomic
  | update key changes =>
      exact (Rows.update_atomic key changes).bind_sure fun _ => Work.sure_pure _

/-- **A write that has a key exchanges one row for another, and one that has none does nothing.**
The row taken out is the first one with the key. -/
theorem perform_spec (t : Rows) (w : RowWrite) :
    (∃ key old new t', w.key t = .ok key ∧ w.perform t = (.ok (old, new), t') ∧
      w.Performed t key old new t') ∨
      ∃ e, w.key t = .error e ∧ w.perform t = (.error e, t) := by
  cases hkey : w.key t with
  | error e =>
      refine Or.inr ⟨e, rfl, ?_⟩
      rw [perform, (work_atomic w).on_eq, attempt_work_of_error hkey]
  | ok key =>
      have hperform := Work.attempt_eq_ok.mp (attempt_work_of_key hkey)
      exact Or.inl ⟨key, _, _, _, rfl, hperform, w.performed_itemsAfter t key⟩

end RowWrite

end ItemStore
