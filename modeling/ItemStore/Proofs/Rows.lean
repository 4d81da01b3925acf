import ItemStore.Proofs.Work
import ItemStore.Rows

/-!
# Rows under keys

Putting, removing and changing an item all look for the first row with a key, take it out or
overwrite it, and perhaps add a row.  Which rows move on the way is a matter of the implementation:
as long as no two rows have one key, each of the three leaves the rows under other keys alone and
settles what stands under its own.

* `Rows.Unique` — no two rows have the same key.
* `Rows.at?` and `Rows.others` — the row under the key of an item, and the rows under other keys.
* `Rows.Replaces` — one set of rows comes from another by settling what stands under one key.
  **`Rows.Replaces.at?_eq`** reads this as an update of a map.
* `Rows.put_spec`, `Rows.delete_spec`, `Rows.update_spec` — what the three writes return and leave;
  **`Rows.put_atomic`**, **`Rows.update_atomic`** — what they leave with a fault.
* `Rows.Sound` — the invariant of stored rows: unique keys, admitted key values, valid numbers.
-/

namespace ItemStore

/-! ## Lists with at most one match -/

section

variable {α : Type} {p : α → Bool} {items : List α}

/-- No two elements of a list pass a test. -/
def AtMostOne (p : α → Bool) (items : List α) : Prop :=
  items.Pairwise fun a b => ¬(p a = true ∧ p b = true)

/-- Taking out the first match takes out every match. -/
lemma eraseIdx_eq_filter : ∀ {items : List α} {i : ℕ}, AtMostOne p items →
    items.findIdx? p = some i → items.eraseIdx i = items.filter fun a => !p a
  | [], _, _, h => by simp at h
  | a :: rest, i, hone, h => by
      obtain ⟨hfirst, hrest⟩ := List.pairwise_cons.mp hone
      rw [List.findIdx?_cons] at h
      by_cases ha : p a = true
      · rw [if_pos ha, Option.some.injEq] at h
        subst h
        have hnone : ∀ b ∈ rest, (!p b) = true := fun b hb => by simpa [ha] using hfirst b hb
        simp [ha, List.filter_eq_self.mpr hnone]
      · rw [if_neg ha, Option.map_eq_some_iff] at h
        obtain ⟨j, hj, rfl⟩ := h
        simp [ha, eraseIdx_eq_filter hrest hj]

/-- The order of a list does not matter to a search with at most one match. -/
lemma find?_eq_of_perm {items' : List α} (hperm : items.Perm items') (hone : AtMostOne p items) :
    items.find? p = items'.find? p := by
  induction hperm with
  | nil => rfl
  | cons a _ ih => rw [List.find?_cons, List.find?_cons, ih (List.Pairwise.of_cons hone)]
  | swap a b rest =>
      have hab := (List.pairwise_cons.mp hone).1 a List.mem_cons_self
      simp only [List.find?_cons]
      cases ha : p a <;> cases hb : p b <;> simp_all
  | trans h _ ih ih' =>
      exact (ih hone).trans (ih' ((h.pairwise_iff fun hxy hyx => hxy hyx.symm).mp hone))

/-- What passes the test is the first element that does. -/
lemma filter_eq_find? (h : AtMostOne p items) : items.filter p = (items.find? p).toList := by
  induction items with
  | nil => rfl
  | cons a rest ih =>
      obtain ⟨hfirst, hrest⟩ := List.pairwise_cons.mp h
      rw [List.filter_cons, List.find?_cons]
      cases ha : p a with
      | false => exact ih hrest
      | true =>
          have hnone : ∀ b ∈ rest, ¬p b = true := fun b hb hpb => hfirst b hb ⟨ha, hpb⟩
          rw [if_pos rfl, List.filter_eq_nil_iff.mpr hnone]
          rfl

lemma getElem?_eq_find? {i : ℕ} (h : items.findIdx? p = some i) : items[i]? = items.find? p := by
  rw [List.find?_eq_getElem?_findIdx, (List.findIdx?_eq_some_iff_findIdx_eq.mp h).2]

lemma lt_length_of_findIdx? {i : ℕ} (h : items.findIdx? p = some i) : i < items.length :=
  (List.findIdx?_eq_some_iff_findIdx_eq.mp h).1

/-- Moving the last element into a gap only reorders what is left. -/
lemma swapRemove_perm {i : ℕ} (h : i < items.length) :
    (swapRemove i items).Perm (items.eraseIdx i) := by
  obtain ⟨front, last, rfl⟩ : ∃ front last, items = front ++ [last] :=
    (List.eq_nil_or_concat' items).resolve_left (List.ne_nil_of_length_pos (by omega))
  simp only [swapRemove, List.getLast?_append, List.getLast?_singleton, Option.some_or]
  rw [List.length_append, List.length_singleton] at h
  rcases Nat.lt_or_ge i front.length with hi | hi
  · rw [List.set_append_left i last hi, List.dropLast_concat, List.eraseIdx_append_of_lt_length hi]
    exact (List.set_perm_cons_eraseIdx hi last).trans (List.perm_append_singleton _ _).symm
  · obtain rfl : i = front.length := by omega
    simp [List.eraseIdx_append_of_length_le]

end

/-! ## Rows under keys -/

namespace Rows

variable {t t' : Rows} {key q item : Item}

/-- No two rows have the same key. -/
def Unique (t : Rows) : Prop := t.items.Pairwise fun a b => t.keys.sameKey a b = false

/-- The first row with the key of an item. -/
def at? (t : Rows) (key : Item) : Option Item := t.items.find? fun item => t.keys.sameKey item key

/-- The rows with other keys than that of an item. -/
def others (t : Rows) (key : Item) : List Item :=
  t.items.filter fun item => !t.keys.sameKey item key

lemma sameKey_of_at? (h : t.at? key = some item) : t.keys.sameKey item key = true := by
  simpa using List.find?_some h

lemma mem_of_at? (h : t.at? key = some item) : item ∈ t.items :=
  List.mem_of_find?_eq_some h

lemma Unique.atMostOne (h : t.Unique) (key : Item) :
    AtMostOne (fun item => t.keys.sameKey item key) t.items := by
  refine h.imp fun {a b} hab => ?_
  rintro ⟨ha, hb⟩
  have hb' : t.keys.sameKey key b = true := by rw [KeySchema.sameKey_comm]; exact hb
  rw [KeySchema.sameKey_trans ha hb'] at hab
  cases hab

/-- Only the key attributes count. -/
lemma at?_eq_of_get?_eq {key' : Item} (h : ∀ name ∈ t.keys.names, key.get? name = key'.get? name) :
    t.at? key = t.at? key' := by
  rw [at?, at?]
  congr 1
  funext item
  rw [KeySchema.sameKey_comm item key, KeySchema.sameKey_eq_of_get?_eq h, KeySchema.sameKey_comm]

/-- A row with a valid key is the one found under it. -/
lemma Unique.at?_eq_some (h : t.Unique) (hmem : item ∈ t.items)
    (hself : t.keys.sameKey item item = true) : t.at? item = some item := by
  obtain ⟨front, rest, hsplit⟩ := List.append_of_mem hmem
  rw [at?, List.find?_eq_some_iff_append, hsplit]
  refine ⟨hself, front, rest, rfl, fun a ha => ?_⟩
  rw [Unique, hsplit, List.pairwise_append] at h
  simp [h.2.2 a ha item List.mem_cons_self]

/-- Among the rows with other keys only other keys are found. -/
lemma find?_others (t : Rows) (key q : Item) :
    (t.others key).find? (fun item => t.keys.sameKey item q)
      = if t.keys.sameKey q key then none else t.at? q := by
  rw [others, at?]
  by_cases hq : t.keys.sameKey q key = true
  · rw [if_pos hq, List.find?_eq_none]
    intro item hitem
    rw [KeySchema.sameKey_congr hq]
    simpa using (List.mem_filter.mp hitem).2
  · rw [if_neg hq, List.find?_filter]
    congr 1
    funext item
    have hdiffer : t.keys.sameKey item q = true → t.keys.sameKey item key = false := by
      intro hitem
      rw [KeySchema.sameKey_comm] at hitem
      rw [Bool.eq_false_iff]
      exact fun hsame => hq (KeySchema.sameKey_trans hitem hsame)
    cases hitem : t.keys.sameKey item q <;> simp_all

section Key

variable {primary : PrimaryKey} (hkey : t.primaryKey key = .ok primary)

include hkey

lemma get?_eq_at? : t.get? primary = t.at? key := by
  rw [get?, at?]
  congr 1
  funext other
  exact KeySchema.matchesKey_eq hkey other

lemma position?_eq :
    t.position? primary = t.items.findIdx? fun item => t.keys.sameKey item key := by
  rw [position?]
  congr 1
  funext other
  exact KeySchema.matchesKey_eq hkey other

end Key

/-! ### Settling what stands under a key -/

/-- `t'` holds the rows of `t` under other keys than that of `key`, and `new` under that one. -/
structure Replaces (t t' : Rows) (key : Item) (new : Option Item) : Prop where
  keys_eq : t'.keys = t.keys
  enforceTypes_eq : t'.enforceTypes = t.enforceTypes
  perm : t'.items.Perm (t.others key ++ new.toList)

namespace Replaces

variable {new : Option Item}

lemma mem (h : Replaces t t' key new) (hmem : item ∈ t'.items) :
    item ∈ t.items ∨ new = some item := by
  rcases List.mem_append.mp (h.perm.mem_iff.mp hmem) with hold | hnew
  · exact Or.inl (List.mem_filter.mp hold).1
  · exact Or.inr (Option.mem_toList.mp hnew)

lemma unique (h : Replaces t t' key new) (hunique : t.Unique)
    (hnew : ∀ item, new = some item → t.keys.sameKey item key = true) : t'.Unique := by
  have hsymm : ∀ {a b : Item}, t.keys.sameKey a b = false → t.keys.sameKey b a = false :=
    fun {a b} hab => by rwa [KeySchema.sameKey_comm]
  rw [Unique, h.keys_eq, h.perm.pairwise_iff hsymm, List.pairwise_append]
  refine ⟨hunique.filter _, by cases new <;> simp, fun a ha b hb => ?_⟩
  have hb' := hnew b (Option.mem_toList.mp hb)
  rw [KeySchema.sameKey_congr hb']
  simpa using (List.mem_filter.mp ha).2

/-- **Settling what stands under one key updates the map from keys to rows**: under the key itself
stands the new row, under any other key what stood there before. -/
theorem at?_eq (h : Replaces t t' key new) (hunique : t.Unique)
    (hnew : ∀ item, new = some item → t.keys.sameKey item key = true) (q : Item) :
    t'.at? q = if t.keys.sameKey q key then new else t.at? q := by
  have hone := (h.unique hunique hnew).atMostOne q
  have hsingle : new.toList.find? (fun item => t.keys.sameKey item q)
      = if t.keys.sameKey q key then new else none := by
    cases hn : new with
    | none => simp
    | some item =>
        rw [← KeySchema.sameKey_congr (hnew item hn), KeySchema.sameKey_comm q item]
        simp [List.find?_cons, apply_ite]
        cases t.keys.sameKey item q <;> rfl
  rw [at?, find?_eq_of_perm h.perm hone, h.keys_eq, List.find?_append, find?_others, hsingle]
  cases t.keys.sameKey q key
  · simp
  · simp

end Replaces

/-! ### The three writes -/

/-- A key that no row has leaves all rows among the others. -/
lemma others_eq_items (h : t.items.findIdx? (fun item => t.keys.sameKey item key) = none) :
    t.others key = t.items := by
  rw [List.findIdx?_eq_none_iff] at h
  exact List.filter_eq_self.mpr fun item hitem => by simp [h item hitem]

lemma at?_eq_none (h : t.items.findIdx? (fun item => t.keys.sameKey item key) = none) :
    t.at? key = none := by
  rw [List.findIdx?_eq_none_iff] at h
  exact List.find?_eq_none.mpr fun item hitem => by simp [h item hitem]

/-- **Removing a key** returns what stood under it and leaves nothing there. -/
theorem delete_spec {primary : PrimaryKey} (hkey : t.primaryKey key = .ok primary) :
    (t.delete primary).1 = t.at? key ∧ (t.Unique → Replaces t (t.delete primary).2 key none) := by
  rw [delete]
  rw [position?_eq hkey]
  split
  · rename_i i hi
    refine ⟨getElem?_eq_find? hi, fun hunique => ⟨rfl, rfl, ?_⟩⟩
    rw [others, ← eraseIdx_eq_filter (hunique.atMostOne key) hi, Option.toList_none,
      List.append_nil]
    exact swapRemove_perm (lt_length_of_findIdx? hi)
  · rename_i hnone
    refine ⟨(at?_eq_none hnone).symm, fun _ => ⟨rfl, rfl, ?_⟩⟩
    rw [others_eq_items hnone, Option.toList_none, List.append_nil]

/-- A put takes out the row under the key of the item and adds the item at the end. -/
lemma attempt_put (item : Item) (t : Rows) : (put item).attempt t = do
    let primary ← t.primaryKey item
    let (old, t) := t.delete primary
    return (old, { t with items := t.items ++ [item] }) := by
  rw [put, Work.attempt_get_bind, Work.attempt_lift_bind]
  rfl

/-- **Putting an item** returns what stood under its key and leaves the item there. -/
theorem put_spec {old : Option Item} (h : (put item).attempt t = .ok (old, t')) :
    t.keys.HasKey t.enforceTypes item ∧ old = t.at? item ∧
      (t.Unique → Replaces t t' item (some item)) := by
  rw [attempt_put] at h
  obtain ⟨primary, hkey, h⟩ := bind_eq_ok.mp h
  cases h
  obtain ⟨hold, hdelete⟩ := delete_spec hkey
  refine ⟨KeySchema.keyOf_isOk_iff.mp ⟨primary, hkey⟩, hold, fun hunique => ?_⟩
  obtain ⟨hkeys, henforce, hperm⟩ := hdelete hunique
  rw [Option.toList_none, List.append_nil] at hperm
  exact ⟨hkeys, henforce, hperm.append_right [item]⟩

/-- An update writes the changed row where the old one stands, or at the end. -/
lemma attempt_update (key : Item) (changes : List (String × Change)) (t : Rows) :
    (update key changes).attempt t = do
      let primary ← t.primaryKey key
      match t.position? primary with
      | some i =>
        let old := t.items[i]?
        let new := (old.getD key).change changes
        return ((old, new), { t with items := t.items.set i new })
      | none =>
        let new := key.change changes
        return ((none, new), { t with items := t.items ++ [new] }) := by
  rw [update, Work.attempt_get_bind, Work.attempt_lift_bind]
  congr 1
  funext primary
  cases t.position? primary <;> rfl

/-- **Changing the item under a key** returns what stood there and leaves the changed item, made
from the key where nothing stood. -/
theorem update_spec {changes : List (String × Change)} {old : Option Item} {new : Item}
    (h : (update key changes).attempt t = .ok ((old, new), t')) :
    t.keys.HasKey t.enforceTypes key ∧ old = t.at? key ∧ new = (old.getD key).change changes ∧
      (t.Unique → Replaces t t' key (some new)) := by
  rw [attempt_update] at h
  obtain ⟨primary, hkey, h⟩ := bind_eq_ok.mp h
  refine ⟨KeySchema.keyOf_isOk_iff.mp ⟨primary, hkey⟩, ?_⟩
  rw [position?_eq hkey] at h
  split at h
  · rename_i i hi
    cases h
    refine ⟨getElem?_eq_find? hi, rfl, fun hunique => ⟨rfl, rfl, ?_⟩⟩
    rw [others, ← eraseIdx_eq_filter (hunique.atMostOne key) hi]
    exact (List.set_perm_cons_eraseIdx (lt_length_of_findIdx? hi) _).trans
      (List.perm_append_singleton _ _).symm
  · rename_i hnone
    cases h
    refine ⟨(at?_eq_none hnone).symm, rfl, fun _ => ⟨rfl, rfl, ?_⟩⟩
    rw [others_eq_items hnone]
    exact List.Perm.refl _

/-! ### Writes that fail -/

/-- **A put that fails has changed nothing**: the key is read before any row is taken out. -/
theorem put_atomic (item : Item) : (put item).Atomic := by
  refine Work.reads_get.bind_atomic fun t => (Work.reads_lift _).bind_atomic fun primary => ?_
  refine ((Work.sure_modifyGet _).bind fun old => ?_).atomic
  exact (Work.sure_modify _).bind fun _ => Work.sure_pure old

/-- **An update that fails has changed nothing.** -/
theorem update_atomic (key : Item) (changes : List (String × Change)) :
    (update key changes).Atomic := by
  refine Work.reads_get.bind_atomic fun t => (Work.reads_lift _).bind_atomic fun primary => ?_
  cases t.position? primary with
  | none => exact ((Work.sure_set _).bind fun _ => Work.sure_pure _).atomic
  | some i => exact ((Work.sure_set _).bind fun _ => Work.sure_pure _).atomic

/-! ### The invariant of stored rows -/

/-- What holds of the rows of a table at all times. -/
structure Sound (t : Rows) : Prop where
  unique : t.Unique
  hasKey : ∀ item ∈ t.items, t.keys.HasKey t.enforceTypes item
  valid : ∀ item ∈ t.items, Item.Valid item

lemma sound_empty (keys : KeySchema) (enforceTypes : Bool) : (empty keys enforceTypes).Sound :=
  ⟨List.Pairwise.nil, by simp [empty], by simp [empty]⟩

lemma Sound.sameKey_self (h : t.Sound) (hmem : item ∈ t.items) : t.keys.sameKey item item = true :=
  KeySchema.sameKey_self (h.hasKey item hmem) (h.valid item hmem)

/-- A row is stored once. -/
lemma Sound.nodup (h : t.Sound) : t.items.Nodup := by
  refine h.unique.imp_of_mem fun {a b} ha _ hab => ?_
  rintro rfl
  rw [h.sameKey_self ha] at hab
  cases hab

/-- The rows of a table are what is found under their keys. -/
lemma Sound.mem_iff (h : t.Sound) : item ∈ t.items ↔ t.at? item = some item :=
  ⟨fun hmem => h.unique.at?_eq_some hmem (h.sameKey_self hmem), mem_of_at?⟩

/-- **Where the same rows are found, the same rows are stored**, in some order. -/
theorem Sound.perm_of_at?_eq (h : t.Sound) (h' : t'.Sound) (hat : ∀ q, t.at? q = t'.at? q) :
    t.items.Perm t'.items :=
  (List.perm_ext_iff_of_nodup h.nodup h'.nodup).mpr fun item => by rw [h.mem_iff, h'.mem_iff, hat]

/-- What an item must be to stand under a key. -/
structure Fits (t : Rows) (key item : Item) : Prop where
  sameKey : t.keys.sameKey item key = true
  hasKey : t.keys.HasKey t.enforceTypes item
  valid : Item.Valid item

lemma Replaces.sound {new : Option Item} (h : Replaces t t' key new) (hs : t.Sound)
    (hnew : ∀ item, new = some item → t.Fits key item) : t'.Sound := by
  refine ⟨h.unique hs.unique fun item hitem => (hnew item hitem).sameKey, ?_, ?_⟩
  · intro item hmem
    rw [h.keys_eq, h.enforceTypes_eq]
    rcases h.mem hmem with hold | hitem
    · exact hs.hasKey item hold
    · exact (hnew item hitem).hasKey
  · intro item hmem
    rcases h.mem hmem with hold | hitem
    · exact hs.valid item hold
    · exact (hnew item hitem).valid

end Rows

end ItemStore
