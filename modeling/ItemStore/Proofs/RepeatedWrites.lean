import ItemStore.Proofs.WriteRequests

/-!
# Repeated writes

A client that does not know whether a write has been made can send it again.  The second time the
write takes another way through the rows: it replaces the item that it has put, changes the item
that it has made of the key, or finds nothing to remove.  Still it leaves everything as it was.

* **`Item.change_change`** — changes made twice are made once.
* `Rows.put_again`, `Rows.delete_again`, `Rows.update_again` — the rows stay as they are, in their
  order; **`Table.apply_again`** says so of tables.
* `batchEffects` — the effects of a batch all of whose writes are made; `leftUnder_again` — the last
  write under a key decides, so the same effects once more leave the same items.
* **`Store.writes_again`** — accepted writes and batches of writes, repeated after any run.
-/

namespace ItemStore

open Answer

/-! ## Changes -/

namespace Item

lemma get?_change_singleton (item : Item) (name : String) (c : Change) (other : String) :
    (item.change [(name, c)]).get? other
      = if other = name then (match c with | .set v => some v | .remove => none)
        else item.get? other := by
  cases c with
  | set v => exact NameMap.get?_insert item name v other
  | remove => exact NameMap.get?_erase item name other

/-- Changes leave an attribute as it is, or decide it whatever it was. -/
lemma get?_change_cases (name : String) : ∀ changes : List (String × Change),
    (∀ item : Item, (item.change changes).get? name = item.get? name) ∨
      ∃ v, ∀ item : Item, (item.change changes).get? name = v
  | [] => Or.inl fun _ => rfl
  | (n, c) :: rest => by
      have hcons : ∀ item : Item,
          item.change ((n, c) :: rest) = (item.change [(n, c)]).change rest := fun _ => rfl
      simp only [hcons]
      rcases get?_change_cases name rest with hsame | ⟨v, hv⟩
      · simp only [hsame, get?_change_singleton]
        split
        · exact Or.inr ⟨_, fun _ => rfl⟩
        · exact Or.inl fun _ => rfl
      · exact Or.inr ⟨v, fun _ => hv _⟩

/-- **Changes made twice are made once.** -/
theorem change_change (item : Item) (changes : List (String × Change)) :
    (item.change changes).change changes = item.change changes := by
  refine NameMap.ext_get? fun name => ?_
  rcases get?_change_cases name changes with hsame | ⟨v, hv⟩
  · exact hsame _
  · rw [hv, hv]

end Item

/-! ## Rows -/

section

variable {α : Type} {p : α → Bool} {items : List α} {a : α}

lemma swapRemove_concat (items : List α) (a : α) :
    swapRemove items.length (items ++ [a]) = items := by
  simp [swapRemove]

lemma findIdx?_concat (hitems : ∀ b ∈ items, p b = false) (ha : p a = true) :
    (items ++ [a]).findIdx? p = some items.length := by
  rw [List.findIdx?_append, List.findIdx?_eq_none_iff.mpr hitems]
  simp [List.findIdx?_cons, ha]

/-- A match in the place of the first match is the first match. -/
lemma findIdx?_set : ∀ {items : List α} {i : ℕ}, items.findIdx? p = some i → p a = true →
    (items.set i a).findIdx? p = some i
  | [], _, h, _ => by simp at h
  | b :: rest, i, h, ha => by
      rw [List.findIdx?_cons] at h
      by_cases hb : p b = true
      · rw [if_pos hb, Option.some.injEq] at h
        subst h
        simp [List.findIdx?_cons, ha]
      · rw [if_neg hb, Option.map_eq_some_iff] at h
        obtain ⟨j, hj, rfl⟩ := h
        simp [List.findIdx?_cons, hb, findIdx?_set hj ha]

end

namespace Rows

variable {t t' : Rows} {key item : Item} {old : Option Item}

lemma sameKey_eq_false_of_mem_others (h : item ∈ t.others key) :
    t.keys.sameKey item key = false := by
  simpa using (List.mem_filter.mp h).2

/-- Putting an item again puts it in its own place, which is the last one. -/
theorem put_again (h : (put item).attempt t = .ok (old, t')) (hunique : t.Unique)
    (hself : t.keys.sameKey item item = true) :
    (put item).attempt t' = .ok (some item, t') := by
  have hreplaces := (put_spec h).2.2 hunique
  rw [attempt_put] at h
  obtain ⟨primary, hkey, h⟩ := bind_eq_ok.mp h
  obtain ⟨front, rfl⟩ : ∃ front, t' = { t with items := front ++ [item] } := by
    cases h
    refine ⟨(t.delete primary).2.items, ?_⟩
    rw [delete]
    cases t.position? primary <;> rfl
  have hfront : ∀ a ∈ front, t.keys.sameKey a item = false := fun a ha =>
    sameKey_eq_false_of_mem_others
      (((List.perm_append_right_iff _).mp hreplaces.perm).mem_iff.mp ha)
  have hkey' : primaryKey { t with items := front ++ [item] } item = .ok primary := hkey
  rw [attempt_put]
  refine bind_eq_ok.mpr ⟨primary, hkey', ?_⟩
  rw [delete, position?_eq hkey', findIdx?_concat hfront hself]
  simp [swapRemove_concat, pure, Except.pure]

/-- Removing a key again finds nothing. -/
theorem delete_again {primary : PrimaryKey} (hkey : t.primaryKey key = .ok primary)
    (hunique : t.Unique) :
    (t.delete primary).2.delete primary = (none, (t.delete primary).2) := by
  have hreplaces := (delete_spec hkey).2 hunique
  have hkey' : (t.delete primary).2.primaryKey key = .ok primary := by
    rw [primaryKey_eq_of_bare (t.delete_bare primary), hkey]
  generalize (t.delete primary).2 = t' at hreplaces hkey'
  have hnone : ∀ a ∈ t'.items, t'.keys.sameKey a key = false := fun a ha => by
    rw [hreplaces.keys_eq]
    exact sameKey_eq_false_of_mem_others (by simpa using hreplaces.perm.mem_iff.mp ha)
  rw [delete, position?_eq hkey', List.findIdx?_eq_none_iff.mpr hnone]

/-- Changing an item again changes nothing: it stands where it stood, or at the end if it was made
of the key. -/
theorem update_again {changes : List (String × Change)} {new : Item}
    (h : (update key changes).attempt t = .ok ((old, new), t'))
    (hnew : t.keys.sameKey new key = true) :
    (update key changes).attempt t' = .ok ((some new, new), t') := by
  have hchange : new.change changes = new := by
    rw [(update_spec h).2.2.1, Item.change_change]
  rw [attempt_update] at h
  obtain ⟨primary, hkey, h⟩ := bind_eq_ok.mp h
  rw [position?_eq hkey] at h
  have hagain : ∀ {items : List Item} {i : ℕ},
      items.findIdx? (fun item => t.keys.sameKey item key) = some i → items[i]? = some new →
        (update key changes).attempt { t with items := items }
          = .ok ((some new, new), { t with items := items }) := by
    intro items i hi hget
    have hkey' : primaryKey { t with items := items } key = .ok primary := hkey
    have hset : items.set i new = items := by
      obtain ⟨hlt, hnew⟩ := List.getElem?_eq_some_iff.mp hget
      rw [← hnew, List.set_getElem_self]
    rw [attempt_update]
    refine bind_eq_ok.mpr ⟨primary, hkey', ?_⟩
    rw [position?_eq hkey', hi]
    simp [hget, hchange, hset, pure, Except.pure]
  split at h
  · rename_i i hi
    cases h
    refine hagain (findIdx?_set hi hnew) ?_
    rw [List.getElem?_set_self (lt_length_of_findIdx? hi)]
  · rename_i hnone
    cases h
    refine hagain (findIdx?_concat (List.findIdx?_eq_none_iff.mp hnone) hnew) ?_
    simp

end Rows

/-! ## Single writes -/

namespace Table

variable {enforce : Bool} {t t' : Table} {w : Write} {old : Option Item}

/-- **A write that is made again changes nothing**, not even the order of the items, and returns
what it left the first time. -/
theorem apply_again (hs : t.Sound enforce) (h : t.apply w = .ok (old, t')) :
    t'.apply w = .ok (w.leaves old, t') := by
  have happlied := apply_spec hs h
  cases w with
  | put item =>
      rw [apply, attempt_store] at h ⊢
      obtain ⟨_, hcheck, h⟩ := bind_eq_ok.mp h
      obtain ⟨⟨old', rows⟩, hput, h⟩ := bind_eq_ok.mp h
      cases h
      have hself := (happlied.fits item rfl).sameKey
      have hagain := Rows.put_again (liftKey_eq_ok.mp hput) hs.rows.unique hself
      exact bind_eq_ok.mpr ⟨(), hcheck, bind_eq_ok.mpr ⟨_, liftKey_eq_ok.mpr hagain, rfl⟩⟩
  | remove key =>
      rw [apply, attempt_remove] at h ⊢
      obtain ⟨_, hcheck, h⟩ := bind_eq_ok.mp h
      obtain ⟨primary, hprimary, h⟩ := bind_eq_ok.mp h
      have hbare := t.rows.delete_bare primary
      have hagain := Rows.delete_again (liftKey_eq_ok.mp hprimary) hs.rows.unique
      generalize t.rows.delete primary = deleted at h hbare hagain
      obtain ⟨old', rows⟩ := deleted
      cases h
      rw [Rows.keys_eq_of_bare hbare, Rows.primaryKey_eq_of_bare hbare]
      refine bind_eq_ok.mpr ⟨(), hcheck, bind_eq_ok.mpr ⟨primary, hprimary, ?_⟩⟩
      rw [hagain]
      rfl
  | update key updates =>
      obtain ⟨⟨⟨old', new⟩, _⟩, hamend, h⟩ := map_eq_ok.mp h
      cases h
      obtain rfl := amend_eq_ok hamend
      rw [attempt_amend] at hamend
      obtain ⟨_, hcheck, hamend⟩ := bind_eq_ok.mp hamend
      obtain ⟨changes, hchanges, hamend⟩ := bind_eq_ok.mp hamend
      obtain ⟨⟨items, rows⟩, hupdate, hamend⟩ := bind_eq_ok.mp hamend
      cases hamend
      have hkeys : rows.keys = t.rows.keys := happlied.replaces.keys_eq
      have hsame := (happlied.fits _ rfl).sameKey
      have hagain := Rows.update_again (liftKey_eq_ok.mp hupdate) hsame
      rw [apply, attempt_amend, hkeys]
      refine map_eq_ok.mpr ⟨_, bind_eq_ok.mpr ⟨(), hcheck, bind_eq_ok.mpr ⟨changes, hchanges,
        bind_eq_ok.mpr ⟨_, liftKey_eq_ok.mpr hagain, rfl⟩⟩⟩, rfl⟩

/-- A request that is accepted is accepted again and leaves its table as it is. -/
lemma respond_again (hs : t.Sound enforce) {returned : Option Returned} {response : Response}
    (h : t.respond returned w = .ok (response, t')) :
    ∃ response', t'.respond returned w = .ok (response', t') := by
  obtain ⟨_, hcheck, h⟩ := bind_eq_ok.mp h
  obtain ⟨⟨old, _⟩, happly, h⟩ := bind_eq_ok.mp h
  cases h
  exact ⟨_, bind_eq_ok.mpr ⟨(), hcheck, bind_eq_ok.mpr ⟨_, apply_again hs happly, rfl⟩⟩⟩

end Table

namespace Store

/-- **An accepted write is accepted again**, and leaves the store as it is. -/
theorem answer_request_again {enforce : Bool} {s s' : Store} {stamp : Stamp} {table : String}
    {returned : Option Returned} {w : Write} {response : Response}
    (hs : ∀ name t, s.catalog.get? name = some t → t.Sound enforce)
    (h : s.answer stamp (w.request table returned) = (.ok response, s')) (stamp' : Stamp) :
    ∃ response', s'.answer stamp' (w.request table returned) = (.ok response', s') := by
  rw [answer_request] at h
  cases hx : s.catalog.require table >>= fun t => t.respond returned w with
  | error e =>
      rw [hx] at h
      cases h
  | ok r =>
      rw [hx] at h
      cases h
      obtain ⟨t, hrequire, hrespond⟩ := bind_eq_ok.mp hx
      have ht := hs table t (Catalog.require_eq_ok.mp hrequire)
      obtain ⟨response', hagain⟩ := Table.respond_again ht hrespond
      have hrequire' : Catalog.require (s.catalog.insert table r.2) table = .ok r.2 :=
        Catalog.require_eq_ok.mpr (by rw [NameMap.get?_insert, if_pos rfl])
      refine ⟨response', ?_⟩
      rw [answer_request, bind_eq_ok.mpr ⟨r.2, hrequire', hagain⟩]
      dsimp only
      rw [NameMap.insert_insert]

end Store

/-! ## Batches of writes -/

/-- The writes that a batch asks for in a table. -/
def writesIn (table : String) (batches : List (String × List BatchedWrite)) : List Write :=
  batches.flatMap fun e => if table = e.1 then e.2.filterMap BatchedWrite.write? else []

/-- The effects of a batch all of whose writes are made. -/
def batchEffects (batches : List (String × List BatchedWrite)) : List Effect :=
  batches.flatMap fun e => (e.2.filterMap BatchedWrite.write?).map (Effect.write e.1)

lemma made_of_writeAll : ∀ {writes : List BatchedWrite} {t t' : Table},
    (Table.writeAll writes).on t = (.ok (), t') →
      t.made writes = writes.filterMap BatchedWrite.write?
  | [], _, _, _ => rfl
  | w :: rest, t, t', h => by
      rw [Table.on_writeAll_cons] at h
      cases hw : (Table.write w).attempt t with
      | error e =>
          rw [hw] at h
          cases h
      | ok next =>
          rw [hw] at h
          rw [Table.made, hw, List.filterMap_cons, ← made_of_writeAll h]
          cases w.write? <;> rfl

/-- A batch that succeeds has made all of its writes. -/
lemma Catalog.made_of_writeAll : ∀ {batches : List (String × List BatchedWrite)} {c c' : Catalog},
    (Catalog.writeAll batches).on c = (.ok (), c') → c.made batches = batchEffects batches
  | [], _, _, _ => rfl
  | (name, writes) :: rest, c, c', h => by
      rw [on_writeAll_cons] at h
      rw [Catalog.made]
      cases ht : c.require name with
      | error e =>
          rw [ht] at h
          cases h
      | ok t =>
          rw [ht] at h
          dsimp only at h ⊢
          cases hall : (Table.writeAll writes).on t with
          | mk result t' =>
              rw [hall] at h
              cases result with
              | error e => cases h
              | ok _ =>
                  dsimp only at h ⊢
                  rw [ItemStore.made_of_writeAll hall, made_of_writeAll h]
                  rfl

/-- The effects of a batch add its writes in a table to those made there before. -/
lemma writesTo_batchEffects (table : String) (batches : List (String × List BatchedWrite))
    (effects : List Effect) :
    writesTo table (effects ++ batchEffects batches)
      = writesTo table effects ++ writesIn table batches := by
  have hwrites : ∀ (name : String) (ws before : List Write),
      (ws.map (Effect.write name)).foldl (Effect.extend table) before
        = before ++ if table = name then ws else [] := by
    intro name ws
    induction ws with
    | nil => simp
    | cons w rest ih =>
        intro before
        rw [List.map_cons, List.foldl_cons, ih, Effect.extend]
        split <;> simp
  rw [writesTo, writesTo, List.foldl_append]
  generalize effects.foldl (Effect.extend table) [] = before
  induction batches generalizing before with
  | nil => simp [batchEffects, writesIn]
  | cons e rest ih =>
      rw [batchEffects, List.flatMap_cons, List.foldl_append, hwrites, ← batchEffects, ih, writesIn,
        writesIn, List.flatMap_cons, List.append_assoc]

/-! ### What a batch leaves -/

/-- A write of a batch leaves the same whatever stood under its key. -/
lemma leaves_eq_of_write? {b : BatchedWrite} {w : Write} (h : b.write? = some w)
    (old old' : Option Item) : w.leaves old = w.leaves old' := by
  obtain ⟨put, delete⟩ := b
  cases put <;> cases delete <;> cases h <;> rfl

lemma leaves_eq_of_mem_writesIn {table : String} {batches : List (String × List BatchedWrite)}
    {w : Write} (h : w ∈ writesIn table batches) (old old' : Option Item) :
    w.leaves old = w.leaves old' := by
  obtain ⟨e, _, hw⟩ := List.mem_flatMap.mp h
  split at hw
  · obtain ⟨b, _, hb⟩ := List.mem_filterMap.mp hw
    exact leaves_eq_of_write? hb old old'
  · cases hw

/-- Where no write looks at what stood there, the last one decides. -/
lemma foldl_leaves_again {writes : List Write}
    (h : ∀ w ∈ writes, ∀ old old', w.leaves old = w.leaves old') (old : Option Item) :
    writes.foldl Write.leaves (writes.foldl Write.leaves old) = writes.foldl Write.leaves old := by
  rcases List.eq_nil_or_concat' writes with rfl | ⟨front, last, rfl⟩
  · rfl
  · rw [List.foldl_append, List.foldl_append]
    exact h last (by simp) _ _

lemma leftUnder_append (keys : KeySchema) (q : Item) (writes more : List Write) :
    leftUnder keys q (writes ++ more)
      = (more.filter fun w => keys.sameKey q w.key).foldl Write.leaves
          (leftUnder keys q writes) := by
  rw [leftUnder, List.filter_append, List.foldl_append, leftUnder]

/-- Writes of a batch leave the same items when they are made once more. -/
lemma leftUnder_again (keys : KeySchema) (q : Item) (writes : List Write) (table : String)
    (batches : List (String × List BatchedWrite)) :
    leftUnder keys q (writes ++ writesIn table batches ++ writesIn table batches)
      = leftUnder keys q (writes ++ writesIn table batches) := by
  rw [leftUnder_append, leftUnder_append]
  exact foldl_leaves_again
    (fun w hw => leaves_eq_of_mem_writesIn (List.mem_filter.mp hw).1) _

/-! ## Requests made again -/

namespace Store

variable {settings : Settings} {events : List Event} {s s' : Store}

/-- A batch of writes that succeeds once succeeds twice, and the tables have the same items. -/
lemma writeAll_again {effects : List Effect} {c c' : Catalog}
    {batches : List (String × List BatchedWrite)} (h : Catalog.History settings effects c)
    (hwrite : (Catalog.writeAll batches).on c = (.ok (), c')) :
    ∃ c'', (Catalog.writeAll batches).on c' = (.ok (), c'') ∧
      ∀ name, Option.Rel Table.SameItems (c'.get? name) (c''.get? name) := by
  have hbare : Catalog.SameBare c' c := by
    simpa [hwrite] using Catalog.sameBare_writeAll batches c
  have hfirst : ((Catalog.writeAll batches).on c').1 = .ok () := by rw [hbare.writeAll, hwrite]
  obtain ⟨c'', hagain⟩ : ∃ c'', (Catalog.writeAll batches).on c' = (.ok (), c'') :=
    ⟨_, Prod.ext hfirst rfl⟩
  refine ⟨c'', hagain, fun name => ?_⟩
  have hbare' : Catalog.SameBare c'' c' := by
    simpa [hagain] using Catalog.sameBare_writeAll batches c'
  -- each time the effects are all of the writes
  have honce : Catalog.History settings (effects ++ c.made batches)
      ((Catalog.writeAll batches).on c).2 := h.batch
  rw [hwrite, Catalog.made_of_writeAll hwrite] at honce
  have htwice : Catalog.History settings (effects ++ batchEffects batches ++ c'.made batches)
      ((Catalog.writeAll batches).on c').2 := honce.batch
  rw [hagain, Catalog.made_of_writeAll hagain] at htwice
  have hname := hbare' name
  cases hget : c'.get? name with
  | none =>
      rw [hget, Option.map_none, Option.map_eq_none_iff] at hname
      rw [hname]
      exact .none
  | some t =>
      rw [hget, Option.map_some, Option.map_eq_some_iff] at hname
      obtain ⟨t', hget', ht'⟩ := hname
      rw [hget']
      refine .some (Table.sameItems_of_at?_eq (honce.sound name t hget) (htwice.sound name t' hget')
        ht'.symm fun q => ?_)
      rw [honce.at?_eq hget, htwice.at?_eq hget', Table.schema_eq_of_bare ht',
        writesTo_batchEffects name batches (effects ++ _), writesTo_batchEffects, leftUnder_again]

/-- **Writes can be sent again**, after every run.

* A put, a removal or an update that is accepted is accepted again at once, and leaves the store as
  it is: the same items in the same order.
* A batch of writes that is accepted is accepted again at once, and leaves each table with the same
  items, perhaps in another order. -/
theorem writes_again (hs : (new settings).after events = s) :
    (∀ (w : Write) table returned stamp stamp' response s',
      s.answer stamp (w.request table returned) = (.ok response, s') →
        ∃ response', s'.answer stamp' (w.request table returned) = (.ok response', s')) ∧
      ∀ b stamp stamp' response s',
        s.answer stamp (.batchWriteItem b) = (.ok response, s') →
          ∃ s'', s'.answer stamp' (.batchWriteItem b) = (.ok .written, s'') ∧ s'.SameItems s'' := by
  subst hs
  constructor
  · intro w table returned stamp stamp' response s' h
    exact answer_request_again (fun _ _ => sound_after) h stamp'
  · intro b stamp stamp' response s' h
    rw [answer_batchWriteItem, Prod.mk.injEq] at h
    obtain ⟨hresult, rfl⟩ := h
    obtain ⟨_, hwrite, _⟩ := map_eq_ok.mp hresult
    obtain ⟨c'', hagain, htables⟩ :=
      writeAll_again (history_after settings events) (Prod.ext hwrite rfl)
    refine ⟨⟨_, c''⟩, ?_, rfl, htables⟩
    rw [answer_batchWriteItem, hagain]
    rfl

end Store

namespace Sample

/-- An update of a key that is not there. -/
def seeding : Write :=
  .update (key "8") (.ofList [("note", ⟨some (.text "made"), none⟩)])

/-- One key in three spellings, put and deleted by turns, and a row that is deleted. -/
def mixed : NameList (List BatchedWrite) :=
  .ofList [("Readings",
    [⟨some (reading "7" "one"), none⟩, ⟨none, some (key "7.0")⟩,
      ⟨some (reading "70e-1" "two"), none⟩, ⟨none, some (key "6")⟩])]

end Sample

/-- The update finds nothing the first time, and the batch finds the row that it has put. -/
theorem Store.writes_again_sample :
    (∃ response s', Sample.store.answer Sample.stamp (Sample.seeding.request "Readings" none)
        = (.ok response, s') ∧
      ∃ response', s'.answer Sample.stamp (Sample.seeding.request "Readings" none)
        = (.ok response', s')) ∧
      ∃ s', Sample.store.answer Sample.stamp (.batchWriteItem Sample.mixed) = (.ok .written, s') ∧
        ∃ s'', s'.answer Sample.stamp (.batchWriteItem Sample.mixed) = (.ok .written, s'') ∧
          s'.SameItems s'' := by
  obtain ⟨hwrite, hbatch⟩ :=
    writes_again (show (new {}).after Sample.events = Sample.store from rfl)
  have hseeding : (Sample.store.answer Sample.stamp (Sample.seeding.request "Readings" none)).1
      = .ok (.attributes none) := by decide +kernel
  have hmixed : (Sample.store.answer Sample.stamp (.batchWriteItem Sample.mixed)).1
      = .ok .written := by decide +kernel
  exact ⟨⟨_, _, Prod.ext hseeding rfl, hwrite _ _ _ _ _ _ _ (Prod.ext hseeding rfl)⟩,
    _, Prod.ext hmixed rfl, hbatch _ _ _ _ _ (Prod.ext hmixed rfl)⟩

end ItemStore
