import ItemStore.Proofs.StoredItems

/-!
# A table as a map

Seen through lookups, a table is a map from keys to items in which keys count as equal when they
agree once decoded.  Where the rows stand, and which row a search meets first, does not show.

* `writesTo` — the writes that a run makes to a table since its last creation.
* **`Catalog.History.at?_eq`** — a row is what the writes with its key leave, one after the other.
* `Store.gets_after_write` — one accepted write, seen through lookups.
* **`Store.refines_map`** — both for every run.
-/

namespace ItemStore

open Answer

/-! ## Requests for writes -/

/-- The request for a single write. -/
def Write.request (table : String) (returned : Option Returned) : Write → Request
  | put item => .putItem ⟨table, item, returned⟩
  | remove key => .deleteItem ⟨table, key, returned⟩
  | update key updates => .updateItem ⟨table, key, updates, returned⟩

/-! ## What a history leaves -/

/-- The writes to a table since it was last created. -/
def writesTo (table : String) (effects : List Effect) : List Write :=
  effects.foldl (Effect.extend table) []

lemma writesTo_concat (table : String) (effects : List Effect) (e : Effect) :
    writesTo table (effects ++ [e]) = e.extend table (writesTo table effects) := by
  rw [writesTo, List.foldl_append]
  rfl

/-- What writes leave under a key.  Those that address other keys are passed over. -/
def leftUnder (keys : KeySchema) (q : Item) (writes : List Write) : Option Item :=
  (writes.filter fun w => keys.sameKey q w.key).foldl Write.leaves none

lemma leftUnder_concat (keys : KeySchema) (q : Item) (writes : List Write) (w : Write) :
    leftUnder keys q (writes ++ [w])
      = if keys.sameKey q w.key then w.leaves (leftUnder keys q writes)
        else leftUnder keys q writes := by
  simp only [leftUnder]
  rw [List.filter_append, List.foldl_append]
  cases h : keys.sameKey q w.key <;> simp [h]

namespace Catalog

variable {settings : Settings} {effects : List Effect} {c : Catalog} {name : String} {t : Table}

/-- **A row is what the writes with its key leave**, one after the other. -/
theorem History.at?_eq (h : History settings effects c) (hget : c.get? name = some t) (q : Item) :
    t.rows.at? q = leftUnder t.schema.primary q (writesTo name effects) := by
  induction h generalizing t with
  | nil => cases hget
  | snoc h hmakes ih =>
      rw [writesTo_concat]
      rcases hmakes.get?_cases hget with ⟨hold, hextend⟩ | ⟨_, _, _, _, rfl, hextend⟩ |
        ⟨t', w, old, hold, happly, hextend⟩
      · rw [hextend]
        exact ih hold
      · rw [hextend]
        rfl
      · have hsound := h.sound name t' hold
        have happlied := Table.apply_spec hsound happly
        rw [hextend, leftUnder_concat, happlied.schema_eq, ← ih hold]
        exact happlied.at?_eq hsound q

end Catalog

/-! ## One write -/

namespace Store

variable {settings : Settings} {events : List Event} {s s' : Store} {table : String} {t t' : Table}
  {w : Write} {returned : Option Returned} {stamp : Stamp} {response : Response}

/-- An accepted request for a write makes the write in its table.  A put or a removal gives back
what stood under its key, if that is asked for. -/
lemma answer_write_eq_ok (h : s.answer stamp (w.request table returned) = (.ok response, s')) :
    ∃ t old t', s.catalog.get? table = some t ∧ t.apply w = .ok (old, t') ∧
      s' = { s with catalog := s.catalog.insert table t' } ∧
      ((∀ key updates, w ≠ .update key updates) → response = oldAttributes returned old) := by
  cases w with
  | put item =>
      obtain ⟨c', hok, rfl⟩ := writing_eq_ok (Answer.putItem _) h
      obtain ⟨t, old, t', hget, happly, hresponse, rfl⟩ := putItem_eq_ok hok
      exact ⟨t, old, t', hget, happly, rfl, fun _ => hresponse⟩
  | remove key =>
      obtain ⟨c', hok, rfl⟩ := writing_eq_ok (Answer.deleteItem _) h
      obtain ⟨t, old, t', hget, happly, hresponse, rfl⟩ := deleteItem_eq_ok hok
      exact ⟨t, old, t', hget, happly, rfl, fun _ => hresponse⟩
  | update key updates =>
      obtain ⟨c', hok, rfl⟩ := writing_eq_ok (Answer.updateItem _) h
      obtain ⟨t, old, t', hget, happly, rfl⟩ := updateItem_eq_ok hok
      exact ⟨t, old, t', hget, happly, rfl, fun hw => absurd rfl (hw key updates)⟩

lemma gets_iff_of_get? (hget : s.catalog.get? table = some t) {key : Item} {found : Option Item} :
    s.Gets table key found ↔
      checkKey t.rows.keys key = .ok () ∧ t.rows.keys.HasKey t.rows.enforceTypes key ∧
        found = t.rows.at? key := by
  rw [gets_iff]
  constructor
  · rintro ⟨t', hget', h⟩
    obtain rfl : t = t' := Option.some.inj (hget.symm.trans hget')
    exact h
  · intro h
    exact ⟨t, hget, h⟩

/-- A write in a sound table is an update of the map that lookups show. -/
lemma gets_after_write {enforce : Bool} {old : Option Item} (hget : s.catalog.get? table = some t)
    (hs : t.Sound enforce) (happly : t.apply w = .ok (old, t')) (q : Item) (found : Option Item) :
    Gets { s with catalog := s.catalog.insert table t' } table q found ↔
      ∃ before, s.Gets table q before ∧
        found = if t.schema.primary.sameKey q w.key then w.leaves before else before := by
  have happlied := Table.apply_spec hs happly
  have hget' : (s.catalog.insert table t').get? table = some t' := by
    rw [NameMap.get?_insert, if_pos rfl]
  rw [gets_iff_of_get? hget', happlied.replaces.keys_eq, happlied.replaces.enforceTypes_eq,
    happlied.at?_eq hs]
  simp only [gets_iff_of_get? hget]
  constructor
  · rintro ⟨hcheck, hkey, rfl⟩
    exact ⟨_, ⟨hcheck, hkey, rfl⟩, rfl⟩
  · rintro ⟨_, ⟨hcheck, hkey, rfl⟩, rfl⟩
    exact ⟨hcheck, hkey, rfl⟩

/-! ## Every run -/

/-- **Lookups show a map from keys to items**, keys being equal when they agree once decoded.

After any run, an accepted put, removal or update of a key makes lookups under that key, however it
is spelled, give the item that was put, nothing, or the old item (the key itself if there was none)
with the updates made to it; every other lookup gives what it gave before.  What puts and removals
give back of the old item is what a lookup gave just before.  So a lookup gives what the writes with
its key have left since the table was created, one after the other, and no other write counts. -/
theorem refines_map (hs : (new settings).after events = s) :
    (∀ (table : String) (w : Write) (returned : Option Returned) (stamp : Stamp)
        (response : Response) (s' : Store),
      s.answer stamp (w.request table returned) = (.ok response, s') →
        ∃ t, s.catalog.get? table = some t ∧
          (∀ q found, s'.Gets table q found ↔
            ∃ before, s.Gets table q before ∧
              found = if t.schema.primary.sameKey q w.key then w.leaves before else before) ∧
          ∃ old, s.Gets table (w.address t.schema.primary) old ∧
            ((∀ key updates, w ≠ .update key updates) →
              response = .attributes (if returned = some .allOld then old else none))) ∧
    ∀ table q found, s.Gets table q found →
      ∃ t, s.catalog.get? table = some t ∧
        found = leftUnder t.schema.primary q (writesTo table ((new settings).effects events)) := by
  subst hs
  constructor
  · intro table w returned stamp response s' h
    obtain ⟨t, old, t', hget, happly, rfl, hresponse⟩ := answer_write_eq_ok h
    have hsound := sound_after hget
    have happlied := Table.apply_spec hsound happly
    refine ⟨t, hget, gets_after_write hget hsound happly, old, ?_, hresponse⟩
    rw [← hsound.keys_eq, gets_iff_of_get? hget]
    have hsame : ∀ name ∈ t.rows.keys.names,
        (w.address t.rows.keys).get? name = w.key.get? name :=
      fun name hname => Write.get?_address hname w
    refine ⟨happlied.checked, happlied.hasKey.of_get?_eq hsame, ?_⟩
    rw [happlied.old_eq, Rows.at?_eq_of_get?_eq hsame]
  · intro table q found h
    obtain ⟨t, hget, _, _, rfl⟩ := gets_iff.mp h
    exact ⟨t, hget, (history_after settings events).at?_eq hget q⟩

theorem refines_map_sample :
    (∃ t, Sample.store.catalog.get? "Readings" = some t ∧
      some (Sample.reading "5e0" "third") = leftUnder t.schema.primary (Sample.key "5.00")
        (writesTo "Readings" ((new {}).effects Sample.events))) ∧
    ∃ t old, Sample.store.catalog.get? "Readings" = some t ∧
      Sample.store.Gets "Readings" (Sample.key "5.00") old ∧
      Response.attributes (some (Sample.reading "5e0" "third")) = .attributes old := by
  obtain ⟨hwrite, hread⟩ := refines_map (show (new {}).after Sample.events = Sample.store from rfl)
  constructor
  · refine hread "Readings" (Sample.key "5.00") _ fun _ => ?_
    show getItem ⟨"Readings", Sample.key "5.00", []⟩ Sample.store.catalog = _
    decide +kernel
  · have hremove : (Sample.store.answer Sample.stamp
        (Write.request "Readings" (some .allOld) (.remove (Sample.key "5.00")))).1
          = .ok (.attributes (some (Sample.reading "5e0" "third"))) := by
      decide +kernel
    obtain ⟨t, hget, _, old, hold, hresponse⟩ := hwrite _ _ _ _ _ _ (Prod.ext hremove rfl)
    refine ⟨t, old, hget, hold, ?_⟩
    simpa using hresponse

end Store

end ItemStore
