import ItemStore.Proofs.Attempts
import ItemStore.Proofs.Declarations

/-!
# Writes to tables

Items are stored by three requests and by batches, and all of them come down to three writes of one
table: putting an item, removing a key, changing the item under a key.

* `Write` — the three writes as data, with the key that each addresses and what it leaves there.
* `Item.updated` — an item with updates made to it.
* `Table.Sound` — the invariant of tables.  A new table has it (`Table.sound_new`).
* **`Table.apply_spec`** — what an accepted write returns and leaves, in a sound table.
* `Table.find_eq_ok` — what a lookup accepts and returns.
-/

namespace ItemStore

open Answer

/-! ## Updates -/

namespace AttributeUpdate

/-- An item with one update made to it.  Updates that the store refuses change nothing here. -/
def applyTo (u : AttributeUpdate) (name : String) (item : Item) : Item :=
  match u.action.getD .put, u.value with
  | .put, some v => item.insert name v
  | .delete, none => item.erase name
  | _, _ => item

/-- An update that changes no key attribute and puts nothing but valid values. -/
structure Allowed (keys : KeySchema) (name : String) (u : AttributeUpdate) : Prop where
  notKey : name ∉ keys.names
  valid : ∀ v, u.value = some v → v.Valid

variable {keys : KeySchema} {name : String} {u : AttributeUpdate}

lemma change_eq_ok {c : Change} (h : u.change keys name = .ok c) :
    u.Allowed keys name ∧ ∀ item : Item, item.change [(name, c)] = u.applyTo name item := by
  rw [AttributeUpdate.change] at h
  split at h
  · cases h
  rename_i hname
  rw [KeySchema.hasName_iff] at hname
  split at h
  · rename_i v haction hvalue
    obtain ⟨_, hcheck, h⟩ := bind_eq_ok.mp h
    cases h
    refine ⟨⟨hname, fun w hw => ?_⟩, fun item => ?_⟩
    · obtain rfl : v = w := Option.some.inj (hvalue.symm.trans hw)
      exact checkNumerals_eq_ok.mp hcheck v List.mem_cons_self
    · simp [Item.change, applyTo, haction, hvalue]
  · cases h
  · rename_i haction hvalue
    cases h
    refine ⟨⟨hname, fun w hw => by simp [hvalue] at hw⟩, fun item => ?_⟩
    simp [Item.change, applyTo, haction, hvalue]
  · cases h
  · cases h

lemma get?_applyTo_of_ne {other : String} (hne : other ≠ name) (item : Item) :
    (u.applyTo name item).get? other = item.get? other := by
  rw [applyTo]
  split
  · rw [NameMap.get?_insert, if_neg hne]
  · rw [NameMap.get?_erase, if_neg hne]
  · rfl

lemma Allowed.valid_applyTo (h : u.Allowed keys name) {item : Item} (hitem : Item.Valid item) :
    Item.Valid (u.applyTo name item) := by
  intro other v hv
  rw [applyTo] at hv
  split at hv
  · rename_i w _ hvalue
    rw [NameMap.get?_insert] at hv
    split at hv
    · obtain rfl : w = v := Option.some.inj hv
      exact h.valid w hvalue
    · exact hitem other v hv
  · rw [NameMap.get?_erase] at hv
    split at hv
    · cases hv
    · exact hitem other v hv
  · exact hitem other v hv

end AttributeUpdate

/-- An item with updates made to it, one after the other. -/
def Item.updated (item : Item) (updates : List (String × AttributeUpdate)) : Item :=
  updates.foldl (fun item e => e.2.applyTo e.1 item) item

section

variable {keys : KeySchema} {updates : List (String × AttributeUpdate)}

/-- The changes that accepted updates ask for are the updates. -/
lemma changesOf_eq_ok : ∀ {updates : List (String × AttributeUpdate)}
    {changes : List (String × Change)}, changesOf keys updates = .ok changes →
      (∀ e ∈ updates, e.2.Allowed keys e.1) ∧
        ∀ item : Item, item.change changes = item.updated updates
  | [], _, h => by
      cases h
      exact ⟨List.forall_mem_nil _, fun _ => rfl⟩
  | (name, u) :: rest, _, h => by
      obtain ⟨c, hc, h⟩ := bind_eq_ok.mp h
      obtain ⟨cs, hcs, h⟩ := bind_eq_ok.mp h
      cases h
      obtain ⟨hallowed, hone⟩ := AttributeUpdate.change_eq_ok hc
      obtain ⟨hrest, hmore⟩ := changesOf_eq_ok hcs
      refine ⟨List.forall_mem_cons.mpr ⟨hallowed, hrest⟩, fun item => ?_⟩
      calc item.change ((name, c) :: cs)
          = (item.change [(name, c)]).change cs := rfl
        _ = (u.applyTo name item).updated rest := by rw [hone, hmore]
        _ = item.updated ((name, u) :: rest) := rfl

namespace Item

lemma get?_updated (h : ∀ e ∈ updates, e.2.Allowed keys e.1) {name : String}
    (hname : name ∈ keys.names) (item : Item) :
    (item.updated updates).get? name = item.get? name := by
  induction updates generalizing item with
  | nil => rfl
  | cons e rest ih =>
      obtain ⟨he, hrest⟩ := List.forall_mem_cons.mp h
      have hne : name ≠ e.1 := fun heq => he.notKey (heq ▸ hname)
      rw [updated, List.foldl_cons, ← AttributeUpdate.get?_applyTo_of_ne hne item]
      exact ih hrest _

lemma Valid.updated (h : ∀ e ∈ updates, e.2.Allowed keys e.1) {item : Item}
    (hitem : Valid item) : Valid (item.updated updates) := by
  induction updates generalizing item with
  | nil => exact hitem
  | cons e rest ih =>
      obtain ⟨he, hrest⟩ := List.forall_mem_cons.mp h
      exact ih hrest (he.valid_applyTo hitem)

end Item

end

/-! ## The three writes -/

/-- A write to one table. -/
inductive Write where
  | put (item : Item)
  | remove (key : Item)
  | update (key : Item) (updates : NameList AttributeUpdate)

namespace Write

/-- The item whose key a write addresses. -/
def key : Write → Item
  | put item => item
  | remove key => key
  | update key _ => key

/-- The key that a write addresses, with no other attribute. -/
def address (keys : KeySchema) : Write → Item
  | put item => item.restrict keys.hasName
  | remove key => key
  | update key _ => key

/-- What a write leaves under its key, where `old` stood before: the item that is put, nothing, or
the old item with the updates made to it, the key itself standing in for an item that is not
there. -/
def leaves (old : Option Item) : Write → Option Item
  | put item => some item
  | remove _ => none
  | update key updates => some ((old.getD key).updated updates.entries)

lemma get?_address {keys : KeySchema} {name : String} (hname : name ∈ keys.names) (w : Write) :
    (w.address keys).get? name = w.key.get? name := by
  cases w with
  | put item => exact KeySchema.get?_restrict_hasName hname item
  | remove key => rfl
  | update key updates => rfl

end Write

namespace Table

/-- Make a write.  Returns what stood under its key. -/
def apply (t : Table) : Write → Except Fault (Option Item × Table)
  | .put item => (store item).attempt t
  | .remove key => (remove key).attempt t
  | .update key updates => ((amend key updates).attempt t).map fun r => (r.1.1, r.2)

end Table

/-! ## Sound schemas and tables -/

/-- A key whose attributes are distinct and have key types. -/
structure KeySchema.Typed (k : KeySchema) : Prop where
  nodup : k.names.Nodup
  type : ∀ a ∈ k.attributes, a.type = some .text ∨ a.type = some .number

namespace TableSchema

lemma name_eq {d : TableDeclaration} {s : TableSchema} (h : ofDeclaration d = .ok s) :
    s.name = d.name :=
  congrArg TableDeclaration.name (ofDeclaration_eq_ok.mp h).1

/-- **The primary key of an accepted declaration is typed.** -/
theorem typed_primary {d : TableDeclaration} {s : TableSchema} (h : ofDeclaration d = .ok s) :
    s.primary.Typed := by
  obtain ⟨-, -, htypes, hprimary, -⟩ := ofDeclaration_eq_ok.mp h
  refine ⟨(KeySchema.ofElements_eq_ok_iff.mp hprimary).1.nodup, fun a ha => ?_⟩
  obtain ⟨t, htype, hmem⟩ := (readFrom_of_ofDeclaration h).typed a ha
  rw [htype, Option.some.injEq, Option.some.injEq]
  exact ScalarType.isKeyType_iff.mp (htypes _ hmem)

end TableSchema

namespace Table

variable {enforce : Bool} {t t' : Table}

/-- What holds of a table at all times. -/
structure Sound (enforce : Bool) (t : Table) : Prop where
  keys_eq : t.rows.keys = t.schema.primary
  enforceTypes_eq : t.rows.enforceTypes = enforce
  typed : t.schema.primary.Typed
  rows : t.rows.Sound

/-- A new table is sound. -/
theorem sound_new {settings : Settings} {stamp : Stamp} {d : TableDeclaration} {s : TableSchema}
    (h : TableSchema.ofDeclaration d = .ok s) :
    (Table.new settings stamp s).Sound settings.enforceTypes :=
  ⟨rfl, rfl, TableSchema.typed_primary h, Rows.sound_empty _ _⟩

lemma Sound.nodup (h : t.Sound enforce) : t.rows.keys.names.Nodup := by
  rw [h.keys_eq]; exact h.typed.nodup

/-! ### Lookups -/

/-- **A lookup accepts a key that is checked and admitted**, and finds the row under it. -/
theorem find_eq_ok {key : Item} {attributes : List String} {found : Option Item} :
    t.find key attributes = .ok found ↔
      checkKey t.rows.keys key = .ok () ∧ t.rows.keys.HasKey t.rows.enforceTypes key ∧
        found = (t.rows.at? key).map fun item => item.project attributes := by
  rw [find]
  simp only [bind_eq_ok, liftKey_eq_ok, ← KeySchema.keyOf_isOk_iff]
  constructor
  · rintro ⟨_, hcheck, primary, hkey, h⟩
    cases h
    exact ⟨hcheck, ⟨primary, hkey⟩, by rw [Rows.get?_eq_at? hkey]⟩
  · rintro ⟨hcheck, ⟨primary, hkey⟩, rfl⟩
    exact ⟨(), hcheck, primary, hkey, by rw [Rows.get?_eq_at? hkey]; rfl⟩

/-! ### Writes -/

/-- What an accepted write `w` that returns `old` makes of `t`. -/
structure Applied (t : Table) (w : Write) (old : Option Item) (t' : Table) : Prop where
  old_eq : old = t.rows.at? w.key
  eq : t' = { t with rows := t'.rows }
  replaces : t.rows.Replaces t'.rows w.key (w.leaves old)
  fits : ∀ item, w.leaves old = some item → t.rows.Fits w.key item
  checked : checkKey t.rows.keys (w.address t.rows.keys) = .ok ()
  hasKey : t.rows.keys.HasKey t.rows.enforceTypes w.key

/-- An item fits under its own key. -/
lemma fits_self {item : Item} (hkey : t.rows.keys.HasKey t.rows.enforceTypes item)
    (hvalid : Item.Valid item) : t.rows.Fits item item :=
  ⟨KeySchema.sameKey_self hkey hvalid, hkey, hvalid⟩

/-- What fits under a key still does so with allowed updates made to it. -/
lemma fits_updated {key item : Item} {updates : List (String × AttributeUpdate)}
    (h : t.rows.Fits key item) (hupdates : ∀ e ∈ updates, e.2.Allowed t.rows.keys e.1) :
    t.rows.Fits key (item.updated updates) := by
  have hsame : ∀ name ∈ t.rows.keys.names, (item.updated updates).get? name = item.get? name :=
    fun name hname => Item.get?_updated hupdates hname item
  refine ⟨?_, h.hasKey.of_get?_eq hsame, h.valid.updated hupdates⟩
  rw [KeySchema.sameKey_eq_of_get?_eq hsame]
  exact h.sameKey

/-- What is found under a key fits under it. -/
lemma fits_found {key item : Item} (hs : t.Sound enforce) (h : t.rows.at? key = some item) :
    t.rows.Fits key item := by
  have hmem := Rows.mem_of_at? h
  exact ⟨Rows.sameKey_of_at? h, hs.rows.hasKey item hmem, hs.rows.valid item hmem⟩

section

variable {old : Option Item} {item key : Item} {updates : NameList AttributeUpdate}
  (hs : t.Sound enforce)

include hs

lemma applied_put (h : t.apply (.put item) = .ok (old, t')) : t.Applied (.put item) old t' := by
  rw [apply, attempt_store] at h
  obtain ⟨_, hcheck, h⟩ := bind_eq_ok.mp h
  obtain ⟨⟨old', rows⟩, hput, h⟩ := bind_eq_ok.mp h
  cases h
  obtain ⟨hkey, hold, hreplaces⟩ := Rows.put_spec (liftKey_eq_ok.mp hput)
  have hvalid := Item.valid_iff_values.mpr (checkNumerals_eq_ok.mp hcheck)
  refine ⟨hold, rfl, hreplaces hs.rows.unique, ?_, checkKey_restrict hs.nodup hkey hvalid, hkey⟩
  intro new hnew
  cases hnew
  exact fits_self hkey hvalid

lemma applied_remove (h : t.apply (.remove key) = .ok (old, t')) :
    t.Applied (.remove key) old t' := by
  rw [apply, attempt_remove] at h
  obtain ⟨_, hcheck, h⟩ := bind_eq_ok.mp h
  obtain ⟨primary, hprimary, h⟩ := bind_eq_ok.mp h
  cases h
  rw [liftKey_eq_ok] at hprimary
  obtain ⟨hold, hreplaces⟩ := Rows.delete_spec hprimary
  refine ⟨hold, rfl, hreplaces hs.rows.unique, ?_, hcheck,
    KeySchema.keyOf_isOk_iff.mp ⟨primary, hprimary⟩⟩
  intro item hitem
  cases hitem

lemma applied_update (h : t.apply (.update key updates) = .ok (old, t')) :
    t.Applied (.update key updates) old t' := by
  rw [apply, attempt_amend] at h
  obtain ⟨_, hamend, h⟩ := map_eq_ok.mp h
  obtain ⟨_, hcheck, hamend⟩ := bind_eq_ok.mp hamend
  obtain ⟨changes, hchanges, hamend⟩ := bind_eq_ok.mp hamend
  obtain ⟨⟨⟨old', new⟩, rows⟩, hupdate, hamend⟩ := bind_eq_ok.mp hamend
  cases hamend
  cases h
  obtain ⟨hkey, hold, hnew, hreplaces⟩ := Rows.update_spec (liftKey_eq_ok.mp hupdate)
  obtain ⟨hupdates, hupdated⟩ := changesOf_eq_ok hchanges
  rw [hupdated] at hnew
  subst hnew
  refine ⟨hold, rfl, hreplaces hs.rows.unique, ?_, hcheck, hkey⟩
  intro item hitem
  cases hitem
  -- the updates are made to the row that is found, or to the key where there is none
  refine fits_updated ?_ hupdates
  cases ho : old' with
  | none => exact fits_self hkey (checkKey_eq_ok.mp hcheck).2
  | some stored =>
      rw [ho] at hold
      exact fits_found hs hold.symm

end

/-- **What an accepted write returns and leaves**, in a sound table. -/
theorem apply_spec {w : Write} {old : Option Item} (hs : t.Sound enforce)
    (h : t.apply w = .ok (old, t')) : t.Applied w old t' := by
  cases w with
  | put item => exact applied_put hs h
  | remove key => exact applied_remove hs h
  | update key updates => exact applied_update hs h

namespace Applied

variable {w : Write} {old : Option Item}

lemma schema_eq (h : t.Applied w old t') : t'.schema = t.schema := by
  rw [h.eq]

/-- **Writes keep a table sound.** -/
theorem sound (h : t.Applied w old t') (hs : t.Sound enforce) : t'.Sound enforce where
  keys_eq := by rw [h.schema_eq, h.replaces.keys_eq, hs.keys_eq]
  enforceTypes_eq := by rw [h.replaces.enforceTypes_eq, hs.enforceTypes_eq]
  typed := by rw [h.schema_eq]; exact hs.typed
  rows := h.replaces.sound hs.rows h.fits

/-- **A write is an update of a map**: what is found under a key afterwards is what the write
leaves, if it addresses that key, and what was found before otherwise. -/
theorem at?_eq (h : t.Applied w old t') (hs : t.Sound enforce) (q : Item) :
    t'.rows.at? q
      = if t.schema.primary.sameKey q w.key then w.leaves (t.rows.at? q) else t.rows.at? q := by
  rw [h.replaces.at?_eq hs.rows.unique fun item hitem => (h.fits item hitem).sameKey, h.old_eq,
    hs.keys_eq]
  split
  · rename_i hq
    have hsame : t.rows.at? q = t.rows.at? w.key := by
      rw [Rows.at?, Rows.at?]
      congr 1
      funext item
      rw [hs.keys_eq]
      exact KeySchema.sameKey_congr hq item
    rw [hsame]
  · rfl

end Applied

end Table

end ItemStore
