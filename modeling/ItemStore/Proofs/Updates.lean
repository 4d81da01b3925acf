import ItemStore.Proofs.ReadPaths

/-!
# Updates of items

An update lists changes of attributes.  All of them are looked at before any is made: either every
one is proper, and then what each asks for is found in the item afterwards, or the first that is not
is the reason why nothing happens.

* `AttributeUpdate.Proper`, `AttributeUpdate.Refused` — updates that are made, and the reasons why
  others are not.  `changesOf_cases` — it is one or the other for a list of updates.
* **`Item.get?_updated_listed`** — what stands under each name after proper updates, whatever their
  order.
* `Rows.Placed` — an item stands in the place of an old one, or behind all others.
* `UpdateItem.gives` — what the client is to get back.
* **`Store.updateItem_spec`** — requests for updates, after every run.
-/

namespace ItemStore

open Answer

/-! ## Proper updates -/

namespace AttributeUpdate

/-- An update that can be made: it is about no key attribute, and it puts a valid value, where the
action may be missing, or deletes and has no value. -/
inductive Proper (keys : KeySchema) (name : String) : AttributeUpdate → Prop
  | put {v : Value} {action : Option UpdateAction} (hname : name ∉ keys.names)
      (haction : action.getD .put = .put) (hvalid : v.Valid) : Proper keys name ⟨some v, action⟩
  | delete (hname : name ∉ keys.names) : Proper keys name ⟨none, some .delete⟩

/-- Why an update cannot be made. -/
inductive Refused (keys : KeySchema) (name : String) : AttributeUpdate → Fault → Prop
  | key {u : AttributeUpdate} (hname : name ∈ keys.names) :
      Refused keys name u (.requestFault (.keyUpdate name))
  | putNothing {action : Option UpdateAction} (hname : name ∉ keys.names)
      (haction : action.getD .put = .put) :
      Refused keys name ⟨none, action⟩ (.requestFault (.putWithoutValue name))
  | putInvalid {v : Value} {text : String} {action : Option UpdateAction}
      (hname : name ∉ keys.names) (haction : action.getD .put = .put)
      (htext : v.invalidNumeral? = some text) :
      Refused keys name ⟨some v, action⟩ (.requestFault (.invalidNumeral text))
  | deleteValue {v : Value} (hname : name ∉ keys.names) :
      Refused keys name ⟨some v, some .delete⟩ (.requestFault (.deleteWithValue name))
  | add {value : Option Value} (hname : name ∉ keys.names) :
      Refused keys name ⟨value, some .add⟩ (.unsupportedOperator UpdateAction.add.name)

variable {keys : KeySchema} {name : String} {u : AttributeUpdate}

/-- An update is proper and asks for a change, or it is refused. -/
lemma change_cases (keys : KeySchema) (name : String) (u : AttributeUpdate) :
    (u.Proper keys name ∧ ∃ c, u.change keys name = .ok c) ∨
      ∃ e, u.Refused keys name e ∧ u.change keys name = .error e := by
  obtain ⟨value, action⟩ := u
  rw [change]
  by_cases hname : name ∈ keys.names
  · rw [if_pos (KeySchema.hasName_iff.mpr hname)]
    exact Or.inr ⟨_, .key hname, rfl⟩
  rw [if_neg (KeySchema.hasName_iff.not.mpr hname)]
  dsimp only
  cases haction : action.getD .put with
  | put =>
      cases value with
      | none => exact Or.inr ⟨_, .putNothing hname haction, rfl⟩
      | some v =>
          cases htext : v.invalidNumeral? with
          | none =>
              have hvalid := Value.invalidNumeral?_eq_none.mp htext
              have hcheck : checkNumerals [v] = .ok () :=
                checkNumerals_eq_ok.mpr (List.forall_mem_singleton.mpr hvalid)
              exact Or.inl ⟨.put hname haction hvalid, .set v, by simp [hcheck]⟩
          | some text =>
              have hcheck : checkNumerals [v] = refuse (.invalidNumeral text) := by
                simp [checkNumerals, htext]
              refine Or.inr ⟨_, .putInvalid hname haction htext, ?_⟩
              dsimp only
              rw [hcheck]
              rfl
  | delete =>
      obtain rfl : action = some .delete := by cases action <;> simp_all
      cases value with
      | none => exact Or.inl ⟨.delete hname, .remove, rfl⟩
      | some v => exact Or.inr ⟨_, .deleteValue hname, rfl⟩
  | add =>
      obtain rfl : action = some .add := by cases action <;> simp_all
      exact Or.inr ⟨_, .add hname, rfl⟩

/-- Nothing proper is refused. -/
lemma Refused.not_proper {e : Fault} (h : u.Refused keys name e) : ¬u.Proper keys name := by
  intro hproper
  cases hproper with
  | put hname haction hvalid =>
      cases h with
      | key hname' => exact hname hname'
      | putInvalid _ _ htext =>
          rw [Value.invalidNumeral?_eq_none.mpr hvalid] at htext
          cases htext
      | deleteValue _ => cases haction
      | add _ => cases haction
  | delete hname =>
      cases h with
      | key hname' => exact hname hname'
      | putNothing _ haction => cases haction

lemma Proper.allowed (h : u.Proper keys name) : u.Allowed keys name := by
  cases h with
  | put hname _ hvalid =>
      refine ⟨hname, ?_⟩
      rintro v ⟨⟩
      exact hvalid
  | delete hname =>
      refine ⟨hname, ?_⟩
      rintro v ⟨⟩

/-- A proper update leaves its value, or nothing. -/
lemma Proper.get?_applyTo (h : u.Proper keys name) (item : Item) :
    (u.applyTo name item).get? name = u.value := by
  cases h with
  | put _ haction _ =>
      rw [applyTo, haction, NameMap.get?_insert, if_pos rfl]
  | delete _ =>
      rw [applyTo]
      exact (NameMap.get?_erase item name name).trans (if_pos rfl)

end AttributeUpdate

section

variable {keys : KeySchema} {updates : List (String × AttributeUpdate)}

/-- **Updates are all proper, or fail as the first does that is not.** -/
theorem changesOf_cases (keys : KeySchema) (updates : List (String × AttributeUpdate)) :
    ((∀ e ∈ updates, e.2.Proper keys e.1) ∧ ∃ changes, changesOf keys updates = .ok changes) ∨
      ∃ before name u later fault, updates = before ++ (name, u) :: later ∧
        (∀ e ∈ before, e.2.Proper keys e.1) ∧ u.Refused keys name fault ∧
          changesOf keys updates = .error fault := by
  induction updates with
  | nil => exact Or.inl ⟨List.forall_mem_nil _, [], rfl⟩
  | cons e rest ih =>
      obtain ⟨name, u⟩ := e
      rw [changesOf]
      rcases u.change_cases keys name with ⟨hproper, c, hc⟩ | ⟨fault, hrefused, hfault⟩
      · rw [hc]
        rcases ih with ⟨hrest, changes, hchanges⟩ | ⟨before, n, w, later, fault, rfl, hbefore, h⟩
        · rw [hchanges]
          exact Or.inl ⟨List.forall_mem_cons.mpr ⟨hproper, hrest⟩, _, rfl⟩
        · refine Or.inr ⟨(name, u) :: before, n, w, later, fault, rfl,
            List.forall_mem_cons.mpr ⟨hproper, hbefore⟩, h.1, ?_⟩
          rw [h.2]
          rfl
      · rw [hfault]
        exact Or.inr ⟨[], name, u, rest, fault, rfl, List.forall_mem_nil _, hrefused, rfl⟩

/-- Proper updates ask for changes, and these make of an item what the updates make of it. -/
lemma changesOf_of_proper (h : ∀ e ∈ updates, e.2.Proper keys e.1) :
    ∃ changes, changesOf keys updates = .ok changes ∧
      ∀ item : Item, item.change changes = item.updated updates := by
  rcases changesOf_cases keys updates with
    ⟨_, changes, hchanges⟩ | ⟨before, name, u, later, fault, rfl, _, hrefused, _⟩
  · exact ⟨changes, hchanges, (changesOf_eq_ok hchanges).2⟩
  · exact absurd (h (name, u) (List.mem_append_right _ List.mem_cons_self)) hrefused.not_proper

/-- **After proper updates of distinct attributes there stands under each name the value of its
update, or none, or what stood there before.** -/
theorem Item.get?_updated_listed (hnodup : (updates.map Prod.fst).Nodup)
    (h : ∀ e ∈ updates, e.2.Proper keys e.1) (item : Item) (name : String) :
    (item.updated updates).get? name =
      match updates.lookup name with
      | some u => u.value
      | none => item.get? name := by
  induction updates generalizing item with
  | nil => rfl
  | cons e rest ih =>
      obtain ⟨hfirst, hrest⟩ := List.nodup_cons.mp hnodup
      obtain ⟨hproper, hothers⟩ := List.forall_mem_cons.mp h
      have hstep : item.updated (e :: rest) = (e.2.applyTo e.1 item).updated rest := rfl
      rw [hstep, ih hrest hothers, lookup_entry]
      by_cases hname : name = e.1
      · rw [if_pos hname, hname, lookup_eq_none hfirst]
        exact hproper.get?_applyTo item
      · rw [if_neg hname, AttributeUpdate.get?_applyTo_of_ne hname]

/-- Lists of updates in another order make the same of an item. -/
lemma Item.updated_eq_of_perm {l l' : NameList AttributeUpdate} (hperm : l'.entries.Perm l.entries)
    (h : ∀ e ∈ l.entries, e.2.Proper keys e.1) (item : Item) :
    item.updated l'.entries = item.updated l.entries := by
  have h' : ∀ e ∈ l'.entries, e.2.Proper keys e.1 := fun e he => h e (hperm.mem_iff.mp he)
  have hlookup : ∀ name, l'.entries.lookup name = l.entries.lookup name := by
    intro name
    refine Option.ext fun u => ?_
    exact NameList.get?_eq_some_iff.trans (hperm.mem_iff.trans NameList.get?_eq_some_iff.symm)
  refine NameMap.ext_get? fun name => ?_
  rw [get?_updated_listed l'.nodup h', get?_updated_listed l.nodup h, hlookup]

end

/-! ## Places of items -/

namespace Rows

/-- Put an item over the one that has a key, or behind all others if there is none. -/
def place (t : Rows) (key new : Item) : Rows :=
  { t with
    items :=
      match t.items.findIdx? fun item => t.keys.sameKey item key with
      | some i => t.items.set i new
      | none => t.items ++ [new] }

/-- Rows in which an item stands over the one that had a key, or behind all others if there was
none.  All other rows are where they were. -/
inductive Placed (t : Rows) (key new : Item) : Option Item → Rows → Prop
  | over {i : ℕ} {base : Item} (hbase : t.items[i]? = some base)
      (hsame : t.keys.sameKey base key = true) :
      Placed t key new (some base) { t with items := t.items.set i new }
  | behind (hnone : ∀ item ∈ t.items, t.keys.sameKey item key = false) :
      Placed t key new none { t with items := t.items ++ [new] }

variable {t : Rows} {key : Item}

lemma placed_place (t : Rows) (key new : Item) :
    t.Placed key new (t.at? key) (t.place key new) := by
  rw [place]
  cases hi : t.items.findIdx? fun item => t.keys.sameKey item key with
  | some i =>
      have hget : t.items[i]? = t.at? key := getElem?_eq_find? hi
      obtain ⟨base, hbase⟩ : ∃ base, t.at? key = some base := by
        rw [← hget]
        exact ⟨_, List.getElem?_eq_getElem (lt_length_of_findIdx? hi)⟩
      rw [hbase]
      exact .over (hget.trans hbase) (sameKey_of_at? hbase)
  | none =>
      rw [at?_eq_none hi]
      exact .behind (List.findIdx?_eq_none_iff.mp hi)

/-- An update places what the changes make of the item under its key, or of the key itself. -/
lemma update_eq (hkey : t.keys.HasKey t.enforceTypes key) (changes : List (String × Change)) :
    (update key changes).attempt t =
      .ok ((t.at? key, ((t.at? key).getD key).change changes),
        t.place key (((t.at? key).getD key).change changes)) := by
  obtain ⟨primary, hprimary⟩ := KeySchema.keyOf_isOk_iff.mpr hkey
  rw [attempt_update]
  refine bind_eq_ok.mpr ⟨primary, hprimary, ?_⟩
  rw [position?_eq hprimary, place]
  cases hi : t.items.findIdx? fun item => t.keys.sameKey item key with
  | some i =>
      dsimp only
      rw [getElem?_eq_find? hi]
      rfl
  | none =>
      rw [at?_eq_none hi]
      rfl

end Rows

/-! ## What an update gives back -/

/-- The attributes that an item has under some names, if it has any of them. -/
def Item.part (item : Item) (names : List String) : Option Item :=
  if (item.restrict names.contains).isEmpty then none else some (item.restrict names.contains)

/-- What a client gets back of the item that it has updated.  There may have been none before. -/
def UpdateItem.gives (r : UpdateItem) (old : Option Item) (new : Item) : Option Item :=
  match r.returned.getD .nothing with
  | .nothing => none
  | .allOld => old
  | .allNew => some new
  | .updatedOld => old.bind fun item => item.part r.updates.names
  | .updatedNew => new.part r.updates.names

/-- An item with a key has attributes. -/
lemma KeySchema.HasKey.isEmpty_eq_false {k : KeySchema} {enforce : Bool} {item : Item}
    (h : k.HasKey enforce item) : item.isEmpty = false := by
  obtain ⟨v, hv, _⟩ := h k.hash List.mem_cons_self
  rw [NameMap.isEmpty, List.isEmpty_eq_false_iff]
  exact List.ne_nil_of_mem (NameMap.get?_eq_some_iff.mp hv)

/-- An item that has any attribute at all is given back as it is. -/
lemma UpdateItem.givenBack_eq_gives (r : UpdateItem) {old : Option Item} {new : Item}
    (hold : ∀ item ∈ old, item.isEmpty = false) (hnew : new.isEmpty = false) :
    givenBack (r.returned.getD .nothing) r.updates.names old new = r.gives old new := by
  have hpart : ∀ item : Item,
      (some (item.restrict r.updates.names.contains)).filter (fun item => !item.isEmpty)
        = item.part r.updates.names := by
    intro item
    rw [Item.part, Option.filter_some]
    cases (item.restrict r.updates.names.contains).isEmpty <;> rfl
  have hwhole : ∀ {item : Item}, item.isEmpty = false →
      (some item).filter (fun item => !item.isEmpty) = some item := by
    intro item h
    rw [Option.filter_some, h]
    rfl
  rw [gives]
  cases r.returned.getD .nothing with
  | nothing => rfl
  | allOld =>
      cases old with
      | none => rfl
      | some item => exact hwhole (hold item rfl)
  | allNew => exact hwhole hnew
  | updatedOld =>
      cases old with
      | none => rfl
      | some item => exact hpart item
  | updatedNew => exact hpart new

/-! ## Requests for updates -/

/-- A table makes proper updates under every key that it accepts. -/
lemma Table.amend_of_proper {t : Table} {key : Item} {updates : NameList AttributeUpdate}
    (hcheck : checkKey t.rows.keys key = .ok ())
    (hkey : t.rows.keys.HasKey t.rows.enforceTypes key)
    (hproper : ∀ e ∈ updates.entries, e.2.Proper t.rows.keys e.1) :
    (amend key updates).attempt t =
      .ok ((t.rows.at? key, ((t.rows.at? key).getD key).updated updates.entries),
        { t with
          rows := t.rows.place key (((t.rows.at? key).getD key).updated updates.entries) }) := by
  obtain ⟨changes, hchanges, hupdated⟩ := changesOf_of_proper hproper
  have hupdate := liftKey_eq_ok.mpr (Rows.update_eq hkey changes)
  rw [hupdated] at hupdate
  rw [attempt_amend]
  exact bind_eq_ok.mpr ⟨(), hcheck, bind_eq_ok.mpr ⟨changes, hchanges,
    bind_eq_ok.mpr ⟨_, hupdate, rfl⟩⟩⟩

namespace Store

variable {s : Store} {stamp : Stamp} {r : UpdateItem} {t : Table}

/-- A request with proper updates makes them. -/
lemma answer_updateItem_of_proper (ht : s.catalog.get? r.table = some t)
    (hcheck : checkKey t.rows.keys r.key = .ok ())
    (hkey : t.rows.keys.HasKey t.rows.enforceTypes r.key)
    (hproper : ∀ e ∈ r.updates.entries, e.2.Proper t.rows.keys e.1) {new : Item}
    (hnew : ((t.rows.at? r.key).getD r.key).updated r.updates.entries = new) :
    s.answer stamp (.updateItem r) =
      (.ok (.attributes
          (givenBack (r.returned.getD .nothing) r.updates.names (t.rows.at? r.key) new)),
        { s with
          catalog := s.catalog.insert r.table { t with rows := t.rows.place r.key new } }) := by
  have hamend := Table.amend_of_proper hcheck hkey hproper
  rw [hnew] at hamend
  show s.writing (updateItem r) = _
  rw [writing_eq (updateItem_atomic r), attempt_updateItem, Catalog.require_eq_ok.mpr ht]
  simp only [bind, Except.bind, hamend]
  rfl

/-- The order of proper updates does not matter. -/
lemma answer_updateItem_of_perm (ht : s.catalog.get? r.table = some t)
    (hcheck : checkKey t.rows.keys r.key = .ok ())
    (hkey : t.rows.keys.HasKey t.rows.enforceTypes r.key)
    (hproper : ∀ e ∈ r.updates.entries, e.2.Proper t.rows.keys e.1)
    {updates : NameList AttributeUpdate} (hperm : updates.entries.Perm r.updates.entries) :
    s.answer stamp (.updateItem { r with updates }) = s.answer stamp (.updateItem r) := by
  have hproper' : ∀ e ∈ updates.entries, e.2.Proper t.rows.keys e.1 :=
    fun e he => hproper e (hperm.mem_iff.mp he)
  have hnew := Item.updated_eq_of_perm hperm hproper ((t.rows.at? r.key).getD r.key)
  have hnames : updates.names.contains = r.updates.names.contains :=
    funext fun name => (hperm.map Prod.fst).contains_eq
  rw [answer_updateItem_of_proper (r := { r with updates }) ht hcheck hkey hproper' hnew,
    answer_updateItem_of_proper ht hcheck hkey hproper rfl]
  simp only [givenBack, hnames]

/-- A request with an update that is not proper fails and changes nothing. -/
lemma answer_updateItem_refused {fault : Fault} (ht : s.catalog.get? r.table = some t)
    (hcheck : checkKey t.rows.keys r.key = .ok ())
    (hfault : changesOf t.rows.keys r.updates.entries = .error fault) :
    s.answer stamp (.updateItem r) = (.error fault, s) := by
  have hamend : (Table.amend r.key r.updates).attempt t = .error fault := by
    rw [Table.attempt_amend, hcheck, hfault]
    rfl
  show s.writing (updateItem r) = _
  rw [writing_eq (updateItem_atomic r), attempt_updateItem, Catalog.require_eq_ok.mpr ht]
  simp only [bind, Except.bind, hamend]

/-- **What a request for updates does**, after every run, under a key that its table accepts.

If all of its updates are proper it succeeds.  The item that it makes has the values of the updates
and else what the item under the key had, or the key itself where there was none; in particular the
key attributes stay as they are spelled.  It takes the place of that item, or comes last, and
nothing else changes.  The client gets back what it has asked for.  The order in which the updates
are listed does not matter.  Otherwise the request fails as the first update does that is not
proper, and changes nothing. -/
theorem updateItem_spec (stamp : Stamp) {settings : Settings} {events : List Event}
    {found : Option Item}
    (hs : s = (new settings).after events) (ht : s.catalog.get? r.table = some t)
    (hgets : s.Gets r.table r.key found) :
    ((∀ e ∈ r.updates.entries, e.2.Proper t.schema.primary e.1) →
      ∃ new rows,
        s.answer stamp (.updateItem r) =
          (.ok (.attributes (r.gives found new)),
            { s with catalog := s.catalog.insert r.table { t with rows } }) ∧
        (∀ name, new.get? name =
          match r.updates.get? name with
          | some u => u.value
          | none => (found.getD r.key).get? name) ∧
        (∀ name ∈ t.schema.primary.names, new.get? name = (found.getD r.key).get? name) ∧
        t.rows.Placed r.key new found rows ∧
        ∀ updates : NameList AttributeUpdate, updates.entries.Perm r.updates.entries →
          s.answer stamp (.updateItem { r with updates }) = s.answer stamp (.updateItem r)) ∧
    ((¬∀ e ∈ r.updates.entries, e.2.Proper t.schema.primary e.1) →
      ∃ before name u later fault, r.updates.entries = before ++ (name, u) :: later ∧
        (∀ e ∈ before, e.2.Proper t.schema.primary e.1) ∧
        u.Refused t.schema.primary name fault ∧
        s.answer stamp (.updateItem r) = (.error fault, s)) := by
  subst hs
  have hsound := sound_after ht
  rw [← hsound.keys_eq]
  obtain ⟨t', ht', hcheck, hkey, rfl⟩ := gets_iff.mp hgets
  obtain rfl : t = t' := Option.some.inj (ht.symm.trans ht')
  constructor
  · intro hproper
    have hkept := Item.get?_updated_listed r.updates.nodup hproper ((t.rows.at? r.key).getD r.key)
    have hbase : t.rows.keys.HasKey t.rows.enforceTypes ((t.rows.at? r.key).getD r.key) := by
      cases hat : t.rows.at? r.key with
      | none => exact hkey
      | some item => exact hsound.rows.hasKey item (Rows.mem_of_at? hat)
    -- no proper update is about a key attribute, so the new item has the key of the old one
    have hallowed : ∀ e ∈ r.updates.entries, e.2.Allowed t.rows.keys e.1 :=
      fun e he => (hproper e he).allowed
    have hkeyKept : ∀ name ∈ t.rows.keys.names,
        (((t.rows.at? r.key).getD r.key).updated r.updates.entries).get? name
          = ((t.rows.at? r.key).getD r.key).get? name :=
      fun name hname => Item.get?_updated hallowed hname _
    generalize hnew : ((t.rows.at? r.key).getD r.key).updated r.updates.entries = new
      at hkept hkeyKept
    refine ⟨new, t.rows.place r.key new, ?_, hkept, ?_, Rows.placed_place _ _ _, ?_⟩
    · rw [answer_updateItem_of_proper ht hcheck hkey hproper hnew,
        r.givenBack_eq_gives (fun item hitem => ?_) (hbase.of_get?_eq hkeyKept).isEmpty_eq_false]
      exact (hsound.rows.hasKey item (Rows.mem_of_at? hitem)).isEmpty_eq_false
    · exact hkeyKept
    · exact fun updates hperm => answer_updateItem_of_perm ht hcheck hkey hproper hperm
  · intro hnot
    rcases changesOf_cases t.rows.keys r.updates.entries with
      ⟨hproper, _⟩ | ⟨before, name, u, later, fault, hsplit, hbefore, hrefused, hfault⟩
    · exact absurd hproper hnot
    · exact ⟨before, name, u, later, fault, hsplit, hbefore, hrefused,
        answer_updateItem_refused ht hcheck hfault⟩

end Store

/-- A request to take the note from a reading, whose key is spelled in another way, and to update
another attribute. -/
def Sample.unnote (name : String) (u : AttributeUpdate) : UpdateItem :=
  ⟨"Readings", key "50e-1", .ofList [("note", ⟨none, some .delete⟩), (name, u)], some .updatedOld⟩

theorem Store.updateItem_spec_sample :
    (∃ new rows,
      Sample.store.answer Sample.stamp
          (.updateItem (Sample.unnote "unit" ⟨some (.text "K"), none⟩))
        = (.ok (.attributes (some (.ofList [("note", .text "third")]))),
            { Sample.store with
              catalog := Sample.store.catalog.insert "Readings" { Sample.table with rows } }) ∧
        new.get? "id" = some (.number "5e0") ∧ new.get? "note" = none ∧
        Sample.table.rows.Placed (Sample.key "50e-1") new
          (some (Sample.reading "5e0" "third")) rows) ∧
      ∃ fault, Sample.store.answer Sample.stamp
          (.updateItem (Sample.unnote "id" ⟨none, some .delete⟩))
        = (.error fault, Sample.store) := by
  have hfound : (Sample.store.answer Sample.stamp
      (.getItem ⟨"Readings", Sample.key "50e-1", []⟩)).1
        = .ok (.item (some (Sample.reading "5e0" "third"))) := by
    decide +kernel
  have hgets : Sample.store.Gets "Readings" (Sample.key "50e-1")
      (some (Sample.reading "5e0" "third")) := fun _ => hfound
  have hnames : Sample.table.schema.primary.names = ["id"] := by decide +kernel
  have hnote : (⟨none, some .delete⟩ : AttributeUpdate).Proper Sample.table.schema.primary "note" :=
    .delete (by rw [hnames]; decide)
  have hunit : (⟨some (.text "K"), none⟩ : AttributeUpdate).Proper
      Sample.table.schema.primary "unit" :=
    .put (by rw [hnames]; decide) rfl (Value.invalidNumeral?_eq_none.mp rfl)
  have hid : (⟨none, some .delete⟩ : AttributeUpdate).Refused Sample.table.schema.primary "id"
      (.requestFault (.keyUpdate "id")) :=
    .key (by rw [hnames]; decide)
  constructor
  · obtain ⟨new, rows, hanswer, hnew, _, hplaced, _⟩ := (updateItem_spec Sample.stamp
      (r := Sample.unnote "unit" ⟨some (.text "K"), none⟩) rfl Sample.get?_table hgets).1
        (List.forall_mem_cons.mpr ⟨hnote, List.forall_mem_singleton.mpr hunit⟩)
    exact ⟨new, rows, hanswer, hnew "id", hnew "note", hplaced⟩
  · obtain ⟨_, _, _, _, fault, _, _, _, hanswer⟩ := (updateItem_spec Sample.stamp
      (r := Sample.unnote "id" ⟨none, some .delete⟩) rfl Sample.get?_table hgets).2
        fun h => hid.not_proper (h _ (List.mem_cons_of_mem _ List.mem_cons_self))
    exact ⟨fault, hanswer⟩

end ItemStore
