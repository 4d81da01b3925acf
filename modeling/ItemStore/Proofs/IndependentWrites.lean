import ItemStore.Proofs.WriteRequests

/-!
# Independent writes

Two requests for single writes are independent when they address different tables, or keys of one
table that do not agree.  Neither can then match the item of the other, create it, or lose it while
rows are moved, and what refuses a request is not among the items.  So the two can be made in either
order: each is answered the same, and the tables end up with the same items, although perhaps not in
the same order.

* `WriteRequest.settles` — whether a request decides what is found under a key.
* **`Store.get?_after_request`** — what one request makes of each table, seen through lookups.
* **`Store.answer_independent`** — a request is answered the same after an independent one.
* **`Store.writes_commute`** — independent requests commute, after every run.
-/

namespace ItemStore

open Answer

/-! ## Requests that do not meet -/

/-- A request for a single write. -/
structure WriteRequest where
  table : String
  write : Write
  returned : Option Returned

namespace WriteRequest

def request (r : WriteRequest) : Request :=
  r.write.request r.table r.returned

/-- The requests are about different tables, or about keys of one table that do not agree. -/
def Independent (c : Catalog) (r r' : WriteRequest) : Prop :=
  r.table ≠ r'.table ∨
    ∀ t, c.get? r.table = some t → t.schema.primary.sameKey r.write.key r'.write.key = false

/-- Whether a request, accepted or not, decides what is found under a key of a table. -/
def settles (r : WriteRequest) (accepted : Bool) (name : String) (keys : KeySchema) (q : Item) :
    Bool :=
  accepted && (name == r.table && keys.sameKey q r.write.key)

variable {c : Catalog} {r r' : WriteRequest} {name : String} {t : Table}

lemma settles_eq_true {accepted : Bool} {keys : KeySchema} {q : Item} :
    r.settles accepted name keys q = true ↔
      accepted = true ∧ name = r.table ∧ keys.sameKey q r.write.key = true := by
  simp only [settles, Bool.and_eq_true, beq_iff_eq]

lemma Independent.symm (h : Independent c r r') : Independent c r' r := by
  rcases h with hne | hkeys
  · exact Or.inl (Ne.symm hne)
  · by_cases htable : r'.table = r.table
    · refine Or.inr fun t ht => ?_
      rw [KeySchema.sameKey_comm]
      exact hkeys t (htable ▸ ht)
    · exact Or.inl htable

/-- Of independent requests at most one decides what is found under a key. -/
lemma Independent.settles_eq_false (h : Independent c r r') (hget : c.get? name = some t)
    {accepted accepted' : Bool} {q : Item}
    (hr : r.settles accepted name t.schema.primary q = true) :
    r'.settles accepted' name t.schema.primary q = false := by
  rw [← Bool.not_eq_true, settles_eq_true]
  rintro ⟨-, hname', hq'⟩
  obtain ⟨-, hname, hq⟩ := settles_eq_true.mp hr
  rcases h with hne | hkeys
  · exact hne (hname.symm.trans hname')
  · rw [KeySchema.sameKey_comm] at hq
    have hsame := KeySchema.sameKey_trans hq hq'
    rw [hkeys t (hname ▸ hget)] at hsame
    cases hsame

/-- A request does not decide what is found under the key of an independent one. -/
lemma Independent.settles_key_eq_false (h : Independent c r r') (hget : c.get? r.table = some t)
    (accepted : Bool) : r'.settles accepted r.table t.schema.primary r.write.key = false := by
  rw [← Bool.not_eq_true, settles_eq_true]
  rintro ⟨-, hname, hkey⟩
  rcases h with hne | hkeys
  · exact hne hname
  · rw [hkeys t hget] at hkey
    cases hkey

end WriteRequest

/-! ## One request -/

namespace Store

variable {enforce : Bool} {s : Store} {r r' : WriteRequest} {name : String} {t : Table}

/-- A table and what a request makes of it: all lookups give what they gave before, except under the
key of the request, if the request is about this table and accepted. -/
structure Passed (r : WriteRequest) (accepted : Bool) (name : String) (t t' : Table) : Prop where
  bare_eq : t'.bare = t.bare
  at?_eq : ∀ q, t'.rows.at? q
    = if r.settles accepted name t.schema.primary q then r.write.leaves (t.rows.at? q)
      else t.rows.at? q

/-- A request leaves a table as it is that it is not about, and every table when it is refused. -/
lemma Passed.refl {accepted : Bool} (h : accepted = false ∨ name ≠ r.table) (t : Table) :
    Passed r accepted name t t where
  bare_eq := rfl
  at?_eq := fun q => by
    rw [if_neg]
    rw [WriteRequest.settles_eq_true]
    rintro ⟨rfl, hname, -⟩
    exact h.elim nofun (absurd hname)

/-- **What a request makes of a table**, seen through lookups. -/
theorem get?_after_request (hs : t.Sound enforce) (hget : s.catalog.get? name = some t)
    (stamp : Stamp) (r : WriteRequest) :
    ∃ t', (s.answer stamp r.request).2.catalog.get? name = some t' ∧ t'.Sound enforce ∧
      Passed r (s.answer stamp r.request).1.isOk name t t' := by
  rw [WriteRequest.request]
  rcases s.answer_request_cases stamp r.table r.returned r.write with
    ⟨e, h⟩ | ⟨t₀, old, t', hget', happly, h⟩ <;> rw [h]
  · exact ⟨t, hget, hs, .refl (Or.inl rfl) t⟩
  · dsimp only
    rw [NameMap.get?_insert]
    split
    · rename_i hname
      subst hname
      obtain rfl : t = t₀ := Option.some.inj (hget.symm.trans hget')
      have happlied := Table.apply_spec hs happly
      refine ⟨t', rfl, happlied.sound hs, Table.bare_of_apply happly, fun q => ?_⟩
      rw [happlied.at?_eq hs]
      simp only [WriteRequest.settles, Except.isOk, Except.toBool, beq_self_eq_true, Bool.true_and]
    · rename_i hname
      exact ⟨t, hget, hs, .refl (Or.inr hname) t⟩

lemma get?_after_request_eq_none (hget : s.catalog.get? name = none) (stamp : Stamp)
    (r : WriteRequest) : (s.answer stamp r.request).2.catalog.get? name = none := by
  have h := s.answer_request_bare stamp r.table r.returned r.write name
  rw [hget] at h
  exact Option.map_eq_none_iff.mp h

/-! ## Two requests -/

/-- **A request is answered the same after an independent one.** -/
theorem answer_independent (hs : ∀ name t, s.catalog.get? name = some t → t.Sound enforce)
    (h : r.Independent s.catalog r') (stamp stamp' : Stamp) :
    ((s.answer stamp' r'.request).2.answer stamp r.request).1 = (s.answer stamp r.request).1 := by
  have hanswer : ∀ s : Store, (s.answer stamp r.request).1 = _ := fun s =>
    s.answer_request_fst stamp r.table r.returned r.write
  rw [hanswer, hanswer]
  cases hget : s.catalog.get? r.table with
  | none =>
      have hget' := get?_after_request_eq_none hget stamp' r'
      rw [Catalog.require, Catalog.require, hget, hget']
  | some t =>
      have ht := hs r.table t hget
      obtain ⟨t', hget', ht', hpassed⟩ := get?_after_request ht hget stamp' r'
      rw [Catalog.require_eq_ok.mpr hget, Catalog.require_eq_ok.mpr hget']
      refine Table.respond_fst_eq ht' ht hpassed.bare_eq ?_
      rw [hpassed.at?_eq, h.settles_key_eq_false hget]
      rfl

/-- A table that two independent requests pass in either order gives the same in lookups. -/
lemma Passed.comm (h : r.Independent s.catalog r') (hget : s.catalog.get? name = some t)
    {accepted accepted' : Bool} {t₁ t₂ t₁₂ t₂₁ : Table} (h₁ : Passed r accepted name t t₁)
    (h₂ : Passed r' accepted' name t t₂) (h₁₂ : Passed r' accepted' name t₁ t₁₂)
    (h₂₁ : Passed r accepted name t₂ t₂₁) (q : Item) : t₁₂.rows.at? q = t₂₁.rows.at? q := by
  rw [h₁₂.at?_eq, h₂₁.at?_eq, h₁.at?_eq, h₂.at?_eq, Table.schema_eq_of_bare h₁.bare_eq,
    Table.schema_eq_of_bare h₂.bare_eq]
  cases hr : r.settles accepted name t.schema.primary q with
  | false => rfl
  | true =>
      rw [h.settles_eq_false hget hr]
      rfl

/-- **Independent requests for single writes commute**, after every run: in either order each of the
two is answered the same, whether with attributes or with a fault, and all tables end up with the
same items. -/
theorem writes_commute {settings : Settings} {events : List Event}
    (hs : (new settings).after events = s) (h : r.Independent s.catalog r') (stamp stamp' : Stamp) :
    ((s.answer stamp' r'.request).2.answer stamp r.request).1 = (s.answer stamp r.request).1 ∧
      ((s.answer stamp r.request).2.answer stamp' r'.request).1 = (s.answer stamp' r'.request).1 ∧
      ((s.answer stamp r.request).2.answer stamp' r'.request).2.SameItems
        ((s.answer stamp' r'.request).2.answer stamp r.request).2 := by
  have hsound : ∀ name t, s.catalog.get? name = some t → t.Sound settings.enforceTypes := by
    subst hs
    exact fun _ _ => sound_after
  have hsettings : ∀ (s : Store) stamp request, (s.answer stamp request).2.settings = s.settings :=
    fun s stamp request => s.next_settings (.request stamp request)
  have hfirst := answer_independent hsound h stamp stamp'
  have hsecond := answer_independent hsound h.symm stamp' stamp
  refine ⟨hfirst, hsecond, by simp only [hsettings], fun name => ?_⟩
  cases hget : s.catalog.get? name with
  | none =>
      rw [get?_after_request_eq_none (get?_after_request_eq_none hget stamp r),
        get?_after_request_eq_none (get?_after_request_eq_none hget stamp' r')]
      exact .none
  | some t =>
      -- `t₁` and `t₂` are the table after one of the requests, `t₁₂` and `t₂₁` after both
      obtain ⟨t₁, hget₁, ht₁, h₁⟩ := get?_after_request (hsound name t hget) hget stamp r
      obtain ⟨t₂, hget₂, ht₂, h₂⟩ := get?_after_request (hsound name t hget) hget stamp' r'
      obtain ⟨t₁₂, hget₁₂, ht₁₂, h₁₂⟩ := get?_after_request ht₁ hget₁ stamp' r'
      obtain ⟨t₂₁, hget₂₁, ht₂₁, h₂₁⟩ := get?_after_request ht₂ hget₂ stamp r
      have hbare : t₁₂.bare = t₂₁.bare :=
        calc t₁₂.bare = t₁.bare := h₁₂.bare_eq
          _ = t.bare := h₁.bare_eq
          _ = t₂.bare := h₂.bare_eq.symm
          _ = t₂₁.bare := h₂₁.bare_eq.symm
      rw [hsecond] at h₁₂
      rw [hfirst] at h₂₁
      rw [hget₁₂, hget₂₁]
      exact .some (Table.sameItems_of_at?_eq ht₁₂ ht₂₁ hbare (Passed.comm h hget h₁ h₂ h₁₂ h₂₁))

end Store

namespace Sample

/-- A removal of the first row. -/
def removal : WriteRequest := ⟨"Readings", .remove (key "6.0"), some .allOld⟩

/-- A put under a new key. -/
def addition : WriteRequest := ⟨"Readings", .put (reading "7" "fourth"), some .allOld⟩

end Sample

/-- Which of the rows moves into the gap depends on the order. -/
theorem Store.writes_commute_sample :
    Sample.removal.Independent Sample.store.catalog Sample.addition ∧
      ((Sample.store.answer Sample.stamp Sample.addition.request).2.answer Sample.stamp
        Sample.removal.request).1 = .ok (.attributes (some (Sample.reading "6" "second"))) ∧
      ((Sample.store.answer Sample.stamp Sample.removal.request).2.answer Sample.stamp
        Sample.addition.request).2.SameItems
        ((Sample.store.answer Sample.stamp Sample.addition.request).2.answer Sample.stamp
          Sample.removal.request).2 := by
  have hindependent : Sample.removal.Independent Sample.store.catalog Sample.addition := by
    refine Or.inr fun t ht => ?_
    obtain rfl : Sample.table = t := Option.some.inj (Sample.get?_table.symm.trans ht)
    decide +kernel
  obtain ⟨hresponse, -, hitems⟩ := writes_commute (show (new {}).after Sample.events = Sample.store
    from rfl) hindependent Sample.stamp Sample.stamp
  refine ⟨hindependent, ?_, hitems⟩
  rw [hresponse]
  decide +kernel

end ItemStore
