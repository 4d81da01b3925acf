import ItemStore.Proofs.Keys

/-!
# Entries with related values

Two lists of entries are related *entrywise* when they have the same names in the same order and
what stands under a name is related.  Everything that works on entries by their names alone keeps
such a relation: lookups, insertions, removals, and the arrangement of a list into a map.

* `Entrywise` — the relation, over any relation of values.
* `Entrywise.lookup`, `Entrywise.insertEntry`, `Entrywise.filter`, `Entrywise.arrange` — what keeps
  it.
* **`entrywise_iff_lookup`** — lists in the order of their names are related entrywise when lookups
  under each name give related outcomes.
-/

namespace ItemStore

/-- Lookups in lists with the same names, in which the value under each name is related as that
name asks. -/
lemma lookup_rel {α β : Type} {R : String → α → β → Prop} {es : List (String × α)}
    {es' : List (String × β)} (h : List.Forall₂ (fun e e' => e.1 = e'.1 ∧ R e.1 e.2 e'.2) es es')
    (name : String) : Option.Rel (R name) (es.lookup name) (es'.lookup name) := by
  induction h with
  | nil => exact .none
  | @cons e e' _ _ he _ ih =>
      rw [lookup_entry, lookup_entry, ← he.1]
      split
      · rename_i hname
        exact .some (hname ▸ he.2)
      · exact ih

/-- The same names in the same order, with related values under them. -/
def Entrywise {α : Type} (R : α → α → Prop) (es es' : List (String × α)) : Prop :=
  List.Forall₂ (fun e e' => e.1 = e'.1 ∧ R e.2 e'.2) es es'

namespace Entrywise

variable {α : Type} {R : α → α → Prop} {es es' : List (String × α)} {a b : α}

lemma map_fst (h : Entrywise R es es') : es.map Prod.fst = es'.map Prod.fst := by
  induction h with
  | nil => rfl
  | cons he _ ih => rw [List.map_cons, List.map_cons, he.1, ih]

lemma map_snd (h : Entrywise R es es') :
    List.Forall₂ R (es.map Prod.snd) (es'.map Prod.snd) := by
  rw [List.forall₂_map_left_iff, List.forall₂_map_right_iff]
  exact h.imp fun _ _ he => he.2

lemma imp {S : α → α → Prop} (himp : ∀ a b, R a b → S a b) (h : Entrywise R es es') :
    Entrywise S es es' :=
  List.Forall₂.imp (fun _ _ he => ⟨he.1, himp _ _ he.2⟩) h

lemma lookup (h : Entrywise R es es') (name : String) :
    Option.Rel R (es.lookup name) (es'.lookup name) :=
  lookup_rel (R := fun _ => R) h name

/-! ### What keeps the relation -/

lemma insertEntry (h : Entrywise R es es') (name : String) (hab : R a b) :
    Entrywise R (insertEntry name a es) (insertEntry name b es') := by
  induction h with
  | nil => exact .cons ⟨rfl, hab⟩ .nil
  | cons he hrest ih =>
      rw [ItemStore.insertEntry, ItemStore.insertEntry, ← he.1]
      split_ifs
      · exact .cons he ih
      · exact .cons ⟨rfl, hab⟩ hrest
      · exact .cons ⟨rfl, hab⟩ (.cons he hrest)

lemma filter (h : Entrywise R es es') (keep : String → Bool) :
    Entrywise R (es.filter fun e => keep e.1) (es'.filter fun e => keep e.1) := by
  induction h with
  | nil => exact .nil
  | cons he _ ih =>
      rw [List.filter_cons, List.filter_cons, ← he.1]
      split
      · exact .cons he ih
      · exact ih

lemma arrange (h : Entrywise R es es') : Entrywise R (arrange es) (arrange es') := by
  suffices hfold : ∀ {sorted sorted' : List (String × α)}, Entrywise R sorted sorted' →
      Entrywise R (es.foldl (fun sorted e => ItemStore.insertEntry e.1 e.2 sorted) sorted)
        (es'.foldl (fun sorted e => ItemStore.insertEntry e.1 e.2 sorted) sorted') from
    hfold .nil
  induction h with
  | nil => exact id
  | cons he _ ih =>
      intro sorted sorted' hsorted
      rw [List.foldl_cons, List.foldl_cons, ← he.1]
      exact ih (hsorted.insertEntry _ he.2)

end Entrywise

/-! ## Entries in order -/

section

variable {α : Type} {R : α → α → Prop}

lemma isSome_eq_of_rel {x y : Option α} (h : Option.Rel R x y) : x.isSome = y.isSome := by
  cases h <;> rfl

/-- Entries under distinct names are related when they have the same names and lookups under each
of these give related outcomes. -/
lemma entrywise_of_lookup : ∀ {es es' : List (String × α)}, (es.map Prod.fst).Nodup →
    es.map Prod.fst = es'.map Prod.fst →
      (∀ name ∈ es.map Prod.fst, Option.Rel R (es.lookup name) (es'.lookup name)) →
        Entrywise R es es'
  | [], [], _, _, _ => .nil
  | [], _ :: _, _, hnames, _ => by simp at hnames
  | _ :: _, [], _, hnames, _ => by simp at hnames
  | e :: rest, e' :: rest', hnodup, hnames, h => by
      obtain ⟨hname, hrestNames⟩ := List.cons.inj hnames
      obtain ⟨hfirst, hrest⟩ := List.nodup_cons.mp hnodup
      have hvalue := h e.1 List.mem_cons_self
      rw [lookup_entry, lookup_entry, if_pos rfl, if_pos hname, Option.rel_some_some] at hvalue
      refine .cons ⟨hname, hvalue⟩ (entrywise_of_lookup hrest hrestNames fun name hmem => ?_)
      have hne : name ≠ e.1 := fun heq => hfirst (heq ▸ hmem)
      have hlater := h name (List.mem_cons_of_mem _ hmem)
      rwa [lookup_entry, lookup_entry, if_neg hne, if_neg (hname ▸ hne)] at hlater

/-- **Entries in order are related when lookups are.** -/
theorem entrywise_iff_lookup {es es' : List (String × α)} (hes : Ascending es)
    (hes' : Ascending es') :
    Entrywise R es es' ↔ ∀ name, Option.Rel R (es.lookup name) (es'.lookup name) := by
  refine ⟨Entrywise.lookup, fun h => ?_⟩
  have hnodup := NameMap.names_nodup ⟨es, hes⟩
  have hnodup' := NameMap.names_nodup ⟨es', hes'⟩
  have hmem : ∀ name, name ∈ es.map Prod.fst ↔ name ∈ es'.map Prod.fst := by
    intro name
    have hname : name ∈ es.map Prod.fst ↔ ∃ a, es.lookup name = some a :=
      NameMap.mem_names_iff (m := ⟨es, hes⟩)
    have hname' : name ∈ es'.map Prod.fst ↔ ∃ a, es'.lookup name = some a :=
      NameMap.mem_names_iff (m := ⟨es', hes'⟩)
    rw [hname, hname', ← Option.isSome_iff_exists, ← Option.isSome_iff_exists,
      isSome_eq_of_rel (h name)]
  have hperm := (List.perm_ext_iff_of_nodup hnodup hnodup').mpr hmem
  refine entrywise_of_lookup hnodup ?_ fun name _ => h name
  exact hperm.eq_of_pairwise (fun _ _ _ _ hlt hgt => absurd hgt hlt.asymm)
    (List.pairwise_map.mpr hes) (List.pairwise_map.mpr hes')

end

end ItemStore
