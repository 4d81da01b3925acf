/-!
# Maps from names

A finite map whose keys are names, held as a list of entries in increasing order of the names.
Each map has exactly one such list, so two maps with the same entries are equal, and listing a map
always goes through its names in the same order.  Names are ordered by their code points.

* `Ascending` says that a list of entries is in order; no name occurs twice in such a list.
* `insertEntry` and `eraseEntry` work on bare lists, for data that nests inside itself.
* `NameMap` carries the order along as a proof.
-/

namespace ItemStore

/-- Entries in strictly increasing order of their names. -/
def Ascending {α : Type} (entries : List (String × α)) : Prop :=
  entries.Pairwise fun a b => a.1 < b.1

/-- Put an entry in its place, taking over from an entry of the same name. -/
def insertEntry {α : Type} (name : String) (value : α) :
    List (String × α) → List (String × α)
  | [] => [(name, value)]
  | e :: rest =>
    if e.1 < name then e :: insertEntry name value rest
    else if e.1 = name then (name, value) :: rest
    else (name, value) :: e :: rest

def eraseEntry {α : Type} (name : String) (entries : List (String × α)) : List (String × α) :=
  entries.filter fun e => e.1 != name

/-- Arrange entries in order.  Of several entries of one name the last counts. -/
def arrange {α : Type} (entries : List (String × α)) : List (String × α) :=
  entries.foldl (fun sorted e => insertEntry e.1 e.2 sorted) []

section

variable {α : Type}

theorem mem_insertEntry {name : String} {value : α} {e : String × α} :
    ∀ {entries : List (String × α)},
      e ∈ insertEntry name value entries → e = (name, value) ∨ e ∈ entries
  | [], h => Or.inl (List.mem_singleton.mp h)
  | d :: rest, h => by
    unfold insertEntry at h
    split at h
    · rcases List.mem_cons.mp h with rfl | h
      · exact Or.inr List.mem_cons_self
      · exact (mem_insertEntry h).imp_right (List.mem_cons_of_mem d)
    · split at h
      · exact (List.mem_cons.mp h).imp_right (List.mem_cons_of_mem d)
      · exact List.mem_cons.mp h

theorem Ascending.insertEntry (name : String) (value : α) :
    ∀ {entries : List (String × α)}, Ascending entries → Ascending (insertEntry name value entries)
  | [], _ => List.pairwise_singleton _ _
  | d :: rest, h => by
    obtain ⟨hd, hrest⟩ := List.pairwise_cons.mp h
    unfold ItemStore.insertEntry
    split
    · rename_i hlt
      refine List.pairwise_cons.mpr ⟨fun e he => ?_, Ascending.insertEntry name value hrest⟩
      rcases mem_insertEntry he with rfl | he
      · exact hlt
      · exact hd e he
    · split
      · rename_i heq
        exact List.pairwise_cons.mpr ⟨fun e he => heq ▸ hd e he, hrest⟩
      · rename_i hlt hne
        have hgt : name < d.1 := by
          rcases String.le_total d.1 name with hle | hle
          · exact absurd (String.le_antisymm hle (String.not_lt.mp hlt)) hne
          · exact String.not_le.mp fun h' => hne (String.le_antisymm h' hle)
        refine List.pairwise_cons.mpr ⟨fun e he => ?_, h⟩
        rcases List.mem_cons.mp he with rfl | he
        · exact hgt
        · exact String.lt_trans hgt (hd e he)

theorem Ascending.filter (keep : String × α → Bool) {entries : List (String × α)}
    (h : Ascending entries) : Ascending (entries.filter keep) :=
  List.Pairwise.filter keep h

theorem ascending_arrange (entries : List (String × α)) : Ascending (arrange entries) := by
  suffices h : ∀ sorted : List (String × α), Ascending sorted →
      Ascending (entries.foldl (fun sorted e => ItemStore.insertEntry e.1 e.2 sorted) sorted) from
    h [] List.Pairwise.nil
  induction entries with
  | nil => exact fun _ h => h
  | cons e rest ih => exact fun _ h => ih _ (h.insertEntry e.1 e.2)

theorem lookup_entry (n : String) (e : String × α) (rest : List (String × α)) :
    (e :: rest).lookup n = if n = e.1 then some e.2 else rest.lookup n := by
  obtain ⟨name, value⟩ := e
  by_cases h : n = name
  · simp [h]
  · simp [List.lookup_cons, h, beq_eq_false_iff_ne.mpr h]

theorem lookup_eq_none {name : String} {entries : List (String × α)}
    (h : name ∉ entries.map Prod.fst) : entries.lookup name = none := by
  refine List.lookup_eq_none_iff.mpr fun e he => bne_iff_ne.mpr ?_
  rintro rfl
  exact h (List.mem_map_of_mem he)

theorem lookup_insertEntry (name : String) (value : α) (n : String) :
    ∀ entries : List (String × α),
      (ItemStore.insertEntry name value entries).lookup n =
        if n = name then some value else entries.lookup n
  | [] => lookup_entry n (name, value) []
  | e :: rest => by
    unfold ItemStore.insertEntry
    split
    · rename_i hlt
      rw [lookup_entry, lookup_entry, lookup_insertEntry name value n rest]
      by_cases h : n = name
      · subst h
        have hne : ¬ n = e.1 := fun heq => String.lt_irrefl n (by rwa [← heq] at hlt)
        simp [hne]
      · simp [h]
    · split
      · rename_i heq
        rw [lookup_entry, lookup_entry, heq]
        by_cases h : n = name <;> simp [h]
      · exact lookup_entry n (name, value) (e :: rest)

/-- Of entries under one name the last is found where they are arranged. -/
theorem lookup_arrange_eq_last (entries : List (String × α)) (name : String) :
    (arrange entries).lookup name = entries.reverse.lookup name := by
  suffices hfold : ∀ sorted : List (String × α),
      (entries.foldl (fun sorted e => ItemStore.insertEntry e.1 e.2 sorted) sorted).lookup name
        = (entries.reverse.lookup name).or (sorted.lookup name) from
    (hfold []).trans Option.or_none
  induction entries with
  | nil => exact fun _ => rfl
  | cons e rest ih =>
    intro sorted
    rw [List.foldl_cons, ih, lookup_insertEntry, List.reverse_cons, List.lookup_append,
      Option.or_assoc, lookup_entry]
    split <;> rfl

/-- Under distinct names the first entry is the last one. -/
theorem lookup_reverse {entries : List (String × α)} (h : (entries.map Prod.fst).Nodup)
    (name : String) : entries.reverse.lookup name = entries.lookup name := by
  induction entries with
  | nil => rfl
  | cons e rest ih =>
    obtain ⟨hnew, hrest⟩ := List.nodup_cons.mp h
    rw [List.reverse_cons, List.lookup_append, ih hrest, lookup_entry, lookup_entry]
    split
    · rename_i hname
      rw [lookup_eq_none (hname ▸ hnew), Option.none_or]
    · exact Option.or_none

/-- Of entries under distinct names each is found where they are arranged. -/
theorem lookup_arrange {entries : List (String × α)} (h : (entries.map Prod.fst).Nodup)
    (name : String) : (arrange entries).lookup name = entries.lookup name :=
  (lookup_arrange_eq_last entries name).trans (lookup_reverse h name)

theorem lookup_filter_name (keep : String → Bool) (n : String) (entries : List (String × α)) :
    (entries.filter fun e => keep e.1).lookup n =
      if keep n then entries.lookup n else none := by
  induction entries with
  | nil => simp
  | cons e rest ih =>
    rw [List.filter_cons]
    by_cases hk : keep e.1
    · rw [if_pos hk, lookup_entry, lookup_entry, ih]
      by_cases h : n = e.1
      · simp [h, hk]
      · simp [h]
    · rw [if_neg hk, ih, lookup_entry]
      by_cases h : n = e.1
      · simp [h, hk]
      · simp [h]

end

/-- A finite map from names. -/
structure NameMap (α : Type) where
  entries : List (String × α)
  ascending : Ascending entries
deriving DecidableEq

namespace NameMap

variable {α : Type}

def empty : NameMap α :=
  ⟨[], List.Pairwise.nil⟩

instance : Inhabited (NameMap α) := ⟨empty⟩

/-- The map with the given entries, where the last entry of a name counts. -/
def ofList (entries : List (String × α)) : NameMap α :=
  ⟨arrange entries, ascending_arrange entries⟩

def get? (m : NameMap α) (name : String) : Option α :=
  m.entries.lookup name

def insert (m : NameMap α) (name : String) (value : α) : NameMap α :=
  ⟨insertEntry name value m.entries, m.ascending.insertEntry name value⟩

def erase (m : NameMap α) (name : String) : NameMap α :=
  ⟨eraseEntry name m.entries, m.ascending.filter _⟩

def restrict (m : NameMap α) (keep : String → Bool) : NameMap α :=
  ⟨m.entries.filter fun e => keep e.1, m.ascending.filter _⟩

def names (m : NameMap α) : List String :=
  m.entries.map Prod.fst

def values (m : NameMap α) : List α :=
  m.entries.map Prod.snd

def size (m : NameMap α) : Nat :=
  m.entries.length

def isEmpty (m : NameMap α) : Bool :=
  m.entries.isEmpty

/-! ## What is under a name -/

@[simp] theorem get?_empty (n : String) : (empty : NameMap α).get? n = none :=
  rfl

/-- Each of the given entries is found, if their names are distinct. -/
theorem get?_ofList {entries : List (String × α)} (h : (entries.map Prod.fst).Nodup)
    (name : String) : (ofList entries).get? name = entries.lookup name :=
  lookup_arrange h name

theorem get?_insert (m : NameMap α) (name : String) (value : α) (n : String) :
    (m.insert name value).get? n = if n = name then some value else m.get? n :=
  lookup_insertEntry name value n m.entries

theorem get?_restrict (m : NameMap α) (keep : String → Bool) (n : String) :
    (m.restrict keep).get? n = if keep n then m.get? n else none :=
  lookup_filter_name keep n m.entries

theorem get?_erase (m : NameMap α) (name n : String) :
    (m.erase name).get? n = if n = name then none else m.get? n := by
  have h := lookup_filter_name (fun s => s != name) n m.entries
  by_cases hn : n = name <;> simpa [get?, erase, eraseEntry, hn] using h

end NameMap

end ItemStore
