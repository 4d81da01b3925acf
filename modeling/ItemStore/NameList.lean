/-!
# Lists under names

Entries listed in the order in which their names were first mentioned, each name once.  A request
lists its conditions, its updates and its tables this way: a later mention of a name replaces the
value of the earlier one and leaves it where it stood.
-/

namespace ItemStore

/-- Give a name a value, in place when the name is listed already and at the end otherwise. -/
def mention {α : Type} (name : String) (value : α) : List (String × α) → List (String × α)
  | [] => [(name, value)]
  | e :: rest => if e.1 = name then (name, value) :: rest else e :: mention name value rest

section

variable {α : Type}

theorem map_fst_mention (name : String) (value : α) :
    ∀ entries : List (String × α),
      (mention name value entries).map Prod.fst =
        if name ∈ entries.map Prod.fst then entries.map Prod.fst
        else entries.map Prod.fst ++ [name]
  | [] => rfl
  | e :: rest => by
    unfold mention
    by_cases h : e.1 = name
    · simp [h]
    · have h' : ¬ name = e.1 := fun heq => h heq.symm
      rw [if_neg h, List.map_cons, map_fst_mention name value rest]
      by_cases hmem : name ∈ rest.map Prod.fst
      · rw [if_pos hmem, List.map_cons, if_pos (List.mem_cons_of_mem _ hmem)]
      · rw [if_neg hmem, List.map_cons,
          if_neg fun hm => (List.mem_cons.mp hm).elim h' hmem, List.cons_append]

theorem nodup_mention (name : String) (value : α) {entries : List (String × α)}
    (h : (entries.map Prod.fst).Nodup) : ((mention name value entries).map Prod.fst).Nodup := by
  rw [map_fst_mention]
  split
  · exact h
  · rename_i hmem
    refine List.nodup_append.mpr ⟨h, List.pairwise_singleton _ _, ?_⟩
    intro a ha b hb hab
    exact hmem (List.mem_singleton.mp hb ▸ hab ▸ ha)

end

/-- Entries under distinct names, in order of first mention. -/
structure NameList (α : Type) where
  entries : List (String × α)
  nodup : (entries.map Prod.fst).Nodup
deriving DecidableEq

namespace NameList

variable {α : Type}

def empty : NameList α :=
  ⟨[], List.nodup_nil⟩

instance : Inhabited (NameList α) := ⟨empty⟩

def set (l : NameList α) (name : String) (value : α) : NameList α :=
  ⟨mention name value l.entries, nodup_mention name value l.nodup⟩

def ofList (entries : List (String × α)) : NameList α :=
  entries.foldl (fun l e => l.set e.1 e.2) empty

def get? (l : NameList α) (name : String) : Option α :=
  l.entries.lookup name

/-- The names, in order of first mention. -/
def names (l : NameList α) : List String :=
  l.entries.map Prod.fst

def values (l : NameList α) : List α :=
  l.entries.map Prod.snd

def isEmpty (l : NameList α) : Bool :=
  l.entries.isEmpty

end NameList

end ItemStore
