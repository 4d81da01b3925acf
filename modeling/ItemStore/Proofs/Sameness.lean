import ItemStore.Proofs.NumberOrder
import ItemStore.Value.Decoded

/-!
# Sameness of values

Values agree when they are the same once decoded.  The numbers in them may be spelled and
represented in different ways, at any depth of nested lists and maps, so agreement inherits its laws
from `Number.same`.

* `Value.nestedInduction`, `Decoded.nestedInduction` — a property of a container follows from the
  property of everything in it.
* `Value.numerals` lists the number texts of a value, at every depth; a value is `Valid` when all
  of them are numerals.
* **`Value.agrees_comm`**, **`Value.agrees_trans`** — agreement is symmetric and transitive on all
  values.
* **`Value.agrees_self`** — a valid value agrees with itself.  One with a NaN in it does not.
-/

namespace ItemStore

/-! ## Induction over nested values -/

/-- Induction over a value and what is nested in it. -/
@[elab_as_elim]
theorem Value.nestedInduction {P : Value → Prop} (text : ∀ s, P (.text s))
    (number : ∀ n, P (.number n)) (bool : ∀ b, P (.bool b)) (null : P .null)
    (list : ∀ vs, (∀ v ∈ vs, P v) → P (.list vs))
    (map : ∀ fs : List (String × Value), (∀ f ∈ fs, P f.2) → P (.map fs)) (v : Value) : P v :=
  @Value.rec P (fun vs => ∀ v ∈ vs, P v) (fun fs => ∀ f ∈ fs, P f.2) (fun f => P f.2)
    text number bool null list map
    (List.forall_mem_nil _) (fun _ _ hv hvs => List.forall_mem_cons.mpr ⟨hv, hvs⟩)
    (List.forall_mem_nil _) (fun _ _ hf hfs => List.forall_mem_cons.mpr ⟨hf, hfs⟩)
    (fun _ _ hv => hv) v

/-- Induction over a decoded value and what is nested in it. -/
@[elab_as_elim]
theorem Decoded.nestedInduction {P : Decoded → Prop} (null : P .null) (bool : ∀ b, P (.bool b))
    (number : ∀ n, P (.number n)) (text : ∀ s, P (.text s))
    (list : ∀ ds, (∀ d ∈ ds, P d) → P (.list ds))
    (map : ∀ fs : List (String × Decoded), (∀ f ∈ fs, P f.2) → P (.map fs)) (d : Decoded) : P d :=
  @Decoded.rec P (fun ds => ∀ d ∈ ds, P d) (fun fs => ∀ f ∈ fs, P f.2) (fun f => P f.2)
    null bool number text list map
    (List.forall_mem_nil _) (fun _ _ hd hds => List.forall_mem_cons.mpr ⟨hd, hds⟩)
    (List.forall_mem_nil _) (fun _ _ hf hfs => List.forall_mem_cons.mpr ⟨hf, hfs⟩)
    (fun _ _ hd => hd) d

/-! ## Relations element by element -/

section

variable {α : Type} {R : α → α → Prop}

lemma forall₂_symm_of_mem {as bs : List α} (hsymm : ∀ a ∈ as, ∀ b, R a b → R b a)
    (h : List.Forall₂ R as bs) : List.Forall₂ R bs as := by
  induction h with
  | nil => exact .nil
  | cons hab _ ih =>
      rw [List.forall_mem_cons] at hsymm
      exact .cons (hsymm.1 _ hab) (ih hsymm.2)

lemma forall₂_trans_of_mem {as bs cs : List α}
    (htrans : ∀ a ∈ as, ∀ b c, R a b → R b c → R a c)
    (hab : List.Forall₂ R as bs) (hbc : List.Forall₂ R bs cs) : List.Forall₂ R as cs := by
  induction hab generalizing cs with
  | nil => cases hbc; exact .nil
  | cons h _ ih =>
      rw [List.forall_mem_cons] at htrans
      cases hbc with
      | cons h' hrest => exact .cons (htrans.1 _ _ h h') (ih htrans.2 hrest)

end

/-! ## Decoded values -/

namespace Decoded

lemma sameElements_iff : ∀ {as bs : List Decoded},
    sameElements as bs = true ↔ List.Forall₂ (fun a b => same a b = true) as bs
  | [], [] => by simp [sameElements]
  | [], _ :: _ => by simp [sameElements]
  | _ :: _, [] => by simp [sameElements]
  | a :: as, b :: bs => by
      rw [sameElements, Bool.and_eq_true, sameElements_iff, List.forall₂_cons]

lemma sameFields_iff : ∀ {as bs : List (String × Decoded)},
    sameFields as bs = true ↔
      List.Forall₂ (fun a b => a.1 = b.1 ∧ same a.2 b.2 = true) as bs
  | [], [] => by simp [sameFields]
  | [], _ :: _ => by simp [sameFields]
  | _ :: _, [] => by simp [sameFields]
  | (m, a) :: as, (n, b) :: bs => by
      rw [sameFields, Bool.and_eq_true, Bool.and_eq_true, sameFields_iff, List.forall₂_cons,
        beq_iff_eq]

theorem same_symm {a : Decoded} : ∀ {b : Decoded}, same a b = true → same b a = true := by
  induction a using Decoded.nestedInduction with
  | null => intro b h; cases b <;> simp [same] at h ⊢
  | bool x => intro b h; cases b <;> simp [same] at h ⊢; exact h.symm
  | number m =>
      intro b h
      cases b <;> simp only [same, Bool.false_eq_true] at h ⊢
      rwa [Number.same_comm]
  | text s => intro b h; cases b <;> simp [same] at h ⊢; exact h.symm
  | list as ih =>
      intro b h
      cases b <;> simp only [same, Bool.false_eq_true, sameElements_iff] at h ⊢
      exact forall₂_symm_of_mem (fun a ha _ => ih a ha) h
  | map as ih =>
      intro b h
      cases b <;> simp only [same, Bool.false_eq_true, sameFields_iff] at h ⊢
      exact forall₂_symm_of_mem (fun a ha _ hab => ⟨hab.1.symm, ih a ha hab.2⟩) h

theorem same_trans {a : Decoded} :
    ∀ {b c : Decoded}, same a b = true → same b c = true → same a c = true := by
  induction a using Decoded.nestedInduction with
  | null => intro b c h h'; cases b <;> simp [same] at h; exact h'
  | bool x => intro b c h h'; cases b <;> simp [same] at h; rwa [h]
  | number m =>
      intro b c h h'
      cases b <;> simp only [same, Bool.false_eq_true] at h
      cases c <;> simp only [same, Bool.false_eq_true] at h' ⊢
      exact Number.same_trans h h'
  | text s => intro b c h h'; cases b <;> simp [same] at h; rwa [h]
  | list as ih =>
      intro b c h h'
      cases b <;> simp only [same, Bool.false_eq_true, sameElements_iff] at h
      cases c <;> simp only [same, Bool.false_eq_true, sameElements_iff] at h' ⊢
      exact forall₂_trans_of_mem (fun a ha _ _ => ih a ha) h h'
  | map as ih =>
      intro b c h h'
      cases b <;> simp only [same, Bool.false_eq_true, sameFields_iff] at h
      cases c <;> simp only [same, Bool.false_eq_true, sameFields_iff] at h' ⊢
      exact forall₂_trans_of_mem
        (fun a ha _ _ hab hbc => ⟨hab.1.trans hbc.1, ih a ha hab.2 hbc.2⟩) h h'

end Decoded

/-! ## The numbers in a value -/

namespace Value

mutual

/-- The texts of the numbers in a value, at every depth. -/
def numerals : Value → List String
  | .number n => [n]
  | .list elements => elementNumerals elements
  | .map fields => fieldNumerals fields
  | .text _ | .bool _ | .null => []

/-- The texts of the numbers in the elements of a list. -/
def elementNumerals : List Value → List String
  | [] => []
  | v :: rest => numerals v ++ elementNumerals rest

/-- The texts of the numbers in the fields of a map. -/
def fieldNumerals : List (String × Value) → List String
  | [] => []
  | (_, v) :: rest => numerals v ++ fieldNumerals rest

end

lemma elementNumerals_eq : ∀ vs : List Value, elementNumerals vs = vs.flatMap numerals
  | [] => rfl
  | v :: vs => by rw [elementNumerals, elementNumerals_eq, List.flatMap_cons]

lemma fieldNumerals_eq : ∀ fs : List (String × Value),
    fieldNumerals fs = fs.flatMap fun f => f.2.numerals
  | [] => rfl
  | (name, v) :: fs => by rw [fieldNumerals, fieldNumerals_eq, List.flatMap_cons]

/-- Every number in a value is a numeral. -/
def Valid (v : Value) : Prop := ∀ n ∈ v.numerals, isNumeral n = true

lemma valid_number {n : String} : Valid (.number n) ↔ isNumeral n = true := by
  simp [Valid, numerals]

lemma valid_list : ∀ {vs : List Value}, Valid (.list vs) ↔ ∀ v ∈ vs, v.Valid
  | [] => by simp [Valid, numerals, elementNumerals]
  | v :: vs => by
      have ih := @valid_list vs
      simp only [Valid, numerals, elementNumerals, List.forall_mem_append, List.forall_mem_cons]
        at ih ⊢
      rw [ih]

lemma valid_map : ∀ {fs : List (String × Value)}, Valid (.map fs) ↔ ∀ f ∈ fs, f.2.Valid
  | [] => by simp [Valid, numerals, fieldNumerals]
  | (name, v) :: fs => by
      have ih := @valid_map fs
      simp only [Valid, numerals, fieldNumerals, List.forall_mem_append, List.forall_mem_cons]
        at ih ⊢
      rw [ih]

lemma invalidElement?_eq_none : ∀ {vs : List Value},
    invalidElement? vs = none ↔ ∀ v ∈ vs, v.invalidNumeral? = none
  | [] => by simp [invalidElement?]
  | v :: vs => by
      rw [invalidElement?, Option.or_eq_none_iff, invalidElement?_eq_none, List.forall_mem_cons]

lemma invalidField?_eq_none : ∀ {fs : List (String × Value)},
    invalidField? fs = none ↔ ∀ f ∈ fs, f.2.invalidNumeral? = none
  | [] => by simp [invalidField?]
  | (name, v) :: fs => by
      rw [invalidField?, Option.or_eq_none_iff, invalidField?_eq_none, List.forall_mem_cons]

/-- **The search for a bad number finds none exactly where there is none.** -/
theorem invalidNumeral?_eq_none {v : Value} : v.invalidNumeral? = none ↔ v.Valid := by
  induction v using Value.nestedInduction with
  | text s => simp [invalidNumeral?, Valid, numerals]
  | number n => rw [valid_number]; simp [invalidNumeral?]
  | bool b => simp [invalidNumeral?, Valid, numerals]
  | null => simp [invalidNumeral?, Valid, numerals]
  | list vs ih => rw [invalidNumeral?, invalidElement?_eq_none, valid_list]; exact forall₂_congr ih
  | map fs ih => rw [invalidNumeral?, invalidField?_eq_none, valid_map]; exact forall₂_congr ih

/-! ## Agreement -/

lemma decodeElements_eq : ∀ vs : List Value, decodeElements vs = vs.map decode
  | [] => rfl
  | v :: vs => by rw [decodeElements, decodeElements_eq, List.map_cons]

lemma decodeFields_eq : ∀ fs : List (String × Value),
    decodeFields fs = fs.map fun f => (f.1, f.2.decode)
  | [] => rfl
  | (name, v) :: fs => by rw [decodeFields, decodeFields_eq, List.map_cons]

theorem agrees_comm (v w : Value) : v.agrees w = w.agrees v :=
  Bool.eq_iff_iff.mpr ⟨Decoded.same_symm, Decoded.same_symm⟩

theorem agrees_trans {u v w : Value} (huv : u.agrees v = true) (hvw : v.agrees w = true) :
    u.agrees w = true :=
  Decoded.same_trans huv hvw

/-- **A valid value agrees with itself**: none of its numbers reads as a NaN. -/
theorem agrees_self {v : Value} (h : v.Valid) : v.agrees v = true := by
  rw [agrees]
  induction v using Value.nestedInduction with
  | text s => simp [decode, Decoded.same]
  | number n =>
      rw [decode, Decoded.same, Number.same_self_iff]
      exact Number.value?_read_isSome (valid_number.mp h)
  | bool b => simp [decode, Decoded.same]
  | null => rfl
  | list vs ih =>
      rw [valid_list] at h
      rw [decode, Decoded.same, Decoded.sameElements_iff, decodeElements_eq,
        List.forall₂_map_left_iff, List.forall₂_map_right_iff, List.forall₂_same]
      exact fun v hv => ih v hv (h v hv)
  | map fs ih =>
      rw [valid_map] at h
      rw [decode, Decoded.same, Decoded.sameFields_iff, decodeFields_eq,
        List.forall₂_map_left_iff, List.forall₂_map_right_iff, List.forall₂_same]
      exact fun f hf => ⟨rfl, ih f hf (h f hf)⟩

end Value

end ItemStore
