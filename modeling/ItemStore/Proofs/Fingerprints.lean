import ItemStore.Proofs.ValueText
import ItemStore.Value.Fingerprint
import Mathlib.Data.List.Sort

/-!
# Identical values have one fingerprint

Values are compared in one way and hashed in another.  `Value.identical` looks the fields of one map
up in the other, and `Value.fingerprint` sorts the fields of each.  Both are blind to the order in
which fields are listed, at every depth, because both see of a value no more than its arrangement.

* `Value.DistinctNames` — no map in a value has a name twice.
* `Value.arranged` — the value with the fields of all its maps in order of their names.
* **`Value.identical_iff_arranged_eq`** — values are identical when they are arranged alike.
* **`Value.fingerprint_arranged`** — arranging a value leaves its fingerprint as it is.
* `Value.Keeps` — what a hash set holds after a list of values was put into it, whatever the hash.
* **`Value.fingerprint_agrees`** — identical values have one fingerprint, so that a hash set keeps
  one of each kind.
-/

namespace ItemStore

/-! ## Entries under distinct names -/

section

variable {α β : Type}

lemma lookup_eq_some_iff : ∀ {es : List (String × α)}, (es.map Prod.fst).Nodup →
    ∀ {name : String} {a : α}, es.lookup name = some a ↔ (name, a) ∈ es
  | [], _, _, _ => by simp
  | e :: rest, hnodup, name, a => by
      obtain ⟨hfirst, hrest⟩ := List.nodup_cons.mp hnodup
      rw [lookup_entry, List.mem_cons]
      by_cases hname : name = e.1
      · have hlater : (name, a) ∉ rest := fun hmem => hfirst (hname ▸ List.mem_map_of_mem hmem)
        rw [if_pos hname, Option.some.injEq, or_iff_left hlater, Prod.ext_iff, eq_comm (a := e.2)]
        exact (and_iff_right hname).symm
      · have hother : ¬ (name, a) = e := fun heq => hname (congrArg Prod.fst heq)
        rw [if_neg hname, lookup_eq_some_iff hrest, or_iff_right hother]

lemma isSome_lookup_iff {name : String} : ∀ {es : List (String × α)},
    (es.lookup name).isSome = true ↔ name ∈ es.map Prod.fst
  | [] => by simp
  | e :: rest => by
      rw [lookup_entry, List.map_cons, List.mem_cons, ← isSome_lookup_iff]
      split <;> simp_all

lemma lookup_map_snd (g : α → β) (name : String) : ∀ es : List (String × α),
    (es.map fun e => (e.1, g e.2)).lookup name = (es.lookup name).map g
  | [] => rfl
  | e :: rest => by
      rw [List.map_cons, lookup_entry, lookup_entry, lookup_map_snd g name rest]
      split <;> rfl

/-- Entries under distinct names are only reordered when they are arranged. -/
lemma arrange_perm {es : List (String × α)} (h : (es.map Prod.fst).Nodup) :
    (arrange es).Perm es := by
  have hnodup := NameMap.names_nodup (NameMap.ofList es)
  refine (List.perm_ext_iff_of_nodup hnodup.of_map h.of_map).mpr fun e => ?_
  rw [← lookup_eq_some_iff h, ← lookup_eq_some_iff hnodup]
  exact iff_of_eq (congrArg (· = some e.2) (lookup_arrange h e.1))

/-- Entries are arranged alike when the same is found under every name. -/
lemma arrange_eq_iff {es es' : List (String × α)} (h : (es.map Prod.fst).Nodup)
    (h' : (es'.map Prod.fst).Nodup) :
    arrange es = arrange es' ↔ ∀ name, es.lookup name = es'.lookup name := by
  refine ⟨fun heq name => ?_, fun hlookup => ?_⟩
  · rw [← lookup_arrange h, ← lookup_arrange h', heq]
  · have hmaps : NameMap.ofList es = NameMap.ofList es' := NameMap.ext_get? fun name => by
      rw [NameMap.get?_ofList h, NameMap.get?_ofList h', hlookup]
    exact congrArg NameMap.entries hmaps

/-- Entries in different orders are sorted into the same list. -/
lemma sortedByName_eq_of_perm {es es' : List (String × α)} (hperm : es.Perm es')
    (h : (es.map Prod.fst).Nodup) : sortedByName es = sortedByName es' := by
  have htrans : ∀ a b c : String × α, decide (a.1 ≤ b.1) = true → decide (b.1 ≤ c.1) = true →
      decide (a.1 ≤ c.1) = true := by
    intro a b c hab hbc
    rw [decide_eq_true_eq] at *
    exact le_trans hab hbc
  have htotal : ∀ a b : String × α, (decide (a.1 ≤ b.1) || decide (b.1 ≤ a.1)) = true := by
    intro a b
    rw [Bool.or_eq_true, decide_eq_true_eq, decide_eq_true_eq]
    exact le_total a.1 b.1
  have hsorted : ∀ l : List (String × α), (sortedByName l).Pairwise fun a b => a.1 ≤ b.1 :=
    fun l => (List.pairwise_mergeSort htrans htotal l).imp of_decide_eq_true
  have hsort : (sortedByName es).Perm es := List.mergeSort_perm _ _
  have hsort' : (sortedByName es').Perm es' := List.mergeSort_perm _ _
  refine (hsort.trans (hperm.trans hsort'.symm)).eq_of_pairwise ?_ (hsorted es) (hsorted es')
  intro a b ha hb hab hba
  exact List.inj_on_of_nodup_map h (hsort.mem_iff.mp ha)
    (hperm.mem_iff.mpr (hsort'.mem_iff.mp hb)) (le_antisymm hab hba)

end

namespace Value

/-! ## Arrangement -/

/-- No map in a value has a name twice. -/
inductive DistinctNames : Value → Prop
  | text (s : String) : DistinctNames (.text s)
  | number (n : String) : DistinctNames (.number n)
  | bool (b : Bool) : DistinctNames (.bool b)
  | null : DistinctNames .null
  | list {vs : List Value} (h : ∀ v ∈ vs, DistinctNames v) : DistinctNames (.list vs)
  | map {fs : List (String × Value)} (hnames : (fs.map Prod.fst).Nodup)
      (h : ∀ f ∈ fs, DistinctNames f.2) : DistinctNames (.map fs)

mutual

/-- A value with the fields of all its maps in order of their names. -/
def arranged : Value → Value
  | .list vs => .list (arrangedElements vs)
  | .map fs => .ofFields (arrangedFields fs)
  | .text s => .text s
  | .number n => .number n
  | .bool b => .bool b
  | .null => .null

def arrangedElements : List Value → List Value
  | [] => []
  | v :: rest => arranged v :: arrangedElements rest

def arrangedFields : List (String × Value) → List (String × Value)
  | [] => []
  | (name, v) :: rest => (name, arranged v) :: arrangedFields rest

end

lemma arrangedElements_eq : ∀ vs : List Value, arrangedElements vs = vs.map arranged
  | [] => rfl
  | v :: vs => by rw [arrangedElements, arrangedElements_eq, List.map_cons]

lemma arrangedFields_eq : ∀ fs : List (String × Value),
    arrangedFields fs = fs.map fun f => (f.1, f.2.arranged)
  | [] => rfl
  | (name, v) :: fs => by rw [arrangedFields, arrangedFields_eq, List.map_cons]

lemma map_fst_arrangedFields (fs : List (String × Value)) :
    (arrangedFields fs).map Prod.fst = fs.map Prod.fst := by
  rw [arrangedFields_eq, List.map_map]
  rfl

/-! ## Comparison -/

lemma identicalElements_iff : ∀ {vs ws : List Value},
    identicalElements vs ws = true ↔ List.Forall₂ (fun v w => identical v w = true) vs ws
  | [], [] => by simp [identicalElements]
  | [], _ :: _ => by simp [identicalElements]
  | _ :: _, [] => by simp [identicalElements]
  | v :: vs, w :: ws => by
      rw [identicalElements, Bool.and_eq_true, identicalElements_iff, List.forall₂_cons]

lemma fieldsWithin_iff {gs : List (String × Value)} : ∀ {fs : List (String × Value)},
    fieldsWithin fs gs = true
      ↔ ∀ f ∈ fs, ∃ w, gs.lookup f.1 = some w ∧ identical f.2 w = true
  | [] => by simp [fieldsWithin]
  | (name, v) :: fs => by
      rw [fieldsWithin, Bool.and_eq_true, fieldsWithin_iff, List.forall_mem_cons]
      cases gs.lookup name <;> simp

/-- Lists are related element by element when they have the same image. -/
lemma forall₂_iff_map_eq {α β : Type} {R : α → α → Prop} {g : α → β} : ∀ {as bs : List α},
    (∀ a ∈ as, ∀ b ∈ bs, R a b ↔ g a = g b) → (List.Forall₂ R as bs ↔ as.map g = bs.map g)
  | [], [], _ => by simp
  | [], _ :: _, _ => by simp
  | _ :: _, [], _ => by simp
  | a :: as, b :: bs, h => by
      have hfirst := h a List.mem_cons_self b List.mem_cons_self
      have hrest := forall₂_iff_map_eq fun a' ha b' hb =>
        h a' (List.mem_cons_of_mem a ha) b' (List.mem_cons_of_mem b hb)
      rw [List.forall₂_cons, hfirst, hrest, List.map_cons, List.map_cons, List.cons_eq_cons]

/-- Names that are distinct and as many as the names among which they are found are all of them. -/
lemma names_iff_of_length_eq {fs gs : List (String × Value)} (hnames : (fs.map Prod.fst).Nodup)
    (hnames' : (gs.map Prod.fst).Nodup) :
    (fs.length = gs.length ∧ ∀ f ∈ fs, f.1 ∈ gs.map Prod.fst)
      ↔ ∀ name, name ∈ fs.map Prod.fst ↔ name ∈ gs.map Prod.fst := by
  rw [← List.perm_ext_iff_of_nodup hnames hnames']
  constructor
  · rintro ⟨hlength, hwithin⟩
    have hsubset : fs.map Prod.fst ⊆ gs.map Prod.fst := List.forall_mem_map.mpr hwithin
    refine (List.subperm_of_subset hnames hsubset).perm_of_length_le ?_
    rw [List.length_map, List.length_map, hlength]
  · intro hperm
    refine ⟨by simpa using hperm.length_eq, fun f hf => hperm.mem_iff.mp (List.mem_map_of_mem hf)⟩

/-- Maps are identical when they give values that are arranged alike under every name. -/
lemma identical_map_iff {fs gs : List (String × Value)} (hnames : (fs.map Prod.fst).Nodup)
    (hnames' : (gs.map Prod.fst).Nodup)
    (hsame : ∀ f ∈ fs, ∀ g ∈ gs, f.2.identical g.2 = true ↔ f.2.arranged = g.2.arranged) :
    identical (.map fs) (.map gs) = true
      ↔ ∀ name, (fs.lookup name).map arranged = (gs.lookup name).map arranged := by
  rw [identical, Bool.and_eq_true, beq_iff_eq, fieldsWithin_iff]
  constructor
  · rintro ⟨hlength, hwithin⟩ name
    have hall := (names_iff_of_length_eq hnames hnames').mp ⟨hlength, fun f hf => by
      obtain ⟨w, hw, -⟩ := hwithin f hf
      exact isSome_lookup_iff.mp (Option.isSome_of_eq_some hw)⟩
    cases hv : fs.lookup name with
    | none =>
        have hnone : ¬ name ∈ gs.map Prod.fst := by
          rw [← hall, ← isSome_lookup_iff, hv]
          exact Bool.false_ne_true
        rw [lookup_eq_none hnone]
    | some v =>
        have hf := (lookup_eq_some_iff hnames).mp hv
        obtain ⟨w, hw, hidentical⟩ := hwithin (name, v) hf
        have hg := (lookup_eq_some_iff hnames').mp hw
        rw [hw, Option.map_some, Option.map_some, (hsame _ hf _ hg).mp hidentical]
  · intro h
    have hall : ∀ name, name ∈ fs.map Prod.fst ↔ name ∈ gs.map Prod.fst := fun name => by
      rw [← isSome_lookup_iff, ← isSome_lookup_iff, ← Option.isSome_map, h, Option.isSome_map]
    refine ⟨((names_iff_of_length_eq hnames hnames').mpr hall).1, fun f hf => ?_⟩
    have hlookup := h f.1
    rw [(lookup_eq_some_iff hnames).mpr hf, Option.map_some] at hlookup
    obtain ⟨w, hw, harranged⟩ := Option.map_eq_some_iff.mp hlookup.symm
    exact ⟨w, hw, (hsame f hf _ ((lookup_eq_some_iff hnames').mp hw)).mpr harranged.symm⟩

/-- **Values are identical when they are arranged alike.** -/
theorem identical_iff_arranged_eq {v w : Value} (hv : v.DistinctNames) (hw : w.DistinctNames) :
    v.identical w = true ↔ v.arranged = w.arranged := by
  induction hv generalizing w with
  | text s => cases w <;> simp [identical, arranged, ofFields]
  | number n => cases w <;> simp [identical, arranged, ofFields]
  | bool b => cases w <;> simp [identical, arranged, ofFields]
  | null => cases w <;> simp [identical, arranged, ofFields]
  | list _ ih =>
      cases hw with
      | list hws =>
          rw [identical, identicalElements_iff, arranged, arranged, Value.list.injEq,
            arrangedElements_eq, arrangedElements_eq]
          exact forall₂_iff_map_eq fun v hv w hw => ih v hv (hws w hw)
      | _ => simp [identical, arranged, ofFields]
  | @map fs hnames _ ih =>
      cases hw with
      | @map gs hnames' hgs =>
          rw [identical_map_iff hnames hnames' fun f hf g hg => ih f hf (hgs g hg), arranged,
            arranged, ofFields, ofFields, Value.map.injEq,
            arrange_eq_iff (by rwa [map_fst_arrangedFields]) (by rwa [map_fst_arrangedFields])]
          simp only [arrangedFields_eq, lookup_map_snd]
      | _ => simp [identical, arranged, ofFields]

/-! ## Fingerprints -/

lemma elementMarks_eq : ∀ vs : List Value, elementMarks vs = vs.flatMap fingerprint
  | [] => rfl
  | v :: vs => by rw [elementMarks, elementMarks_eq, List.flatMap_cons]

lemma fieldMarks_eq : ∀ fs : List (String × Value),
    fieldMarks fs = fs.map fun f => (f.1, f.2.fingerprint)
  | [] => rfl
  | (name, v) :: fs => by rw [fieldMarks, fieldMarks_eq, List.map_cons]

/-- **Arranging a value leaves its fingerprint as it is.** -/
theorem fingerprint_arranged {v : Value} (h : v.DistinctNames) :
    v.arranged.fingerprint = v.fingerprint := by
  induction h with
  | text s => rfl
  | number n => rfl
  | bool b => rfl
  | null => rfl
  | @list vs _ ih =>
      rw [arranged, arrangedElements_eq, fingerprint, fingerprint, elementMarks_eq, elementMarks_eq,
        List.length_map, List.flatMap_map, List.flatMap_congr ih]
  | @map fs hnames _ ih =>
      have hmarks : fieldMarks (arrangedFields fs) = fieldMarks fs := by
        rw [fieldMarks_eq, fieldMarks_eq, arrangedFields_eq, List.map_map]
        exact List.map_congr_left fun f hf => congrArg (Prod.mk f.1) (ih f hf)
      have hdistinct : ((arrangedFields fs).map Prod.fst).Nodup := by rwa [map_fst_arrangedFields]
      have hperm : (fieldMarks (arrange (arrangedFields fs))).Perm (fieldMarks fs) := by
        rw [← hmarks, fieldMarks_eq, fieldMarks_eq]
        exact (arrange_perm hdistinct).map _
      have hnodup : ((fieldMarks fs).map Prod.fst).Nodup := by
        rw [fieldMarks_eq, List.map_map]
        exact hnames
      rw [arranged, ofFields, fingerprint, fingerprint, ← sortedByName_eq_of_perm hperm.symm hnodup]

/-- Identical values have one fingerprint. -/
lemma fingerprint_eq_of_identical {v w : Value} (hv : v.DistinctNames) (hw : w.DistinctNames)
    (h : v.identical w = true) : v.fingerprint = w.fingerprint := by
  rw [← fingerprint_arranged hv, (identical_iff_arranged_eq hv hw).mp h, fingerprint_arranged hw]

/-! ## Hash sets -/

/-- What a hash set holds after a list of values was put into it: some of the values, one of each
arrangement, each with its hash. -/
structure Keeps (hash : List Mark → UInt64) (values : List Value) (set : List (UInt64 × Value)) :
    Prop where
  hashes : ∀ e ∈ set, e.1 = hash e.2.fingerprint
  sublist : (set.map Prod.snd).Sublist values
  nodup : (set.map fun e => e.2.arranged).Nodup
  covers : ∀ v ∈ values, v.arranged ∈ set.map fun e => e.2.arranged

section

variable {hash : List Mark → UInt64} {values : List Value} {set : List (UInt64 × Value)} {v : Value}

lemma Keeps.empty : Keeps hash [] [] where
  hashes := by simp
  sublist := List.Sublist.refl []
  nodup := List.nodup_nil
  covers := by simp

lemma Keeps.mem_values (h : Keeps hash values set) {e : UInt64 × Value} (he : e ∈ set) :
    e.2 ∈ values :=
  h.sublist.subset (List.mem_map_of_mem he)

/-- A value is found in the set when one of its arrangement is there: that one has its hash. -/
lemma Keeps.any_iff (h : Keeps hash values set) (hvalues : ∀ w ∈ values, w.DistinctNames)
    (hv : v.DistinctNames) :
    (set.any fun e => e.1 == hash v.fingerprint && e.2.identical v) = true
      ↔ v.arranged ∈ set.map fun e => e.2.arranged := by
  rw [List.any_eq_true, List.mem_map]
  refine exists_congr fun e => and_congr_right fun he => ?_
  have hdistinct := hvalues e.2 (h.mem_values he)
  rw [Bool.and_eq_true, beq_iff_eq, identical_iff_arranged_eq hdistinct hv, and_iff_right_iff_imp]
  intro harranged
  rw [h.hashes e he, ← fingerprint_arranged hdistinct, harranged, fingerprint_arranged hv]

/-- A set goes on keeping one value of each arrangement when a value is added to it. -/
lemma Keeps.addTo (h : Keeps hash values set) (hvalues : ∀ w ∈ values, w.DistinctNames)
    (hv : v.DistinctNames) : Keeps hash (values ++ [v]) (addTo hash set v) := by
  have hfound := h.any_iff hvalues hv
  rw [Value.addTo]
  split
  case isTrue hany =>
    exact { hashes := h.hashes
            sublist := h.sublist.trans (List.sublist_append_left values [v])
            nodup := h.nodup
            covers := List.forall_mem_append.mpr
              ⟨h.covers, List.forall_mem_singleton.mpr (hfound.mp hany)⟩ }
  case isFalse hany =>
    have hnew := mt hfound.mpr hany
    refine ⟨?_, ?_, ?_, ?_⟩
    · exact List.forall_mem_append.mpr ⟨h.hashes, List.forall_mem_singleton.mpr rfl⟩
    · rw [List.map_append]
      exact h.sublist.append (List.Sublist.refl [v])
    · rw [List.map_append, List.map_singleton, ← List.concat_eq_append]
      exact h.nodup.concat hnew
    · rw [List.map_append, List.map_singleton]
      exact List.forall_mem_append.mpr
        ⟨fun w hw => List.mem_append_left _ (h.covers w hw),
          List.forall_mem_singleton.mpr (List.mem_append_right _ (List.mem_singleton_self _))⟩

/-- **A hash set keeps one value of each arrangement,** whatever the hash. -/
theorem keeps_hashSet (hash : List Mark → UInt64) (hvalues : ∀ v ∈ values, v.DistinctNames) :
    Keeps hash values (hashSet hash values) := by
  induction values using List.reverseRecOn with
  | nil => exact Keeps.empty
  | append_singleton values v ih =>
      obtain ⟨hearlier, hlast⟩ := List.forall_mem_append.mp hvalues
      rw [hashSet, List.foldl_append]
      exact (ih hearlier).addTo hearlier (List.forall_mem_singleton.mp hlast)

/-- A set has as many values as there are arrangements. -/
lemma Keeps.length_eq (h : Keeps hash values set) :
    set.length = (values.map arranged).dedup.length := by
  have hperm : (set.map fun e => e.2.arranged).Perm (values.map arranged).dedup := by
    refine (List.perm_ext_iff_of_nodup h.nodup (List.nodup_dedup _)).mpr fun w => ?_
    rw [List.mem_dedup, List.mem_map, List.mem_map]
    constructor
    · rintro ⟨e, he, rfl⟩
      exact ⟨e.2, h.mem_values he, rfl⟩
    · rintro ⟨v, hv, rfl⟩
      exact List.mem_map.mp (h.covers v hv)
  rw [← hperm.length_eq, List.length_map]

/-- **Identical values have one fingerprint.**  Of any values a hash set therefore keeps one of each
kind, whatever the hash, and counts the kinds. -/
theorem fingerprint_agrees :
    (∀ v w : Value, v.DistinctNames → w.DistinctNames → v.identical w = true →
      v.fingerprint = w.fingerprint)
    ∧ ∀ values : List Value, (∀ v ∈ values, v.DistinctNames) →
      (∀ hash, let kept := (hashSet hash values).map Prod.snd
        kept.Sublist values
        ∧ kept.Pairwise (fun v w => v.identical w = false)
        ∧ (∀ v ∈ values, ∃! w, w ∈ kept ∧ w.identical v = true))
      ∧ distinctCount values = (values.map arranged).dedup.length := by
  refine ⟨fun v w => fingerprint_eq_of_identical, fun values hvalues => ⟨fun hash => ?_, ?_⟩⟩
  · have h := keeps_hashSet hash hvalues
    have hkept : ∀ w ∈ (hashSet hash values).map Prod.snd, w.DistinctNames :=
      fun w hw => hvalues w (h.sublist.subset hw)
    have hnodup : (((hashSet hash values).map Prod.snd).map arranged).Nodup := by
      rw [List.map_map]
      exact h.nodup
    refine ⟨h.sublist, ?_, fun v hv => ?_⟩
    · refine (List.pairwise_map.mp hnodup).imp_of_mem fun {v w} hv hw hne => ?_
      rw [← Bool.not_eq_true, identical_iff_arranged_eq (hkept v hv) (hkept w hw)]
      exact hne
    · obtain ⟨e, he, harranged⟩ := List.mem_map.mp (h.covers v hv)
      have hmem := List.mem_map_of_mem (f := Prod.snd) he
      refine ⟨e.2, ⟨hmem, ?_⟩, fun w hw => ?_⟩
      · exact (identical_iff_arranged_eq (hkept _ hmem) (hvalues v hv)).mpr harranged
      · have hlike := (identical_iff_arranged_eq (hkept w hw.1) (hvalues v hv)).mp hw.2
        exact List.inj_on_of_nodup_map hnodup hw.1 hmem (hlike.trans harranged.symm)
  · exact (keeps_hashSet Hashable.hash hvalues).length_eq

/-- Two maps with the same fields in other orders, at two depths. -/
theorem fingerprint_agrees_reordered :
    let v : Value := .map [("a", .list [.map [("x", .null), ("y", .bool true)]]), ("b", .text "t")]
    let w : Value := .map [("b", .text "t"), ("a", .list [.map [("y", .bool true), ("x", .null)]])]
    v.fingerprint = w.fingerprint ∧ distinctCount [v, .null, w] = 2 := by
  intro v w
  have hv : v.DistinctNames := by
    refine .map (by decide) (List.forall_mem_cons.mpr ⟨.list (List.forall_mem_singleton.mpr ?_),
      List.forall_mem_singleton.mpr (.text "t")⟩)
    exact .map (by decide)
      (List.forall_mem_cons.mpr ⟨.null, List.forall_mem_singleton.mpr (.bool true)⟩)
  have hw : w.DistinctNames := by
    refine .map (by decide) (List.forall_mem_cons.mpr ⟨.text "t",
      List.forall_mem_singleton.mpr (.list (List.forall_mem_singleton.mpr ?_))⟩)
    exact .map (by decide)
      (List.forall_mem_cons.mpr ⟨.bool true, List.forall_mem_singleton.mpr .null⟩)
  have hvalues : ∀ u ∈ [v, .null, w], u.DistinctNames :=
    List.forall_mem_cons.mpr
      ⟨hv, List.forall_mem_cons.mpr ⟨.null, List.forall_mem_singleton.mpr hw⟩⟩
  exact ⟨fingerprint_agrees.1 v w hv hw (by decide),
    (fingerprint_agrees.2 [v, .null, w] hvalues).2.trans (by decide)⟩

end

end Value

end ItemStore
