import ItemStore.Proofs.ReadPaths
import ItemStore.Proofs.Spelling
import ItemStore.Proofs.ValueText
import ItemStore.Wire.Request

/-!
# Decoders and what is written for them

A decoder takes more than is ever written for it: fields in any order, records as arrays, names
that come twice.  What it has decoded is written in one way, and from that it is decoded again.  The
proof follows the decoders.  Each way to make one out of others keeps the property, so that it is
enough to say of every decoder how it is made.

* `Wire.Restores` — what is decoded is decoded again from what is written for it.
* `Wire.string_restores`, `Wire.variant_restores`, `Wire.int32_restores`, `Wire.item_restores`,
  `Wire.listOf_restores` and so on — plain values, and lists of what is restored.
* `Wire.Record.Fills` — members for some of the fields of a record, in their order.
* **`Wire.Record.Writes.decode`** — an object with such members is decoded, if the fields have
  different names.
* `Wire.Record.Restores` — the same property for records that are not complete yet;
  **`Wire.Record.Restores.decode`** completes them.
-/

namespace ItemStore

/-! ## Integers as numbers of JSON -/

/-- A positive integer is written without a zero in front. -/
lemma toDigits_head {n : ℕ} (h : 0 < n) : ∃ c tail, Nat.toDigits 10 n = c :: tail ∧ c ≠ '0' := by
  induction n using Nat.strongRecOn with
  | _ n ih =>
      by_cases hn : n < 10
      · refine ⟨n.digitChar, [], Nat.toDigits_of_lt_base hn, ?_⟩
        interval_cases n <;> decide
      · rw [not_lt] at hn
        obtain ⟨c, tail, hdigits, hc⟩ := ih (n / 10) (by omega) (by omega)
        refine ⟨c, tail ++ [(n % 10).digitChar], ?_, hc⟩
        rw [Nat.toDigits_of_base_le (by norm_num) hn, hdigits, List.cons_append]

/-- The digits of an integer are read up to where something else follows. -/
lemma splitWhole_toDigits (n : ℕ) {rest : List Char}
    (hrest : ∀ c ∈ rest.head?, c.isDigit = false) :
    Json.splitWhole (Nat.toDigits 10 n ++ rest) = some rest := by
  have hdigits : ∀ c ∈ Nat.toDigits 10 n, c.isDigit = true := fun c hc =>
    Nat.isDigit_of_mem_toDigits (by norm_num) le_rfl hc
  have htake : rest.takeWhile Char.isDigit = [] ∧ rest.dropWhile Char.isDigit = rest := by
    cases rest with
    | nil => exact ⟨rfl, rfl⟩
    | cons c _ => simp [hrest c rfl]
  rcases Nat.eq_zero_or_pos n with rfl | hn
  · rfl
  · obtain ⟨c, tail, htext, hc⟩ := toDigits_head hn
    unfold Json.splitWhole
    split
    · rename_i heq
      rw [htext] at heq
      exact absurd (List.cons.inj heq).1 hc
    · rw [List.takeWhile_append_of_pos hdigits, List.dropWhile_append_of_pos hdigits, htake.1,
        htake.2, htext]
      rfl

/-- Behind an integer may stand what may stand behind a zero. -/
lemma isNumber_repr_append (i : ℤ) {rest : List Char}
    (hrest : ∀ c ∈ rest.head?, c.isDigit = false) :
    Json.isNumber (i.repr.toList ++ rest) = Json.isNumber ('0' :: rest) := by
  rw [Int.repr_eq_if]
  split_ifs
  · have hminus : ∀ more, Nat.toDigits 10 i.toNat ++ rest ≠ '-' :: more := by
      intro more heq
      obtain ⟨c, tail, htext⟩ := List.exists_cons_of_ne_nil (Nat.toDigits_ne_nil (b := 10)
        (n := i.toNat))
      rw [htext, List.cons_append] at heq
      have hdigit : Char.isDigit '-' = true :=
        Nat.isDigit_of_mem_toDigits (b := 10) (n := i.toNat) (by norm_num) le_rfl
          (by rw [htext, (List.cons.inj heq).1]; exact List.mem_cons_self)
      cases hdigit
    rw [Nat.toList_repr, Json.isNumber, splitWhole_toDigits _ hrest]
    · rfl
    · exact hminus
  · rw [String.toList_append, Nat.toList_repr]
    show Json.isNumber ('-' :: (Nat.toDigits 10 _ ++ rest)) = _
    rw [Json.isNumber, splitWhole_toDigits _ hrest]
    rfl

/-- What is written for an integer is a number of JSON. -/
lemma isNumber_repr (i : ℤ) : Json.isNumber i.repr.toList = true := by
  rw [← List.append_nil i.repr.toList, isNumber_repr_append i fun _ hc => by cases hc]
  rfl

namespace Wire

/-! ## Restoring -/

/-- A value is decoded from what is written for it, which is legible and is not null. -/
structure Restored {α : Type} (d : Decoder α) (encode : α → Json) (room : ℕ) (a : α) : Prop where
  decoded : d room (encode a) = .ok a
  legible : (encode a).Legible
  ne_null : encode a ≠ .null

/-- Whatever is decoded with enough room is decoded again from what is written for it, with the same
room.  Little room is not enough where something is written that may be left out. -/
def Restores {α : Type} (least : ℕ) (d : Decoder α) (encode : α → Json) : Prop :=
  ∀ room j a, least ≤ room → d room j = .ok a → Restored d encode room a

variable {α β : Type} {least : ℕ} {d : Decoder α} {encode : α → Json}

lemma map_restores {g : α → β} {encode : β → Json} (h : Restores least d fun a => encode (g a)) :
    Restores least (fun room j => (d room j).map g) encode := by
  intro room j b hroom hb
  obtain ⟨a, ha, rfl⟩ := map_eq_ok.mp hb
  have hrestored := h room j a hroom ha
  exact ⟨map_eq_ok.mpr ⟨a, hrestored.decoded, rfl⟩, hrestored.legible, hrestored.ne_null⟩

/-! ### Plain values -/

lemma string_restores : Restores least string Json.text :=
  fun _ _ s _ _ => ⟨rfl, .string (some s), nofun⟩

/-- A name that stands for anything that has it. -/
lemma named_restores {ofName : String → α} {name : α → String} (h : ∀ s, name (ofName s) = s) :
    Restores least (fun room j => (string room j).map ofName) (fun a => .text (name a)) := by
  intro room j a _ ha
  obtain ⟨s, -, rfl⟩ := map_eq_ok.mp ha
  refine ⟨?_, .string _, nofun⟩
  rw [h]
  rfl

/-- A name that stands for one of several things is the name of that thing. -/
lemma variant_restores {variants : List (String × α)} {name : α → String}
    (h : ∀ a, pick variants (name a) = .ok a) :
    Restores least (variant variants) (fun a => .text (name a)) :=
  fun _ _ a _ _ => ⟨h a, .string _, nofun⟩

lemma integerOfLiteral?_repr (i : ℤ) : integerOfLiteral? i.repr = some i := by
  have hread := Numeral.integer?_repr i
  rw [integerOfLiteral?, if_neg, hread]
  intro hrepr
  rw [hrepr] at hread
  obtain rfl : 0 = i := Option.some.inj hread
  exact absurd hrepr (by decide)

lemma int32_restores : Restores least int32 Json.int := by
  intro room j i _ hi
  unfold int32 at hi
  split at hi
  · split at hi
    · split_ifs at hi with hrange
      cases hi
      refine ⟨?_, .number (isNumber_repr _), nofun⟩
      rw [Json.int, int32, integerOfLiteral?_repr]
      exact if_pos hrange
    · cases hi
  · cases hi

lemma value_restores : Restores least value encodeValue := by
  intro room j v _ hv
  have hreadable := readable_of_value hv
  refine ⟨?_, legible_encodeValue v, by cases v <;> nofun⟩
  exact (value_encodeValue_eq_ok hreadable.inOrder).mpr ⟨⟨hreadable.valid, hreadable.depth_le⟩, rfl⟩

lemma ofList_entries (m : NameMap α) : NameMap.ofList m.entries = m := by
  obtain ⟨entries, hentries⟩ := m
  simp only [NameMap.ofList, arrange_of_ascending hentries]

lemma item_eq_ok {room : ℕ} {j : Json} {i : Item} (h : item room j = .ok i) :
    ∃ inner members fs, room = inner + 1 ∧ valueFields inner members = .ok fs ∧
      NameMap.ofList fs = i := by
  unfold item at h
  split at h
  · obtain ⟨fs, hfs, rfl⟩ := map_eq_ok.mp h
    exact ⟨_, _, fs, rfl, hfs, rfl⟩
  · cases h

/-- The fields that are written for an item are in order already. -/
lemma item_restores : Restores least item encodeItem := by
  intro room j i _ hi
  obtain ⟨inner, members, fs, rfl, hfs, rfl⟩ := item_eq_ok hi
  have hreadable : ∀ f ∈ (NameMap.ofList fs).entries, f.2.Readable inner := fun f hf =>
    readable_of_valueFields hfs f (mem_arrange hf)
  have hfields : valueFields inner (encodeFields (NameMap.ofList fs).entries)
      = .ok (NameMap.ofList fs).entries := by
    refine valueFields_eq_ok.mpr (List.forall₂_same.mpr fun f hf => ⟨rfl, ?_⟩)
    have hf := hreadable f hf
    exact (value_encodeValue_eq_ok hf.inOrder).mpr ⟨⟨hf.valid, hf.depth_le⟩, rfl⟩
  refine ⟨?_, ?_, nofun⟩
  · rw [encodeItem, item, hfields]
    exact congrArg Except.ok (ofList_entries _)
  · rw [encodeItem, encodeFields_eq]
    exact .object (List.forall_mem_map.mpr fun f _ => legible_encodeValue f.2)

/-! ### Lists -/

lemma eachElement_restored {room : ℕ} {js : List Json} {as : List α} (h : Restores least d encode)
    (hroom : least ≤ room) (has : eachElement d room js = .ok as) :
    ∀ a ∈ as, Restored d encode room a := by
  induction js generalizing as with
  | nil => cases has; exact List.forall_mem_nil _
  | cons j js ih =>
      obtain ⟨a, ha, has⟩ := bind_eq_ok.mp has
      obtain ⟨as, hrest, has⟩ := bind_eq_ok.mp has
      cases has
      exact List.forall_mem_cons.mpr ⟨h _ _ _ hroom ha, ih hrest⟩

lemma eachElement_map {room : ℕ} {as : List α} (h : ∀ a ∈ as, Restored d encode room a) :
    eachElement d room (as.map encode) = .ok as := by
  induction as with
  | nil => rfl
  | cons a as ih =>
      obtain ⟨ha, has⟩ := List.forall_mem_cons.mp h
      exact bind_eq_ok.mpr ⟨a, ha.decoded, bind_eq_ok.mpr ⟨as, ih has, rfl⟩⟩

/-- A list is restored if its elements are. -/
lemma listOf_restores (h : Restores least d encode) :
    Restores (least + 1) (listOf d) (Json.arrayOf encode) := by
  intro room j as hroom has
  unfold listOf at has
  split at has
  · have hparts := eachElement_restored h (Nat.le_of_succ_le_succ hroom) has
    refine ⟨eachElement_map hparts, ?_, nofun⟩
    exact .array (List.forall_mem_map.mpr fun a ha => (hparts a ha).legible)
  · cases has

/-! ### Lists under names -/

lemma eachMember_restored {room : ℕ} {members : List (Option String × Json)}
    {es : List (String × α)} (h : Restores least d encode) (hroom : least ≤ room)
    (hes : eachMember d room members = .ok es) : ∀ e ∈ es, Restored d encode room e.2 := by
  induction members generalizing es with
  | nil => cases hes; exact List.forall_mem_nil _
  | cons m members ih =>
      obtain ⟨name, j⟩ := m
      cases name with
      | none => cases hes
      | some name =>
          obtain ⟨a, ha, hes⟩ := bind_eq_ok.mp hes
          obtain ⟨es, hrest, hes⟩ := bind_eq_ok.mp hes
          cases hes
          exact List.forall_mem_cons.mpr ⟨h _ _ _ hroom ha, ih hrest⟩

lemma eachMember_map {room : ℕ} {es : List (String × α)}
    (h : ∀ e ∈ es, Restored d encode room e.2) :
    eachMember d room (es.map fun e => (some e.1, encode e.2)) = .ok es := by
  induction es with
  | nil => rfl
  | cons e es ih =>
      obtain ⟨he, hes⟩ := List.forall_mem_cons.mp h
      exact bind_eq_ok.mpr ⟨e.2, he.decoded, bind_eq_ok.mpr ⟨es, ih hes, rfl⟩⟩

/-- A later mention replaces the value of an earlier one, so some entries may be gone. -/
lemma mem_mention {name : String} {a : α} {e : String × α} : ∀ {es : List (String × α)},
    e ∈ mention name a es → e = (name, a) ∨ e ∈ es
  | [], h => Or.inl (List.mem_singleton.mp h)
  | f :: es, h => by
      rw [mention] at h
      split_ifs at h
      · exact (List.mem_cons.mp h).imp_right (List.mem_cons_of_mem f)
      · rcases List.mem_cons.mp h with rfl | h
        · exact Or.inr List.mem_cons_self
        · exact (mem_mention h).imp_right (List.mem_cons_of_mem f)

lemma mem_ofList {es : List (String × α)} {e : String × α} (h : e ∈ (NameList.ofList es).entries) :
    e ∈ es := by
  suffices hfold : ∀ (l : NameList α), e ∈ (es.foldl (fun l e => l.set e.1 e.2) l).entries →
      e ∈ l.entries ∨ e ∈ es from (hfold .empty h).resolve_left List.not_mem_nil
  clear h
  induction es with
  | nil => exact fun l h => Or.inl h
  | cons f es ih =>
      intro l h
      rcases ih _ h with h | h
      · exact (mem_mention h).elim (fun heq => Or.inr (heq ▸ List.mem_cons_self)) Or.inl
      · exact Or.inr (List.mem_cons_of_mem f h)

lemma ofList_nameList (l : NameList α) : NameList.ofList l.entries = l := by
  have hentries := NameList.entries_ofList l.nodup
  obtain ⟨entries, hnodup⟩ := l
  generalize NameList.ofList entries = l' at hentries
  obtain ⟨entries', hnodup'⟩ := l'
  cases hentries
  rfl

lemma encodeNameList_eq (encode : α → Json) (l : NameList α) :
    encodeNameList encode l = .object (l.entries.map fun e => (some e.1, encode e.2)) := by
  rw [encodeNameList, Json.record, List.map_map]
  rfl

/-- Entries under names are restored, in their order, if their values are. -/
lemma nameListOf_restores (h : Restores least d encode) :
    Restores (least + 1) (nameListOf d) (encodeNameList encode) := by
  intro room j l hroom hl
  unfold nameListOf at hl
  split at hl
  · obtain ⟨es, hes, rfl⟩ := map_eq_ok.mp hl
    have hparts := fun e he =>
      eachMember_restored h (Nat.le_of_succ_le_succ hroom) hes e (mem_ofList he)
    refine ⟨?_, ?_, nofun⟩
    · rw [encodeNameList_eq]
      exact map_eq_ok.mpr ⟨_, eachMember_map hparts, ofList_nameList _⟩
    · rw [encodeNameList_eq]
      exact .object (List.forall_mem_map.mpr fun e he => (hparts e he).legible)
  · cases hl

/-! ## Records -/

namespace Record

/-- Members that are written for some fields, in the order of the fields. -/
inductive Fills (room : ℕ) : List Field → List (String × Json) → Prop
  | nil : Fills room [] []
  | written {f : Field} {j : Json} {fs : List Field} {ms : List (String × Json)}
      (hcheck : f.check room j = .ok ()) (hlegible : j.Legible) (h : Fills room fs ms) :
      Fills room (f :: fs) ((f.name, j) :: ms)
  | absent {f : Field} {fs : List Field} {ms : List (String × Json)} (h : Fills room fs ms) :
      Fills room (f :: fs) ms

namespace Fills

variable {room : ℕ} {fs fs' : List Field} {ms ms' : List (String × Json)}

lemma append (h : Fills room fs ms) (h' : Fills room fs' ms') :
    Fills room (fs ++ fs') (ms ++ ms') := by
  induction h with
  | nil => exact h'
  | written hcheck hlegible _ ih => exact .written hcheck hlegible ih
  | absent _ ih => exact .absent ih

lemma names_sublist (h : Fills room fs ms) : (ms.map Prod.fst).Sublist (fs.map Field.name) := by
  induction h with
  | nil => exact .slnil
  | written _ _ _ ih => exact ih.cons_cons _
  | absent _ ih => exact ih.cons _

lemma field_of_mem (h : Fills room fs ms) : ∀ m ∈ ms,
    (∃ f ∈ fs, f.name = m.1 ∧ f.check room m.2 = .ok ()) ∧ m.2.Legible := by
  induction h with
  | nil => exact List.forall_mem_nil _
  | @written f j fs ms hcheck hlegible _ ih =>
      refine List.forall_mem_cons.mpr ⟨⟨⟨f, List.mem_cons_self, rfl, hcheck⟩, hlegible⟩, ?_⟩
      intro m hm
      obtain ⟨⟨g, hg, hfield⟩, hm⟩ := ih m hm
      exact ⟨⟨g, List.mem_cons_of_mem f hg, hfield⟩, hm⟩
  | @absent f fs ms _ ih =>
      intro m hm
      obtain ⟨⟨g, hg, hfield⟩, hm⟩ := ih m hm
      exact ⟨⟨g, List.mem_cons_of_mem f hg, hfield⟩, hm⟩

lemma lookup_eq_none (h : Fills room fs ms) {name : String} (hname : name ∉ fs.map Field.name) :
    ms.lookup name = none :=
  ItemStore.lookup_eq_none fun hmem => hname (h.names_sublist.subset hmem)

end Fills

/-- Members from which a record builds a value, wherever their fields stand in an object. -/
structure Writes (r : Record α) (room : ℕ) (ms : List (String × Json)) (a : α) : Prop where
  fills : Fills room r.fields ms
  builds : (r.fields.map Field.name).Nodup → ∀ get : String → Option Json,
    (∀ f ∈ r.fields, get f.name = ms.lookup f.name) → r.build room get = .ok a

lemma Writes.pure (a : α) (room : ℕ) : (Record.pure a).Writes room [] a :=
  ⟨.nil, fun _ _ _ => rfl⟩

/-- The fields of two records have different names, so each finds its own members. -/
lemma Writes.seq {f : Record (α → β)} {r : Record α} {room : ℕ} {ms ms' : List (String × Json)}
    {g : α → β} {a : α} (hf : f.Writes room ms g) (hr : r.Writes room ms' a) :
    (Record.seq f r).Writes room (ms ++ ms') (g a) := by
  refine ⟨hf.fills.append hr.fills, fun hnodup get hget => ?_⟩
  simp only [Record.seq] at hnodup hget
  rw [List.map_append, List.nodup_append] at hnodup
  obtain ⟨hnodupf, hnodupr, hapart⟩ := hnodup
  obtain ⟨hgetf, hgetr⟩ := List.forall_mem_append.mp hget
  refine bind_eq_ok.mpr ⟨g, hf.builds hnodupf get fun u hu => ?_,
    bind_eq_ok.mpr ⟨a, hr.builds hnodupr get fun v hv => ?_, rfl⟩⟩
  · have hnone : ms'.lookup u.name = none := hr.fills.lookup_eq_none fun hmem =>
      hapart _ (List.mem_map_of_mem hu) _ hmem rfl
    rw [hgetf u hu, List.lookup_append, hnone, Option.or_none]
  · have hnone : ms.lookup v.name = none := hf.fills.lookup_eq_none fun hmem =>
      hapart _ hmem _ (List.mem_map_of_mem hv) rfl
    rw [hgetr v hv, List.lookup_append, hnone, Option.none_or]

/-! ### What an object with these members is decoded as -/

lemma find?_name {fs : List Field} (hnodup : (fs.map Field.name).Nodup) {f : Field} (hf : f ∈ fs) :
    (fs.find? fun g => g.name == f.name) = some f := by
  induction fs with
  | nil => cases hf
  | cons g fs ih =>
      rw [List.map_cons, List.nodup_cons] at hnodup
      rcases List.mem_cons.mp hf with rfl | hf
      · simp
      · have hne : g.name ≠ f.name := fun heq => hnodup.1 (heq ▸ List.mem_map_of_mem hf)
        simpa [hne] using ih hnodup.2 hf

/-- Members of known fields pass, each name once. -/
lemma checkMembers_eq_ok {fs : List Field} (hnodup : (fs.map Field.name).Nodup) {room : ℕ}
    {ms : List (String × Json)} (hms : (ms.map Prod.fst).Nodup)
    (hfields : ∀ m ∈ ms, ∃ f ∈ fs, f.name = m.1 ∧ f.check room m.2 = .ok ()) :
    ∀ seen, (∀ m ∈ ms, m.1 ∉ seen) →
      checkMembers fs room seen (ms.map fun m => (some m.1, m.2)) = .ok () := by
  induction ms with
  | nil => exact fun _ _ => rfl
  | cons m ms ih =>
      intro seen hseen
      obtain ⟨hm, hms⟩ := List.nodup_cons.mp hms
      obtain ⟨⟨f, hf, hname, hcheck⟩, hfields⟩ := List.forall_mem_cons.mp hfields
      obtain ⟨hnew, hseen⟩ := List.forall_mem_cons.mp hseen
      have hrest : ∀ n ∈ ms, n.1 ∉ f.name :: seen := fun n hn hmem => by
        rcases List.mem_cons.mp hmem with heq | hmem
        · exact hm (hname ▸ heq ▸ List.mem_map_of_mem hn)
        · exact hseen n hn hmem
      rw [List.map_cons, checkMembers, ← hname, find?_name hnodup hf]
      simp only [List.contains_eq_mem, hname, hnew, decide_false, Bool.false_eq_true, if_false]
      exact bind_eq_ok.mpr ⟨(), hcheck, hname ▸ ih hms hfields _ hrest⟩

lemma lookup_map_some {ms : List (String × Json)} (name : String) :
    (ms.map fun m => (some m.1, m.2)).lookup (some name) = ms.lookup name := by
  induction ms with
  | nil => rfl
  | cons m ms ih =>
      rw [List.map_cons, List.lookup_cons, List.lookup_cons, ih]
      rfl

lemma Writes.decode {r : Record α} {room : ℕ} {ms : List (String × Json)} {a : α}
    (h : r.Writes room ms a) (hnodup : (r.fields.map Field.name).Nodup) :
    r.decode (room + 1) (.record ms) = .ok a := by
  have hms := h.fills.names_sublist.nodup hnodup
  refine bind_eq_ok.mpr ⟨(), ?_, ?_⟩
  · exact checkMembers_eq_ok hnodup hms (fun m hm => (h.fills.field_of_mem m hm).1) []
      fun _ _ => List.not_mem_nil
  · exact h.builds hnodup _ fun f _ => lookup_map_some f.name

/-- Whatever is decoded as a record is built of its fields. -/
lemma build_of_decode {r : Record α} {room : ℕ} {j : Json} {a : α} (h : r.decode room j = .ok a) :
    ∃ inner get, room = inner + 1 ∧ r.build inner get = .ok a := by
  unfold Record.decode at h
  split at h
  · obtain ⟨_, -, h⟩ := bind_eq_ok.mp h
    exact ⟨_, _, rfl, h⟩
  · obtain ⟨_, -, h⟩ := bind_eq_ok.mp h
    exact ⟨_, _, rfl, h⟩
  · cases h

/-! ### Restoring records field by field -/

/-- Whatever is built with enough room is a packing of something of which the members are
written. -/
def Restores {χ : Type} (least : ℕ) (r : Record α) (pack : χ → α)
    (write : χ → List (String × Json)) : Prop :=
  ∀ room get a, least ≤ room → r.build room get = .ok a →
    ∃ x, pack x = a ∧ r.Writes room (write x) a

variable {χ χ' : Type} {name : String}

lemma Restores.map {r : Record α} {pack : χ → α} {write : χ → List (String × Json)}
    (h : r.Restores least pack write) (g : α → β) :
    (g <$> r).Restores least (fun x => g (pack x)) write := by
  intro room get b hroom hb
  obtain ⟨_, hg, hb⟩ := bind_eq_ok.mp hb
  cases hg
  obtain ⟨a, ha, hb⟩ := bind_eq_ok.mp hb
  cases hb
  obtain ⟨x, rfl, hwrites⟩ := h room get a hroom ha
  exact ⟨x, rfl, (Writes.pure g room).seq hwrites⟩

lemma Restores.seq {f : Record (α → β)} {r : Record α} {pack : χ → α → β} {pack' : χ' → α}
    {write : χ → List (String × Json)} {write' : χ' → List (String × Json)}
    (hf : f.Restores least pack write) (hr : r.Restores least pack' write') :
    (f <*> r).Restores least (fun x : χ × χ' => pack x.1 (pack' x.2))
      (fun x => write x.1 ++ write' x.2) := by
  intro room get b hroom hb
  obtain ⟨g, hg, hb⟩ := bind_eq_ok.mp hb
  obtain ⟨a, ha, hb⟩ := bind_eq_ok.mp hb
  cases hb
  obtain ⟨x, rfl, hwrites⟩ := hf room get g hroom hg
  obtain ⟨y, rfl, hwrites'⟩ := hr room get a hroom ha
  exact ⟨(x, y), rfl, hwrites.seq hwrites'⟩

/-- A record is restored as a whole if its fields are. -/
lemma Restores.decode {r : Record α} {pack : χ → α} {write : χ → List (String × Json)}
    (h : r.Restores least pack write) (hnodup : (r.fields.map Field.name).Nodup)
    (hencode : ∀ x, encode (pack x) = .record (write x)) :
    Wire.Restores (least + 1) r.decode encode := by
  intro room j a hroom ha
  obtain ⟨room, get, rfl, hbuild⟩ := build_of_decode ha
  obtain ⟨x, rfl, hwrites⟩ := h room get a (Nat.le_of_succ_le_succ hroom) hbuild
  refine ⟨?_, ?_, ?_⟩
  · rw [hencode]
    exact hwrites.decode hnodup
  · rw [hencode]
    exact .object (List.forall_mem_map.mpr fun m hm => (hwrites.fills.field_of_mem m hm).2)
  · rw [hencode]
    nofun

/-! ### Single fields -/

section

variable {f : Field} {build : ℕ → (String → Option Json) → Except DecodeFault α} {room : ℕ} {a : α}

lemma writes_written {j : Json} (hcheck : f.check room j = .ok ()) (hlegible : j.Legible)
    (hbuild : ∀ get, get f.name = some j → build room get = .ok a) :
    (Record.mk [f] build).Writes room [(f.name, j)] a := by
  refine ⟨.written hcheck hlegible .nil, fun _ get hget => hbuild get ?_⟩
  rw [hget f List.mem_cons_self, List.lookup_cons, beq_self_eq_true]

lemma writes_absent (hbuild : ∀ get, get f.name = none → build room get = .ok a) :
    (Record.mk [f] build).Writes room [] a :=
  ⟨.absent .nil, fun _ get hget => hbuild get (hget f List.mem_cons_self)⟩

end

lemma accepts_of_eq_ok {room : ℕ} {j : Json} {a : α} (h : d room j = .ok a) :
    accepts d room j = .ok () :=
  map_eq_ok.mpr ⟨a, h, rfl⟩

/-- A field that must come. -/
lemma required_restores (h : Wire.Restores least d encode) :
    (required name d).Restores least id fun a => [(name, encode a)] := by
  intro room get a hroom ha
  simp only [required] at ha
  split at ha
  · have hrestored := h room _ a hroom ha
    refine ⟨a, rfl, writes_written (accepts_of_eq_ok hrestored.decoded) hrestored.legible ?_⟩
    intro get' hget
    simp only [hget, hrestored.decoded]
  · cases ha

/-- What is not null is decoded by itself. -/
lemma nullable_eq_ok {room : ℕ} {j : Json} (hne : j ≠ .null) {x : Option α} :
    nullable d room j = .ok x ↔ ∃ a, d room j = .ok a ∧ some a = x := by
  unfold nullable
  split
  · exact absurd rfl hne
  · exact map_eq_ok

/-- A field that is left out where nothing is given. -/
lemma optional_restores (h : Wire.Restores least d encode) :
    (optional name d).Restores least id (Json.optional name encode) := by
  intro room get x hroom hx
  refine ⟨x, rfl, ?_⟩
  cases x with
  | none => exact writes_absent fun get' hget => by simp only [hget]
  | some a =>
      simp only [optional] at hx
      split at hx
      · rename_i j _
        have hne : j ≠ .null := by
          rintro rfl
          cases hx
        obtain ⟨_, ha, ⟨⟩⟩ := (nullable_eq_ok hne).mp hx
        have hrestored := h room j a hroom ha
        have hnullable := (nullable_eq_ok hrestored.ne_null).mpr ⟨a, hrestored.decoded, rfl⟩
        refine writes_written (accepts_of_eq_ok hnullable) hrestored.legible fun get' hget => ?_
        simp only [hget, hnullable]
      · cases hx

/-- A field with a default, which may be left out where the default is given.  The default itself
must be something that is decoded. -/
lemma defaulted_restores {default : α} {write : α → List (String × Json)}
    (h : Wire.Restores least d encode)
    (hdefault : ∀ room, least ≤ room → ∃ j, d room j = .ok default)
    (hwrite : ∀ a, write a = [(name, encode a)] ∨ a = default ∧ write a = []) :
    (defaulted name d default).Restores least id write := by
  intro room get a hroom ha
  refine ⟨a, rfl, ?_⟩
  rcases hwrite a with hwritten | ⟨rfl, habsent⟩
  · obtain ⟨j, hj⟩ : ∃ j, d room j = .ok a := by
      simp only [defaulted] at ha
      split at ha
      · exact ⟨_, ha⟩
      · cases ha
        exact hdefault room hroom
    have hrestored := h room j a hroom hj
    rw [hwritten]
    refine writes_written (accepts_of_eq_ok hrestored.decoded) hrestored.legible fun get' hget => ?_
    simp only [hget, hrestored.decoded]
  · rw [habsent]
    exact writes_absent fun get' hget => by simp only [hget]

lemma exists_listOf_nil (room : ℕ) (h : least + 1 ≤ room) : ∃ j, listOf d room j = .ok [] := by
  obtain ⟨room, rfl⟩ := Nat.exists_eq_add_of_le' h
  exact ⟨.array [], rfl⟩

lemma exists_nameListOf_empty (room : ℕ) (h : least + 1 ≤ room) :
    ∃ j, nameListOf d room j = .ok .empty := by
  obtain ⟨room, rfl⟩ := Nat.exists_eq_add_of_le' h
  exact ⟨.object [], rfl⟩

/-- A list that is left out where it is empty. -/
lemma nonempty_restores (h : Wire.Restores least d encode) :
    (defaulted name (listOf d) []).Restores (least + 1) id
      (Json.nonempty name (Json.arrayOf encode)) := by
  refine defaulted_restores (listOf_restores h) exists_listOf_nil fun as => ?_
  cases as with
  | nil => exact Or.inr ⟨rfl, rfl⟩
  | cons a as => exact Or.inl rfl

/-- A list under names that is left out where it is empty. -/
lemma nonemptyNames_restores (h : Wire.Restores least d encode) :
    (defaulted name (nameListOf d) .empty).Restores (least + 1) id
      (nonemptyNames name encode) := by
  refine defaulted_restores (nameListOf_restores h) exists_nameListOf_empty fun l => ?_
  rw [nonemptyNames]
  split_ifs with hempty
  · right
    obtain ⟨entries, hnodup⟩ := l
    obtain rfl : entries = [] := List.isEmpty_iff.mp hempty
    exact ⟨rfl, rfl⟩
  · exact Or.inl rfl

end Record

end Wire

end ItemStore
