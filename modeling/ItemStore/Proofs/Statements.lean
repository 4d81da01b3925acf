import ItemStore.Proofs.Selection

/-!
# What statements say

A statement that can be read asks for nothing that a scan would refuse: its operators are ones the
store has, and the numbers in it are numerals, because the scanner lets no other number through.

* `Token.Sound` — a token that is no number, or one whose text is a numeral; `Token.tokens_sound`
  says that texts have such tokens only.
* `Select.Reads` — a part of a statement, read from sound tokens, leaves sound tokens behind it.
* **`Select.checked_of_read`** — the conditions of a statement that was read are checked ones.
-/

namespace ItemStore

/-! ## Tokens -/

namespace Token

/-- The text of a number is a numeral. -/
def Sound (t : Token) : Prop := ∀ n, t = .number n → isNumeral n = true

variable {t : Token} {c : Char} {text rest : List Char}

lemma mark?_sound (h : mark? c text = some (t, rest)) : t.Sound := by
  unfold mark? at h
  rintro n rfl
  split at h <;> first | cases h | split at h <;> cases h

lemma ofWord_sound (word : List Char) : (ofWord word).Sound := by
  intro n h
  unfold ofWord at h
  split at h <;> cases h

lemma numberLexeme_sound (h : numberLexeme c text = .ok (t, rest)) : t.Sound := by
  rw [numberLexeme] at h
  split at h
  · rename_i hnumeral
    cases h
    rintro n ⟨⟩
    exact hnumeral
  · cases h

lemma quotedLexeme_sound {quote : Char} {token : String → Token} (htoken : ∀ s, (token s).Sound)
    (h : quotedLexeme quote token text = .ok (t, rest)) : t.Sound := by
  rw [quotedLexeme] at h
  split at h
  · cases h
    exact htoken _
  · cases h

lemma lexeme_sound (h : lexeme c text = .ok (t, rest)) : t.Sound := by
  unfold lexeme at h
  split at h
  · rename_i marked hmark
    cases h
    exact mark?_sound hmark
  split_ifs at h
  · exact quotedLexeme_sound (fun _ _ h => by cases h) h
  · exact quotedLexeme_sound (fun _ _ h => by cases h) h
  · exact numberLexeme_sound h
  · cases h
    exact ofWord_sound _

/-- **Every number among the tokens of a text is a numeral.** -/
theorem tokens_sound {text : List Char} {ts : List Token} (h : tokens text = .ok ts) :
    ∀ t ∈ ts, t.Sound := by
  fun_induction tokens text generalizing ts with
  | case1 => cases h; exact List.forall_mem_nil _
  | case2 c rest _ ih => exact ih h
  | case3 => cases h
  | case4 => cases h
  | case5 c rest _ t tail hlexeme ts' htail ih =>
      cases h
      exact List.forall_mem_cons.mpr ⟨lexeme_sound hlexeme, ih htail⟩

end Token

/-! ## Parts of statements -/

namespace Select

/-- What a part reads from sound tokens has a property, and the tokens left are sound. -/
def Reads {α : Type} (P : α → Prop) (part : List Token → Except SelectFault (Parsed α)) : Prop :=
  ∀ ts a rest, (∀ t ∈ ts, t.Sound) → part ts = .ok (a, rest) → P a ∧ ∀ t ∈ rest, t.Sound

section

variable {α : Type} {P : α → Prop} {expected : Expected} {meaning : Token → Option α}
  (hmeaning : ∀ t a, t.Sound → meaning t = some a → P a)

lemma token_reads (t : Token) : Reads (fun _ => True) (token t) := by
  rintro (_ | ⟨u, ts⟩) ⟨⟩ rest hts h
  · cases h
  · rw [token] at h
    split at h
    · cases h
      exact ⟨trivial, (List.forall_mem_cons.mp hts).2⟩
    · cases h

include hmeaning

lemma one_reads : Reads P (one expected meaning) := by
  rintro (_ | ⟨t, ts⟩) a rest hts h
  · cases h
  · obtain ⟨ht, hts⟩ := List.forall_mem_cons.mp hts
    rw [one] at h
    split at h
    · rename_i hm
      cases h
      exact ⟨hmeaning t _ ht hm, hts⟩
    · cases h

lemma more_reads : Reads (fun as => ∀ a ∈ as, P a) (more expected meaning) := by
  intro ts as rest hts h
  fun_induction more expected meaning ts generalizing as rest with
  | case1 t tail a hm as' tail' hmore ih =>
      cases h
      obtain ⟨ht, htail⟩ := List.forall_mem_cons.mp (List.forall_mem_cons.mp hts).2
      obtain ⟨has, hrest⟩ := ih _ _ htail hmore
      exact ⟨List.forall_mem_cons.mpr ⟨hmeaning t a ht hm, has⟩, hrest⟩
  | case2 => cases h
  | case3 => cases h
  | case4 => cases h
  | case5 => cases h; exact ⟨List.forall_mem_nil _, hts⟩

lemma several_reads : Reads (fun as => ∀ a ∈ as, P a) (several expected meaning) := by
  intro ts as rest hts h
  obtain ⟨⟨a, ts₁⟩, hone, h⟩ := bind_eq_ok.mp h
  obtain ⟨⟨as', ts₂⟩, hmore, h⟩ := bind_eq_ok.mp h
  cases h
  obtain ⟨ha, hts₁⟩ := one_reads hmeaning _ _ _ hts hone
  obtain ⟨has, hts₂⟩ := more_reads hmeaning _ _ _ hts₁ hmore
  exact ⟨List.forall_mem_cons.mpr ⟨ha, has⟩, hts₂⟩

end

/-! ### Clauses -/

lemma valid_of_valueOf? {t : Token} {v : Value} (ht : t.Sound) (h : valueOf? t = some v) :
    v.Valid := by
  cases t <;> cases h
  · simp [Value.Valid, Value.numerals]
  · exact Value.valid_number.mpr (ht _ rfl)

lemma isSupported_of_operatorOf? {t : Token} {op : Operator} (h : operatorOf? t = some op) :
    op.isSupported = true := by
  cases t <;> cases h <;> rfl

lemma selectionPart_reads : Reads (fun _ => True) selectionPart := by
  intro ts selection rest hts h
  unfold selectionPart at h
  split at h
  · cases h
    exact ⟨trivial, (List.forall_mem_cons.mp hts).2⟩
  · obtain ⟨⟨names, ts₁⟩, hnames, h⟩ := bind_eq_ok.mp h
    cases h
    exact ⟨trivial, (several_reads (fun _ _ _ _ => trivial) _ _ _ hts hnames).2⟩

lemma indexPart_reads : Reads (fun _ => True) indexPart := by
  intro ts index rest hts h
  unfold indexPart at h
  split at h
  · obtain ⟨⟨name, ts₁⟩, hname, h⟩ := bind_eq_ok.mp h
    cases h
    exact ⟨trivial, (one_reads (fun _ _ _ _ => trivial) _ _ _
      (List.forall_mem_cons.mp hts).2 hname).2⟩
  · cases h
    exact ⟨trivial, hts⟩

lemma operandsPart_reads : Reads (fun vs => ∀ v ∈ vs, Value.Valid v) operandsPart := by
  intro ts vs rest hts h
  unfold operandsPart at h
  split at h
  · obtain ⟨⟨values, ts₁⟩, hvalues, h⟩ := bind_eq_ok.mp h
    obtain ⟨⟨_, ts₂⟩, hclose, h⟩ := bind_eq_ok.mp h
    cases h
    obtain ⟨hvalid, hts₁⟩ := several_reads (fun _ _ => valid_of_valueOf?) _ _ _
      (List.forall_mem_cons.mp hts).2 hvalues
    exact ⟨hvalid, (token_reads _ _ _ _ hts₁ hclose).2⟩
  · obtain ⟨⟨v, ts₁⟩, hvalue, h⟩ := bind_eq_ok.mp h
    cases h
    obtain ⟨hvalid, hts₁⟩ := one_reads (fun _ _ => valid_of_valueOf?) _ _ _ hts hvalue
    exact ⟨by simpa using hvalid, hts₁⟩

lemma conditionPart_reads : Reads (fun e => e.2.Checked) conditionPart := by
  intro ts e rest hts h
  obtain ⟨⟨name, ts₁⟩, hname, h⟩ := bind_eq_ok.mp h
  obtain ⟨⟨operator, ts₂⟩, hoperator, h⟩ := bind_eq_ok.mp h
  obtain ⟨⟨operands, ts₃⟩, hoperands, h⟩ := bind_eq_ok.mp h
  cases h
  have hts₁ := (one_reads (P := fun _ => True) (fun _ _ _ _ => trivial) _ _ _ hts hname).2
  obtain ⟨hsupported, hts₂⟩ := one_reads (fun _ _ _ => isSupported_of_operatorOf?) _ _ _ hts₁
    hoperator
  obtain ⟨hvalid, hts₃⟩ := operandsPart_reads _ _ _ hts₂ hoperands
  exact ⟨⟨hsupported, hvalid⟩, hts₃⟩

lemma moreConditions_reads : Reads (fun cs => ∀ d ∈ cs, d.2.2.Checked) moreConditions := by
  intro ts cs rest hts h
  fun_induction moreConditions ts generalizing cs rest with
  | case1 => cases h; exact ⟨List.forall_mem_nil _, hts⟩
  | case2 => cases h; exact ⟨List.forall_mem_nil _, hts⟩
  | case3 => cases h
  | case4 => cases h
  | case5 t tail combinator _ c ts₁ hcondition cs' tail' hmore ih =>
      cases h
      obtain ⟨hc, hts₁⟩ := conditionPart_reads _ _ _ (List.forall_mem_cons.mp hts).2 hcondition
      obtain ⟨hcs, hrest⟩ := ih _ _ hts₁ hmore
      exact ⟨List.forall_mem_cons.mpr ⟨hc, hcs⟩, hrest⟩

lemma wherePart_reads : Reads (fun p => ∀ e ∈ p.2, e.2.Checked) wherePart := by
  intro ts p rest hts h
  unfold wherePart at h
  split at h
  · obtain ⟨⟨c, ts₁⟩, hcondition, h⟩ := bind_eq_ok.mp h
    obtain ⟨⟨cs, ts₂⟩, hmore, h⟩ := bind_eq_ok.mp h
    cases h
    obtain ⟨hc, hts₁⟩ := conditionPart_reads _ _ _ (List.forall_mem_cons.mp hts).2 hcondition
    obtain ⟨hcs, hts₂⟩ := moreConditions_reads _ _ _ hts₁ hmore
    exact ⟨List.forall_mem_cons.mpr ⟨hc, List.forall_mem_map.mpr hcs⟩, hts₂⟩
  · cases h
    exact ⟨List.forall_mem_nil _, hts⟩

/-- **A statement that was read has checked conditions**, which a scan accepts as well. -/
theorem checked_of_read {text : String} {s : Select} (h : read text = .ok s) :
    ∀ e ∈ s.conditions, e.2.Checked := by
  obtain ⟨ts, htokens, h⟩ := bind_eq_ok.mp h
  have hts := Token.tokens_sound htokens
  obtain ⟨⟨_, ts₁⟩, hselect, h⟩ := bind_eq_ok.mp h
  obtain ⟨⟨selection, ts₂⟩, hselection, h⟩ := bind_eq_ok.mp h
  obtain ⟨⟨_, ts₃⟩, hfrom, h⟩ := bind_eq_ok.mp h
  obtain ⟨⟨table, ts₄⟩, htable, h⟩ := bind_eq_ok.mp h
  obtain ⟨⟨index, ts₅⟩, hindex, h⟩ := bind_eq_ok.mp h
  obtain ⟨⟨⟨combinator, conditions⟩, ts₆⟩, hwhere, h⟩ := bind_eq_ok.mp h
  have hts₁ := (token_reads _ _ _ _ hts hselect).2
  have hts₂ := (selectionPart_reads _ _ _ hts₁ hselection).2
  have hts₃ := (token_reads _ _ _ _ hts₂ hfrom).2
  have hts₄ := (one_reads (P := fun _ => True) (fun _ _ _ _ => trivial) _ _ _ hts₃ htable).2
  have hts₅ := (indexPart_reads _ _ _ hts₄ hindex).2
  have hconditions := (wherePart_reads _ _ _ hts₅ hwhere).1
  dsimp only at h
  split at h
  · cases h
    exact hconditions
  · cases h

end Select

end ItemStore
