import ItemStore.Proofs.Keys
import ItemStore.Work

/-!
# What work does where it fails

Work leaves a state behind in any case (`ItemStore.Work`), so nothing says as yet that a fault comes
before a change.  Two views of work are kept apart here.  Where it succeeds, work is a function that
takes a state to another one.  Where it fails, the question is what it has done by then.

* `Work.attempt` — work as a function that may fail; what it leaves with a fault is not looked at.
  Step for step, it is the sequence of the attempts.
* `Work.Reads` — the work changes nothing; `Work.Sure` — it does not fail.
* `Work.Atomic` — where it fails, it has changed nothing.  Work is atomic if all that can fail comes
  first (`Work.Reads.bind_atomic`, `Work.Atomic.bind_sure`).
* **`Work.Atomic.on_eq`** — atomic work is known from its attempt.
-/

namespace ItemStore.Work

variable {ε σ α β : Type} {x : Work ε σ α} {f : α → Work ε σ β} {s s' : σ} {a : α} {e : ε}

/-! ## The steps of work -/

lemma on_bind (x : Work ε σ α) (f : α → Work ε σ β) (s : σ) :
    (x >>= f).on s = match x.on s with
      | (.ok a, s') => (f a).on s'
      | (.error e, s') => (.error e, s') := by
  change (ExceptT.bindCont f (x.on s).1 (x.on s).2 : Except ε β × σ) = _
  rcases x.on s with ⟨e | a, s'⟩ <;> rfl

lemma on_pure (a : α) (s : σ) : (pure a : Work ε σ α).on s = (.ok a, s) := rfl

/-- A check changes nothing. -/
lemma on_lift (x : Except ε α) (s : σ) : (liftM x : Work ε σ α).on s = (x, s) := rfl

/-! ## Work that succeeds -/

/-- What work comes to with the state that it leaves, or its fault. -/
def attempt (x : Work ε σ α) (s : σ) : Except ε (α × σ) :=
  match x.on s with
  | (.ok a, s') => .ok (a, s')
  | (.error e, _) => .error e

lemma attempt_eq_ok : x.attempt s = .ok (a, s') ↔ x.on s = (.ok a, s') := by
  rw [attempt]
  rcases x.on s with ⟨e | a', s''⟩ <;> simp

lemma attempt_eq_error : x.attempt s = .error e ↔ (x.on s).1 = .error e := by
  rw [attempt]
  rcases x.on s with ⟨e' | a, s''⟩ <;> simp

lemma attempt_pure (a : α) (s : σ) : (pure a : Work ε σ α).attempt s = pure (a, s) := rfl

/-- The attempt of a sequence is the sequence of the attempts. -/
lemma attempt_bind (x : Work ε σ α) (f : α → Work ε σ β) (s : σ) :
    (x >>= f).attempt s = x.attempt s >>= fun r => (f r.1).attempt r.2 := by
  simp only [attempt, on_bind]
  rcases x.on s with ⟨e | a, s'⟩ <;> rfl

lemma attempt_lift (x : Except ε α) (s : σ) :
    (liftM x : Work ε σ α).attempt s = x >>= fun a => pure (a, s) := by
  cases x <;> rfl

lemma attempt_lift_bind (x : Except ε α) (f : α → Work ε σ β) (s : σ) :
    ((liftM x : Work ε σ α) >>= f).attempt s = x >>= fun a => (f a).attempt s := by
  cases x <;> rfl

lemma attempt_get_bind (f : σ → Work ε σ β) (s : σ) :
    ((get : Work ε σ σ) >>= f).attempt s = (f s).attempt s := rfl

lemma attempt_set_bind (s' : σ) (f : PUnit → Work ε σ β) (s : σ) :
    ((set s' : Work ε σ PUnit) >>= f).attempt s = (f ⟨⟩).attempt s' := rfl

lemma attempt_modify_bind (g : σ → σ) (f : PUnit → Work ε σ β) (s : σ) :
    ((modify g : Work ε σ PUnit) >>= f).attempt s = (f ⟨⟩).attempt (g s) := rfl

lemma attempt_modifyGet_bind (g : σ → α × σ) (f : α → Work ε σ β) (s : σ) :
    ((modifyGet g : Work ε σ α) >>= f).attempt s = (f (g s).1).attempt (g s).2 := rfl

/-! ## Work that fails -/

/-- Work that changes nothing. -/
def Reads (x : Work ε σ α) : Prop := ∀ s, (x.on s).2 = s

/-- Work that does not fail. -/
def Sure (x : Work ε σ α) : Prop := ∀ s, ∃ a, (x.on s).1 = .ok a

/-- Work that has changed nothing where it fails. -/
def Atomic (x : Work ε σ α) : Prop := ∀ s e, (x.on s).1 = .error e → (x.on s).2 = s

lemma reads_lift (x : Except ε α) : (liftM x : Work ε σ α).Reads := fun _ => rfl

lemma reads_get : (get : Work ε σ σ).Reads := fun _ => rfl

lemma sure_pure (a : α) : (pure a : Work ε σ α).Sure := fun _ => ⟨a, rfl⟩

lemma sure_set (s : σ) : (set s : Work ε σ PUnit).Sure := fun _ => ⟨⟨⟩, rfl⟩

lemma sure_modify (g : σ → σ) : (modify g : Work ε σ PUnit).Sure := fun _ => ⟨⟨⟩, rfl⟩

lemma sure_modifyGet (g : σ → α × σ) : (modifyGet g : Work ε σ α).Sure := fun s => ⟨(g s).1, rfl⟩

lemma Sure.bind (hx : x.Sure) (hf : ∀ a, (f a).Sure) : (x >>= f).Sure := by
  intro s
  obtain ⟨a, ha⟩ := hx s
  obtain ⟨b, hb⟩ := hf a (x.on s).2
  exact ⟨b, by rw [on_bind, ← Prod.eta (x.on s), ha]; exact hb⟩

lemma Reads.atomic (h : x.Reads) : x.Atomic := fun s _ _ => h s

lemma Sure.atomic (h : x.Sure) : x.Atomic := by
  intro s e he
  obtain ⟨a, ha⟩ := h s
  rw [ha] at he
  cases he

/-- What only reads may come before atomic work. -/
lemma Reads.bind_atomic (hx : x.Reads) (hf : ∀ a, (f a).Atomic) : (x >>= f).Atomic := by
  intro s e
  have hs := hx s
  rw [on_bind]
  rcases hon : x.on s with ⟨e' | a, s'⟩
  · exact fun _ => by rwa [hon] at hs
  · obtain rfl : s' = s := by rwa [hon] at hs
    exact hf a s' e

/-- What cannot fail may come after atomic work. -/
lemma Atomic.bind_sure (hx : x.Atomic) (hf : ∀ a, (f a).Sure) : (x >>= f).Atomic := by
  intro s e
  have hs := hx s
  rw [on_bind]
  rcases hon : x.on s with ⟨e' | a, s'⟩
  · rw [hon] at hs
    exact fun _ => hs e' rfl
  · intro h
    obtain ⟨b, hb⟩ := hf a s'
    rw [hb] at h
    cases h

/-- **Atomic work succeeds or leaves the state as it was.** -/
theorem Atomic.on_eq (h : x.Atomic) (s : σ) :
    x.on s = match x.attempt s with
      | .ok (a, s') => (.ok a, s')
      | .error e => (.error e, s) := by
  have hs := h s
  rw [attempt]
  rcases hon : x.on s with ⟨e | a, s'⟩
  · rw [hon] at hs
    obtain rfl : s' = s := hs e rfl
    rfl
  · rfl

end ItemStore.Work
