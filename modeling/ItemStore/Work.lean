/-!
# Work on a state

What changes a store is done in steps, and any of them may fail.  A fault ends the work there and
then.  Nothing is taken back: what was changed before the fault stays changed, and it is up to the
work to make its checks first.

* `Work` is such work on a state, and `Work.on` is what it comes to in a given one.
* A check that only may fail takes part in work as it is.
-/

namespace ItemStore

/-- Work on a state that may fail.  It leaves a state behind also where it fails. -/
abbrev Work (ε σ : Type) : Type → Type :=
  ExceptT ε (StateM σ)

/-- Do some work on a state.  Returns what it comes to and the state that it leaves. -/
def Work.on {ε σ α : Type} (x : Work ε σ α) (s : σ) : Except ε α × σ :=
  (x.run.run s).run

end ItemStore
