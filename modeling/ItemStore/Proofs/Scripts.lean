import ItemStore.Proofs.CommandLines
import ItemStore.Proofs.FailedRequests
import ItemStore.Proofs.ResponseText

/-!
# Scripts and what they print

A script and its answers are matched by position, so one line too many or too few would shift every
answer that follows.  Each command is answered by one line, which is the response of the store that
the commands before it left or a report, and no line has a break in it.

* `Store.leftBy` — the store that commands leave behind.
* `Store.getElem?_executeAll` — the answer to one of the commands, from one step by induction.
* `Store.printable_lineOf` — what answers a command is printable.
* `splitOn_printedText` — the lines that are printed are read back from the text that they make.
* **`Store.runScript_lines`** — the answers to a script, line for line.
-/

namespace ItemStore

open Json

/-! ## Printed lines -/

/-- The text that lines make, with a line feed behind each. -/
def printedText (lines : List String) : List Char :=
  lines.flatMap fun line => line.toList ++ ['\n']

lemma splitOn_append_lineFeed {line : List Char} (h : Printable line) (more : List Char) :
    (line ++ '\n' :: more).splitOn '\n' = line :: more.splitOn '\n' := by
  have hbreak : '\n' ∉ line := h.notMem (by decide)
  refine List.splitOnP_append_cons_of_forall_mem (fun c hc => ?_) '\n' rfl more
  exact beq_false_of_ne fun heq => hbreak (heq ▸ hc)

/-- Printable lines are read back from the text that they make, with an empty rest. -/
lemma splitOn_printedText {lines : List String} (h : ∀ line ∈ lines, Printable line.toList) :
    (printedText lines).splitOn '\n' = lines.map String.toList ++ [[]] := by
  induction lines with
  | nil => rfl
  | cons line rest ih =>
      obtain ⟨hline, hrest⟩ := List.forall_mem_cons.mp h
      have hsplit : printedText (line :: rest) = line.toList ++ '\n' :: printedText rest := by
        simp [printedText]
      rw [hsplit, splitOn_append_lineFeed hline, ih hrest, List.map_cons, List.cons_append]

namespace Store

variable {s : Store}

/-- What answers a request is printable, whatever the request, the rows or the report say. -/
lemma printable_lineOf (s : Store) (stamp : Stamp) (operation body : String) :
    Printable (Command.lineOf (s.dispatch stamp operation body).1).toList := by
  rw [dispatch_fst]
  split
  · rename_i response _
    rw [Command.lineOf, render, String.toList_ofList]
    exact (Wire.legible_encodeResponse response).printable
  · rename_i fault _
    rw [Command.lineOf, render, String.toList_ofList]
    exact (Wire.legible_encodeReport fault.report).printable

/-! ## Commands one after the other -/

/-- The store that commands leave behind. -/
def leftBy (stamps : ℕ → Stamp) (number : ℕ) (s : Store) : List Command → Store
  | [] => s
  | c :: rest =>
    leftBy stamps (number + 1) (s.dispatch (stamps number) c.operation c.body).2 rest

variable (stamps : ℕ → Stamp)

lemma length_executeAll (number : ℕ) (s : Store) (commands : List Command) :
    (s.executeAll stamps number commands).length = commands.length := by
  induction commands generalizing number s with
  | nil => rfl
  | cons c rest ih => exact congrArg (· + 1) (ih (number + 1) _)

/-- The answer to a command comes from the store that the commands before it left. -/
lemma getElem?_executeAll (number : ℕ) (s : Store) {commands : List Command} {k : ℕ} {c : Command}
    (h : commands[k]? = some c) :
    (s.executeAll stamps number commands)[k]? =
      some (Command.lineOf
        ((leftBy stamps number s (commands.take k)).dispatch (stamps (number + k))
          c.operation c.body).1) := by
  induction commands generalizing number s k with
  | nil => cases h
  | cons first rest ih =>
      cases k with
      | zero =>
          cases h
          rfl
      | succ k =>
          have hrest : rest[k]? = some c := h
          have hnumber : number + (k + 1) = number + 1 + k := by omega
          rw [hnumber]
          exact ih (number + 1) _ hrest

lemma printable_of_mem_executeAll {number : ℕ} {commands : List Command} {line : String}
    (h : line ∈ s.executeAll stamps number commands) : Printable line.toList := by
  induction commands generalizing number s with
  | nil => cases h
  | cons c rest ih =>
      rcases List.mem_cons.mp h with rfl | hrest
      · exact printable_lineOf s (stamps number) c.operation c.body
      · exact ih hrest

/-- **A script is answered line for line.**  The commands of a script stand on its command lines,
and each is answered by one line, in their order.  The line of a command is the response to its
operation and body in the store that the commands before it left, or a report where that fails.  No
line has a control character in it, so the lines can be told apart in the text that is printed. -/
theorem runScript_lines (s : Store) (stamps : ℕ → Stamp) (script : String) :
    List.Forall₂ Command.StandsOn (Command.ofScript script) (commandLines script) ∧
      (s.runScript stamps script).length = (commandLines script).length ∧
      (∀ k c, (Command.ofScript script)[k]? = some c →
        (∀ response, ((leftBy stamps 0 s ((Command.ofScript script).take k)).dispatch (stamps k)
            c.operation c.body).1 = .ok response →
          (s.runScript stamps script)[k]? = some response) ∧
        (∀ report, ((leftBy stamps 0 s ((Command.ofScript script).take k)).dispatch (stamps k)
            c.operation c.body).1 = .error report →
          (s.runScript stamps script)[k]? = some (Wire.encodeReport report).render)) ∧
      (∀ line ∈ s.runScript stamps script, Printable line.toList) ∧
      (printedText (s.runScript stamps script)).splitOn '\n' =
        (s.runScript stamps script).map String.toList ++ [[]] := by
  have hstands := Command.ofScript_standsOn script
  have hprintable : ∀ line ∈ s.runScript stamps script, Printable line.toList :=
    fun line hline => printable_of_mem_executeAll stamps hline
  refine ⟨hstands, ?_, fun k c hc => ?_, hprintable, splitOn_printedText hprintable⟩
  · rw [runScript, length_executeAll]
    exact hstands.length_eq
  · have hline := getElem?_executeAll stamps 0 s hc
    rw [Nat.zero_add] at hline
    refine ⟨fun response h => ?_, fun report h => ?_⟩
    · rw [runScript, hline, h, Command.lineOf]
    · rw [runScript, hline, h, Command.lineOf]

end Store

/-- A remark, an operation that there is not, an empty line and an operation between blanks. -/
def Sample.script : String :=
  "# tables\n\tForget\r\n\n  ListTables \x7b\x7d \n"

theorem Store.runScript_lines_sample :
    Command.ofScript Sample.script = [⟨"Forget", "\x7b\x7d"⟩, ⟨"ListTables", "\x7b\x7d"⟩] ∧
      (Sample.store.runScript (fun _ => Sample.stamp) Sample.script)[0]? =
        some (Wire.encodeReport (Fault.unsupportedOperation "Forget").report).render ∧
      (Sample.store.runScript (fun _ => Sample.stamp) Sample.script)[1]? =
        some "\x7b\"TableNames\":[\"Readings\"]\x7d" := by
  have hcommands : Command.ofScript Sample.script =
      [⟨"Forget", "\x7b\x7d"⟩, ⟨"ListTables", "\x7b\x7d"⟩] := by decide +kernel
  obtain ⟨_, _, hlines, _⟩ := runScript_lines Sample.store (fun _ => Sample.stamp) Sample.script
  rw [hcommands] at hlines
  refine ⟨hcommands, (hlines 0 _ rfl).2 _ ?_, (hlines 1 _ rfl).1 _ ?_⟩
  · decide +kernel
  · decide +kernel

end ItemStore
