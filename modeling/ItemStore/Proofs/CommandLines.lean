import ItemStore.Script
import Mathlib.Data.List.DropRight
import Mathlib.Data.List.Forall2

/-!
# Lines that ask for commands

A script is cut into lines, each line is trimmed, and what is left is cut into a name and a body.
Here the outcome is said without the cutting: a line asks for a command if its first character that
is not white space is there and is no `#`, and the parts of the command stand on the line one after
the other with white space around them.

* `splitLines_eq_splitOn`, **`trim_eq_iff`** — what the lines of a text are, and what is left of a
  line.
* `Command.StandsOn` — the ways to write a command on a line; **`Command.ofLine?_eq_some_iff`** says
  that commands are read off such lines and no others.
* `isCommandLine` — what tells the lines with commands from blank lines and remarks.
* **`Command.ofScript_standsOn`** — the commands of a script are those of its command lines, in
  order.
-/

namespace ItemStore

/-! ## Lines of a text -/

theorem splitLines_eq_splitOn (text : List Char) : splitLines text = text.splitOn '\n' := by
  rw [List.splitOn]
  induction text with
  | nil => rfl
  | cons c rest ih =>
      rw [splitLines, List.splitOnP_cons_eq_if_modifyHead, ih]
      by_cases hc : c = '\n'
      · simp [hc]
      · obtain ⟨line, lines, hlines⟩ := List.exists_cons_of_ne_nil (List.splitOn_ne_nil '\n' rest)
        rw [List.splitOn] at hlines
        simp [hc, hlines]

/-! ## White space -/

/-- A text of white space only. -/
def AllWhite (text : List Char) : Prop :=
  ∀ c ∈ text, isWhiteSpace c = true

/-- A text that neither begins nor ends with white space. -/
structure Tight (text : List Char) : Prop where
  head : ∀ c ∈ text.head?, isWhiteSpace c = false
  last : ∀ c ∈ text.getLast?, isWhiteSpace c = false

section

variable {text before core after line : List Char}

lemma trimStart_append (h : AllWhite before) (text : List Char) :
    trimStart (before ++ text) = trimStart text :=
  List.dropWhile_append_of_pos h

lemma trimStart_eq_nil : trimStart text = [] ↔ AllWhite text :=
  List.dropWhile_eq_nil_iff

lemma trimStart_eq_self (h : ∀ c ∈ text.head?, isWhiteSpace c = false) : trimStart text = text := by
  cases text with
  | nil => rfl
  | cons c rest => exact List.dropWhile_cons_of_neg (by simp [h c rfl])

lemma head_trimStart (text : List Char) :
    ∀ c ∈ (trimStart text).head?, isWhiteSpace c = false := by
  intro c hc
  have hnot := List.head?_dropWhile_not isWhiteSpace text
  rw [trimStart, Option.mem_def] at hc
  rwa [hc] at hnot

/-- A text begins with the white space that is cut off from it. -/
lemma exists_trimStart (text : List Char) :
    ∃ before, AllWhite before ∧ text = before ++ trimStart text :=
  ⟨text.takeWhile isWhiteSpace, fun _ hc => List.mem_takeWhile_imp hc,
    List.takeWhile_append_dropWhile.symm⟩

lemma trim_eq_rdropWhile (text : List Char) :
    trim text = (trimStart text).rdropWhile isWhiteSpace :=
  rfl

lemma trim_prefix (text : List Char) : trim text <+: trimStart text :=
  List.rdropWhile_prefix _ _

lemma tight_trim (text : List Char) : Tight (trim text) := by
  constructor
  · intro c hc
    obtain ⟨rest, hrest⟩ := trim_prefix text
    refine head_trimStart text c ?_
    rw [← hrest, List.head?_append, Option.mem_def.mp hc]
    rfl
  · intro c hc
    rw [trim_eq_rdropWhile] at hc
    obtain ⟨hne, rfl⟩ := List.mem_getLast?_eq_getLast hc
    simpa using List.rdropWhile_last_not isWhiteSpace (trimStart text) hne

/-- **What is left of a trimmed text** is the part of it that stands between white space and neither
begins nor ends with such. -/
theorem trim_eq_iff :
    trim line = core ↔
      Tight core ∧ ∃ before after, AllWhite before ∧ AllWhite after ∧
        line = before ++ core ++ after := by
  constructor
  · rintro rfl
    obtain ⟨before, hbefore, hsplit⟩ := exists_trimStart line
    refine ⟨tight_trim line, before, (trimStart line).rtakeWhile isWhiteSpace, hbefore,
      fun _ hc => List.mem_rtakeWhile_imp hc, ?_⟩
    rwa [List.append_assoc, trim_eq_rdropWhile, List.rdropWhile_append_rtakeWhile]
  · rintro ⟨htight, before, after, hbefore, hafter, rfl⟩
    rw [trim, List.append_assoc, trimStart_append hbefore]
    cases core with
    | nil => rw [List.nil_append, trimStart_eq_nil.mpr hafter]; rfl
    | cons c rest =>
        have hafter' : AllWhite after.reverse := fun d hd => hafter d (List.mem_reverse.mp hd)
        have hlast : ∀ d ∈ (c :: rest).reverse.head?, isWhiteSpace d = false := by
          rw [List.head?_reverse]
          exact htight.last
        have hhead : ∀ d ∈ (c :: rest ++ after).head?, isWhiteSpace d = false := htight.head
        rw [trimStart_eq_self hhead, List.reverse_append, trimStart_append hafter',
          trimStart_eq_self hlast, List.reverse_reverse]

end

/-! ## Commands -/

/-- A word that can stand in front of a command.  It is no remark. -/
structure IsName (name : List Char) : Prop where
  ne_nil : name ≠ []
  solid : ∀ c ∈ name, isWhiteSpace c = false
  no_remark : name.head? ≠ some '#'

/-- How a command can be written on a line: white space, a name and white space, or the same with a
body behind the name and a gap between the two.  A body that is missing is an empty object. -/
inductive Command.StandsOn : Command → List Char → Prop
  | bare {before name after : List Char} (hbefore : AllWhite before) (hname : IsName name)
      (hafter : AllWhite after) :
      StandsOn ⟨String.ofList name, "\x7b\x7d"⟩ (before ++ name ++ after)
  | withBody {before name gap body after : List Char} (hbefore : AllWhite before)
      (hname : IsName name) (hgap : AllWhite gap) (hgap' : gap ≠ []) (hbody : Tight body)
      (hbody' : body ≠ []) (hafter : AllWhite after) :
      StandsOn ⟨String.ofList name, String.ofList body⟩ (before ++ (name ++ gap ++ body) ++ after)

section

variable {text name gap body line : List Char} {c : Char}

lemma IsName.tight (h : IsName name) : Tight name :=
  ⟨fun d hd => h.solid d (List.mem_of_mem_head? hd),
    fun d hd => h.solid d (List.mem_of_mem_getLast? hd)⟩

/-- A name is cut off before a gap, or at the end. -/
lemma IsName.cut (h : IsName name) (hrest : ∀ d ∈ text.head?, isWhiteSpace d = true) :
    (name ++ text).takeWhile (fun d => !isWhiteSpace d) = name ∧
      (name ++ text).dropWhile (fun d => !isWhiteSpace d) = text := by
  have hsolid : ∀ d ∈ name, (!isWhiteSpace d) = true := fun d hd => by simp [h.solid d hd]
  rw [List.takeWhile_append_of_pos hsolid, List.dropWhile_append_of_pos hsolid]
  cases text with
  | nil => simp
  | cons d rest => simp [hrest d rfl]

/-- The first word of a text is a name, and white space follows it. -/
lemma isName_takeWhile (hhead : ∀ d ∈ (c :: text).head?, isWhiteSpace d = false) (hc : c ≠ '#') :
    IsName ((c :: text).takeWhile fun d => !isWhiteSpace d) ∧
      (∀ d ∈ ((c :: text).dropWhile fun d => !isWhiteSpace d).head?, isWhiteSpace d = true) ∧
      ((c :: text).takeWhile fun d => !isWhiteSpace d) ++
        ((c :: text).dropWhile fun d => !isWhiteSpace d) = c :: text := by
  have hfirst : (!isWhiteSpace c) = true := by simp [hhead c rfl]
  refine ⟨⟨?_, fun d hd => ?_, ?_⟩, fun d hd => ?_, List.takeWhile_append_dropWhile⟩
  · simp [hfirst]
  · simpa using List.mem_takeWhile_imp hd
  · simpa [hfirst] using hc
  · have hnot := List.head?_dropWhile_not (fun d => !isWhiteSpace d) (c :: text)
    rw [Option.mem_def.mp hd] at hnot
    simpa using hnot

lemma Command.bodyOf_of_allWhite (h : AllWhite text) : bodyOf text = "\x7b\x7d" := by
  rw [bodyOf, trimStart_eq_nil.mpr h]

lemma Command.bodyOf_append (hgap : AllWhite gap) (hbody : Tight body) (hbody' : body ≠ []) :
    bodyOf (gap ++ body) = String.ofList body := by
  rw [bodyOf, trimStart_append hgap, trimStart_eq_self hbody.head]
  cases body with
  | nil => exact absurd rfl hbody'
  | cons d rest => rfl

/-- A line with anything but a remark on it is cut behind its first word. -/
lemma Command.ofLine?_of_trim (h : trim line = c :: text) (hc : c ≠ '#') :
    ofLine? line =
      some ⟨String.ofList ((trim line).takeWhile fun d => !isWhiteSpace d),
        bodyOf ((trim line).dropWhile fun d => !isWhiteSpace d)⟩ := by
  rw [ofLine?, h]
  split
  · rename_i hnil
    cases hnil
  · rename_i hremark
    cases hremark
    exact absurd rfl hc
  · rfl

end

namespace Command

/-- A command is read off every line on which it stands. -/
lemma StandsOn.ofLine? {c : Command} {line : List Char} (h : c.StandsOn line) :
    ofLine? line = some c := by
  cases h with
  | @bare before name after hbefore hname hafter =>
      have htrim : trim (before ++ name ++ after) = name :=
        trim_eq_iff.mpr ⟨hname.tight, before, after, hbefore, hafter, rfl⟩
      obtain ⟨d, rest, rfl⟩ := List.exists_cons_of_ne_nil hname.ne_nil
      have hend : ∀ e ∈ ([] : List Char).head?, isWhiteSpace e = true := nofun
      obtain ⟨htake, hdrop⟩ := hname.cut hend
      rw [List.append_nil] at htake hdrop
      rw [ofLine?_of_trim htrim fun hd => hname.no_remark (by rw [hd]; rfl), htrim, htake, hdrop,
        bodyOf_of_allWhite (List.forall_mem_nil _)]
  | @withBody before name gap body after hbefore hname hgap hgap' hbody hbody' hafter =>
      obtain ⟨d, rest, rfl⟩ := List.exists_cons_of_ne_nil hname.ne_nil
      have htight : Tight (d :: rest ++ gap ++ body) := by
        refine ⟨hname.tight.head, ?_⟩
        rw [List.getLast?_append_of_ne_nil _ hbody']
        exact hbody.last
      have htrim : trim (before ++ (d :: rest ++ gap ++ body) ++ after)
          = d :: rest ++ gap ++ body :=
        trim_eq_iff.mpr ⟨htight, before, after, hbefore, hafter, rfl⟩
      have hcut : ∀ e ∈ (gap ++ body).head?, isWhiteSpace e = true := by
        intro e he
        rw [List.head?_append_of_ne_nil _ hgap'] at he
        exact hgap e (List.mem_of_mem_head? he)
      obtain ⟨htake, hdrop⟩ := hname.cut hcut
      rw [ofLine?_of_trim htrim fun hd => hname.no_remark (by rw [hd]; rfl), htrim,
        List.append_assoc, htake, hdrop, bodyOf_append hgap hbody hbody']

/-- A command that is read off a line stands on it. -/
lemma standsOn_of_ofLine? {c : Command} {line : List Char} (h : Command.ofLine? line = some c) :
    c.StandsOn line := by
  obtain ⟨htight, before, after, hbefore, hafter, hline⟩ := trim_eq_iff.mp (Eq.refl (trim line))
  cases htrim : trim line with
  | nil => simp [Command.ofLine?, htrim] at h
  | cons d rest =>
      have hd : d ≠ '#' := by
        rintro rfl
        simp [Command.ofLine?, htrim] at h
      rw [ofLine?_of_trim htrim hd, Option.some.injEq] at h
      subst h
      obtain ⟨hname, hafterName, hsplit⟩ := isName_takeWhile (htrim ▸ htight.head) hd
      rw [← htrim] at hname hafterName hsplit
      generalize (trim line).takeWhile (fun d => !isWhiteSpace d) = name at *
      generalize (trim line).dropWhile (fun d => !isWhiteSpace d) = behind at *
      rw [hline, ← hsplit]
      by_cases hbody : trimStart behind = []
      · have hwhite := trimStart_eq_nil.mp hbody
        have hassoc : before ++ (name ++ behind) ++ after
            = before ++ name ++ (behind ++ after) := by
          simp
        rw [bodyOf_of_allWhite hwhite, hassoc]
        exact .bare hbefore hname (List.forall_mem_append.mpr ⟨hwhite, hafter⟩)
      · obtain ⟨gap, hgap, hbehind⟩ := exists_trimStart behind
        have hhead := head_trimStart behind
        have hlast := htight.last
        generalize trimStart behind = body at *
        subst hbehind
        rw [← hsplit, ← List.append_assoc, List.getLast?_append_of_ne_nil _ hbody] at hlast
        -- without a gap the name would end where no white space follows
        have hgap' : gap ≠ [] := by
          rintro rfl
          obtain ⟨e, more, rfl⟩ := List.exists_cons_of_ne_nil hbody
          exact Bool.false_ne_true ((hhead e rfl).symm.trans (hafterName e rfl))
        rw [bodyOf_append hgap ⟨hhead, hlast⟩ hbody, ← List.append_assoc name]
        exact .withBody hbefore hname hgap hgap' ⟨hhead, hlast⟩ hbody hafter

/-- **Commands are read off the lines on which they stand**, and off no others. -/
theorem ofLine?_eq_some_iff {c : Command} {line : List Char} :
    Command.ofLine? line = some c ↔ c.StandsOn line :=
  ⟨standsOn_of_ofLine?, StandsOn.ofLine?⟩

end Command

/-! ## The lines of a script -/

/-- Whether a line has a command on it: its first character that is not white space is there and
begins no remark. -/
def isCommandLine (line : List Char) : Bool :=
  match line.find? fun c => !isWhiteSpace c with
  | none => false
  | some c => c != '#'

/-- The lines of a script that have commands on them, in order. -/
def commandLines (script : String) : List (List Char) :=
  (script.toList.splitOn '\n').filter isCommandLine

namespace Command

/-- Lines with commands are those of which something is left that is no remark. -/
lemma isCommandLine_iff {line : List Char} :
    isCommandLine line = true ↔ trim line ≠ [] ∧ (trim line).head? ≠ some '#' := by
  obtain ⟨htight, before, after, hbefore, hafter, hline⟩ := trim_eq_iff.mp (Eq.refl (trim line))
  have hwhite : ∀ {text : List Char},
      AllWhite text → text.find? (fun c => !isWhiteSpace c) = none :=
    fun h => List.find?_eq_none.mpr fun c hc => by simp [h c hc]
  have hfind : line.find? (fun c => !isWhiteSpace c) = (trim line).head? := by
    generalize trim line = core at *
    rw [hline, List.find?_append, List.find?_append, hwhite hbefore, hwhite hafter]
    cases core with
    | nil => rfl
    | cons c rest => simp [htight.head c rfl]
  rw [isCommandLine, hfind]
  cases trim line <;> simp

lemma isSome_ofLine? (line : List Char) : (Command.ofLine? line).isSome = isCommandLine line := by
  rw [Bool.eq_iff_iff, isCommandLine_iff, Command.ofLine?]
  split
  · simp [*]
  · simp [*]
  · rename_i hnil hremark
    refine iff_of_true rfl ⟨hnil, fun h => ?_⟩
    obtain ⟨rest, hrest⟩ := List.head?_eq_some_iff.mp h
    exact hremark rest hrest

/-- **The commands of a script stand on its command lines**, one on each and in their order. -/
theorem ofScript_standsOn (script : String) :
    List.Forall₂ StandsOn (ofScript script) (commandLines script) := by
  rw [ofScript, commandLines, splitLines_eq_splitOn]
  induction script.toList.splitOn '\n' with
  | nil => exact .nil
  | cons line rest ih =>
      have hsome := isSome_ofLine? line
      rw [List.filterMap_cons, List.filter_cons, ← hsome]
      cases hline : Command.ofLine? line with
      | none => exact ih
      | some c => exact .cons (standsOn_of_ofLine? hline) ih

end Command

end ItemStore
