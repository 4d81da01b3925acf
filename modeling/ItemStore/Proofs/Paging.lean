import ItemStore.Proofs.Runs
import Mathlib.Algebra.Order.Floor.Div

/-!
# Walks through the table names

A client lists the tables page by page, each time from the name that the page before gave as its
last, and other requests may come between the pages.  The names come in order and none comes twice,
and a table that is there all the time is not missed, even when the table whose name a page starts
after is gone by then.

* `Catalog.namesAfter` — the names that are left for the pages from some start on.
* **`Answer.listTables_eq_ok`** — a page takes the front of these names (`Answer.Takes`); what comes
  after the last name of the page is what the page has left over.
* `Store.Walk` — pages one after the other, with any events in between.
* `Store.Walk.ascending`, `Store.Walk.mem_of_registered`, `Store.Walk.namesOn_eq`,
  `Store.Walk.length_eq` — the order of a walk, its completeness and its length, by induction on the
  walk.
* **`Store.walk_complete`** — all of this together.
-/

namespace ItemStore

open Answer

/-! ## Numbers of pages -/

lemma add_ceilDiv_self {m k : ℕ} (hk : 0 < k) : (k + m) ⌈/⌉ k = m ⌈/⌉ k + 1 := by
  rw [Nat.ceilDiv_eq_add_pred_div, Nat.ceilDiv_eq_add_pred_div, ← Nat.add_div_right _ hk]
  congr 1
  omega

lemma one_le_ceilDiv {m k : ℕ} (hk : 0 < k) (hm : 0 < m) : 1 ≤ m ⌈/⌉ k := by
  by_contra hzero
  have hle := (ceilDiv_le_iff_le_mul hk).mp (Nat.lt_one_iff.mp (not_le.mp hzero)).le
  omega

/-! ## One page -/

/-- Whether a name comes after the name that a page starts after, if there is one. -/
def follows (start : Option String) (name : String) : Bool :=
  start.all fun s => s < name

lemma follows_some {s name : String} : follows (some s) name = true ↔ s < name :=
  decide_eq_true_iff

lemma follows_trans {start : Option String} {m n : String} (hm : follows start m = true)
    (hmn : m < n) : follows start n = true := by
  cases start with
  | none => rfl
  | some s => exact follows_some.mpr ((follows_some.mp hm).trans hmn)

/-- The names from which the pages after a start are taken. -/
def Catalog.namesAfter (c : Catalog) (start : Option String) : List String :=
  c.names.filter (follows start)

namespace ListTables

/-- A page holds from one to a hundred names. -/
def Allowed (limit : Option ℤ) : Prop := ∀ l ∈ limit, 1 ≤ l ∧ l ≤ 100

/-- How many names a page may hold. -/
def size (limit : Option ℤ) : ℕ := (limit.getD 100).toNat

lemma Allowed.size_pos {limit : Option ℤ} (h : Allowed limit) : 0 < size limit := by
  cases limit with
  | none => decide
  | some l =>
      have hl := h l rfl
      rw [size, Option.getD_some]
      omega

end ListTables

open ListTables

namespace Catalog

variable {c : Catalog} {start : Option String} {name : String}

lemma mem_namesAfter : name ∈ c.namesAfter start ↔ name ∈ c.names ∧ follows start name = true :=
  List.mem_filter

lemma pairwise_namesAfter (c : Catalog) (start : Option String) :
    (c.namesAfter start).Pairwise (· < ·) :=
  (List.pairwise_map.mpr c.ascending).filter _

/-- Dropping names in order up to the start keeps those that come after it. -/
lemma namesAfter_names (c : Catalog) (start : Option String) :
    Answer.namesAfter c.names start = c.namesAfter start := by
  cases start with
  | none => exact (List.filter_eq_self.mpr fun _ _ => rfl).symm
  | some s =>
      have hsorted : c.names.Pairwise (· < ·) := List.pairwise_map.mpr c.ascending
      rw [Answer.namesAfter, namesAfter]
      generalize c.names = names at hsorted
      induction names with
      | nil => rfl
      | cons n rest ih =>
          obtain ⟨hn, hrest⟩ := List.pairwise_cons.mp hsorted
          by_cases hlt : s < n
          · have hall : ∀ m ∈ n :: rest, follows (some s) m = true := by
              refine List.forall_mem_cons.mpr ⟨follows_some.mpr hlt, fun m hm => ?_⟩
              exact follows_some.mpr (hlt.trans (hn m hm))
            rw [List.dropWhile_cons_of_neg (by simp [hlt]), List.filter_eq_self.mpr hall]
          · rw [List.dropWhile_cons_of_pos (by simp [hlt]),
              List.filter_cons_of_neg (follows_some.not.mpr hlt), ih hrest]

/-- What comes after some name among those after a start. -/
lemma namesAfter_some (h : follows start name = true) :
    c.namesAfter (some name) = (c.namesAfter start).filter (follows (some name)) := by
  rw [namesAfter, namesAfter, List.filter_filter]
  refine List.filter_congr fun n _ => ?_
  cases start with
  | none => exact (Bool.and_true _).symm
  | some s =>
      rw [Bool.eq_iff_iff, Bool.and_eq_true, follows_some, follows_some]
      exact ⟨fun hn => ⟨hn, (follows_some.mp h).trans hn⟩, And.left⟩

/-- Where names are cut in two, the second part is what comes after the last of the first. -/
lemma namesAfter_getLast {page rest : List String} (h : c.namesAfter start = page ++ rest)
    (hne : page ≠ []) :
    (∀ n ∈ page, n ≤ page.getLast hne) ∧ c.namesAfter (some (page.getLast hne)) = rest := by
  have hsorted := c.pairwise_namesAfter start
  rw [h] at hsorted
  obtain ⟨hpage, -, hapart⟩ := List.pairwise_append.mp hsorted
  have hlast := List.getLast_mem hne
  have hle : ∀ n ∈ page, n ≤ page.getLast hne := fun n hn =>
    (hpage.imp le_of_lt).rel_getLast hn
  have hmem : page.getLast hne ∈ c.namesAfter start := h ▸ List.mem_append_left _ hlast
  refine ⟨hle, ?_⟩
  rw [namesAfter_some (mem_namesAfter.mp hmem).2, h, List.filter_append,
    List.filter_eq_nil_iff.mpr, List.filter_eq_self.mpr, List.nil_append]
  · exact fun n hn => follows_some.mpr (hapart _ hlast n hn)
  · exact fun n hn hlt => not_lt.mpr (hle n hn) (follows_some.mp hlt)

end Catalog

namespace Answer

variable {c : Catalog} {start : Option String} {limit : Option ℤ}

lemma pageSize_eq_ok {k : ℕ} : pageSize limit = .ok k ↔ Allowed limit ∧ k = size limit := by
  cases limit with
  | none => simp [pageSize, Allowed, size, maxPage, eq_comm]
  | some l =>
      rw [pageSize]
      split
      · rename_i h
        have hl : 1 ≤ l ∧ l ≤ 100 := h
        simp [Allowed, size, hl, eq_comm]
      · rename_i h
        have hl : ¬ (1 ≤ l ∧ l ≤ 100) := h
        simp [refuse, Allowed, hl]

/-- A list of tables is asked for in vain only where the limit is out of range. -/
lemma listTables_of_allowed (h : Allowed limit) (c : Catalog) (start : Option String) :
    ∃ names last, listTables ⟨start, limit⟩ c = .ok (.tableNames names last) :=
  ⟨_, _, bind_eq_ok.mpr ⟨_, pageSize_eq_ok.mpr ⟨h, rfl⟩, rfl⟩⟩

/-- What a page takes of the names after its start, and what it leaves over. -/
structure Takes (c : Catalog) (start : Option String) (limit : Option ℤ) (names : List String)
    (last : Option String) (rest : List String) : Prop where
  allowed : Allowed limit
  cut : c.namesAfter start = names ++ rest
  length_le : names.length ≤ size limit
  ended : last = none → rest = []
  /-- A page with a last name is full, and what it leaves over comes after that name. -/
  more : ∀ l, last = some l → names.length = size limit ∧ (l ∈ names ∧ ∀ n ∈ names, n ≤ l) ∧
    c.namesAfter (some l) = rest ∧ rest ≠ []

/-- **A page takes the front of the names after its start**, and all of them if it gives no last
name. -/
theorem listTables_eq_ok {names : List String} {last : Option String}
    (h : listTables ⟨start, limit⟩ c = .ok (.tableNames names last)) :
    ∃ rest, Takes c start limit names last rest := by
  obtain ⟨k, hk, h⟩ := bind_eq_ok.mp h
  obtain ⟨hallowed, rfl⟩ := pageSize_eq_ok.mp hk
  simp only [Catalog.namesAfter_names] at h
  have hcut := (List.take_append_drop (size limit) (c.namesAfter start)).symm
  by_cases hmore : size limit < (c.namesAfter start).length
  · rw [if_pos hmore] at h
    have hlength : ((c.namesAfter start).take (size limit)).length = size limit := by
      rw [List.length_take]
      omega
    have hne : (c.namesAfter start).take (size limit) ≠ [] :=
      List.ne_nil_of_length_pos (by rw [hlength]; exact hallowed.size_pos)
    obtain ⟨hle, hleft⟩ := Catalog.namesAfter_getLast hcut hne
    rw [List.getLast?_eq_some_getLast hne] at h
    cases h
    refine ⟨_, hallowed, hcut, hlength.le, nofun, ?_⟩
    rintro _ ⟨⟩
    refine ⟨hlength, ⟨List.getLast_mem hne, hle⟩, hleft, ?_⟩
    exact List.ne_nil_of_length_pos (by rw [List.length_drop]; omega)
  · rw [if_neg hmore] at h
    cases h
    rw [not_lt] at hmore
    refine ⟨_, hallowed, hcut, ?_, fun _ => List.drop_of_length_le hmore, nofun⟩
    rw [List.length_take]
    exact min_le_left _ _

namespace Takes

variable {names rest : List String} {last : Option String}

lemma ascending (h : Takes c start limit names last rest) : names.Pairwise (· < ·) := by
  have hsorted := c.pairwise_namesAfter start
  rw [h.cut] at hsorted
  exact (List.pairwise_append.mp hsorted).1

lemma follows (h : Takes c start limit names last rest) {n : String} (hn : n ∈ names) :
    follows start n = true :=
  (Catalog.mem_namesAfter.mp (h.cut ▸ List.mem_append_left rest hn)).2

end Takes

end Answer

/-! ## Walks -/

/-- One page of a walk: the tables that there are, what is asked for and what comes back. -/
structure Page where
  catalog : Catalog
  limit : Option ℤ
  names : List String

/-- The names on some pages, in the order in which they come back. -/
def namesOn (pages : List Page) : List String :=
  pages.flatMap Page.names

@[simp] lemma namesOn_singleton (p : Page) : namesOn [p] = p.names :=
  List.flatMap_singleton _ _

@[simp] lemma namesOn_cons (p : Page) (pages : List Page) :
    namesOn (p :: pages) = p.names ++ namesOn pages :=
  List.flatMap_cons

namespace Store

/-- Pages that a client asks for, each from the last name of the one before, and the name that the
last page gives for a further one.  Anything may happen between two pages. -/
inductive Walk : Store → Option String → List Page → Option String → Prop
  | page {s : Store} {stamp : Stamp} {start : Option String} {limit : Option ℤ}
      {names : List String} {last : Option String}
      (h : (s.answer stamp (.listTables ⟨start, limit⟩)).1 = .ok (.tableNames names last)) :
      Walk s start [⟨s.catalog, limit, names⟩] last
  | next {s : Store} {stamp : Stamp} {start : Option String} {limit : Option ℤ}
      {names : List String} {name : String} {pages : List Page} {last : Option String}
      (h : (s.answer stamp (.listTables ⟨start, limit⟩)).1 = .ok (.tableNames names (some name)))
      (events : List Event)
      (hrest : Walk ((s.answer stamp (.listTables ⟨start, limit⟩)).2.after events) (some name)
        pages last) :
      Walk s start (⟨s.catalog, limit, names⟩ :: pages) last

namespace Walk

variable {s : Store} {start last : Option String} {pages : List Page}

/-- **The names of a walk come in order**, all of them after its start. -/
theorem ascending (h : s.Walk start pages last) :
    (namesOn pages).Pairwise (· < ·) ∧ ∀ n ∈ namesOn pages, follows start n = true := by
  induction h with
  | page h =>
      obtain ⟨rest, htakes⟩ := listTables_eq_ok h
      rw [namesOn_singleton]
      exact ⟨htakes.ascending, fun _ => htakes.follows⟩
  | @next s stamp start limit names name pages last h events _ ih =>
      obtain ⟨rest, htakes⟩ := listTables_eq_ok h
      obtain ⟨-, ⟨hmem, hle⟩, -⟩ := htakes.more name rfl
      have hlater : ∀ n ∈ namesOn pages, name < n := fun n hn => follows_some.mp (ih.2 n hn)
      rw [namesOn_cons]
      constructor
      · refine List.pairwise_append.mpr ⟨htakes.ascending, ih.1, fun m hm n hn => ?_⟩
        exact (hle m hm).trans_lt (hlater n hn)
      · refine List.forall_mem_append.mpr ⟨fun _ => htakes.follows, fun n hn => ?_⟩
        exact follows_trans (htakes.follows hmem) (hlater n hn)

/-- No page holds more names than it may. -/
theorem length_le (h : s.Walk start pages last) :
    ∀ p ∈ pages, p.names.length ≤ size p.limit := by
  induction h with
  | page h =>
      obtain ⟨rest, htakes⟩ := listTables_eq_ok h
      exact List.forall_mem_singleton.mpr htakes.length_le
  | next h _ _ ih =>
      obtain ⟨rest, htakes⟩ := listTables_eq_ok h
      exact List.forall_mem_cons.mpr ⟨htakes.length_le, ih⟩

/-- **A walk to the end misses no table that is there all the time.** -/
theorem mem_of_registered (h : s.Walk start pages last) (hend : last = none) {name : String}
    (hname : follows start name = true) (hthere : ∀ p ∈ pages, name ∈ p.catalog.names) :
    name ∈ namesOn pages := by
  induction h with
  | page h =>
      obtain ⟨rest, htakes⟩ := listTables_eq_ok h
      rw [namesOn_singleton]
      have hmem := Catalog.mem_namesAfter.mpr ⟨hthere _ List.mem_cons_self, hname⟩
      rwa [htakes.cut, htakes.ended hend, List.append_nil] at hmem
  | @next s stamp start limit names l pages last h events _ ih =>
      obtain ⟨rest, htakes⟩ := listTables_eq_ok h
      obtain ⟨-, -, hrest, -⟩ := htakes.more l rfl
      obtain ⟨hfirst, hlater⟩ := List.forall_mem_cons.mp hthere
      have hmem := Catalog.mem_namesAfter.mpr ⟨hfirst, hname⟩
      rw [htakes.cut, ← hrest] at hmem
      rw [namesOn_cons, List.mem_append]
      -- a name that the page leaves over follows its last name, so the rest of the walk has it
      exact (List.mem_append.mp hmem).imp_right fun hleft =>
        ih hend (Catalog.mem_namesAfter.mp hleft).2 hlater

section Unchanged

variable {names : List String}

/-- **A walk to the end gives the names in order**, if they stay the same. -/
theorem namesOn_eq (h : s.Walk start pages last) (hend : last = none)
    (hsame : ∀ p ∈ pages, p.catalog.names = names) :
    namesOn pages = names.filter (follows start) := by
  induction h with
  | page h =>
      obtain ⟨rest, htakes⟩ := listTables_eq_ok h
      rw [← hsame _ List.mem_cons_self, namesOn_singleton]
      exact (List.append_nil _).symm.trans (htakes.ended hend ▸ htakes.cut.symm)
  | @next s stamp start limit page l pages last h events _ ih =>
      obtain ⟨rest, htakes⟩ := listTables_eq_ok h
      obtain ⟨-, -, hrest, -⟩ := htakes.more l rfl
      obtain ⟨hfirst, hlater⟩ := List.forall_mem_cons.mp hsame
      rw [namesOn_cons, ih hend hlater, ← hfirst]
      exact (hrest ▸ htakes.cut).symm

/-- **How many pages a walk takes** with one limit, if the names stay the same.  As long as it is
not over, it has given fewer names than there are. -/
theorem length_eq (h : s.Walk start pages last) (hsame : ∀ p ∈ pages, p.catalog.names = names)
    {limit : Option ℤ} (hlimit : ∀ p ∈ pages, p.limit = limit) :
    (last = none →
        pages.length = max 1 ((names.filter (follows start)).length ⌈/⌉ size limit)) ∧
      (last ≠ none → pages.length * size limit < (names.filter (follows start)).length) := by
  induction h with
  | @page s _ start limit' page last h =>
      obtain ⟨rest, htakes⟩ := listTables_eq_ok h
      obtain rfl : limit' = limit := hlimit _ List.mem_cons_self
      have hcut : names.filter (follows start) = page ++ rest :=
        hsame _ List.mem_cons_self ▸ htakes.cut
      rw [hcut, List.length_append]
      constructor
      · intro hend
        have hone : (page.length + rest.length) ⌈/⌉ size limit' ≤ 1 := by
          rw [ceilDiv_le_iff_le_mul htakes.allowed.size_pos, htakes.ended hend]
          simpa using htakes.length_le
        exact (max_eq_left hone).symm
      · intro hlast
        obtain ⟨l, hl⟩ := Option.ne_none_iff_exists'.mp hlast
        obtain ⟨hfull, -, -, hne⟩ := htakes.more l hl
        have hpos := List.length_pos_iff.mpr hne
        rw [List.length_singleton, hfull]
        omega
  | @next s _ start limit' page l pages last h events _ ih =>
      obtain ⟨rest, htakes⟩ := listTables_eq_ok h
      obtain ⟨hfull, -, rfl, hne⟩ := htakes.more l rfl
      obtain rfl : limit' = limit := hlimit _ List.mem_cons_self
      obtain rfl : s.catalog.names = names := hsame _ List.mem_cons_self
      have hlater := (List.forall_mem_cons.mp hsame).2
      have hlimits := (List.forall_mem_cons.mp hlimit).2
      have hcut : s.catalog.names.filter (follows start)
          = page ++ s.catalog.names.filter (follows (some l)) := htakes.cut
      have hpos : 0 < (s.catalog.names.filter (follows (some l))).length :=
        List.length_pos_iff.mpr hne
      obtain ⟨hdone, hgoing⟩ := ih hlater hlimits
      rw [hcut, List.length_append, hfull, List.length_cons]
      constructor
      · intro hend
        have hsize := htakes.allowed.size_pos
        rw [hdone hend, add_ceilDiv_self hsize, max_eq_right (one_le_ceilDiv hsize hpos),
          max_eq_right (Nat.le_add_left 1 _)]
      · intro hlast
        have := hgoing hlast
        rw [Nat.add_mul]
        omega

end Unchanged

end Walk

/-- **A walk through the tables is complete.**  No page is refused whose limit is in range, wherever
it starts.  The names come in strictly increasing order, on pages that keep to their limits,
whatever happens between two pages; and a walk to the end has every table once that is there for
each of its pages.  If the tables stay the same, a walk gives all of their names in order, and with
one limit it takes as many pages as are needed, but one at least. -/
theorem walk_complete :
    (∀ (s : Store) stamp start limit, Allowed limit → ∃ names last,
      (s.answer stamp (.listTables ⟨start, limit⟩)).1 = .ok (.tableNames names last)) ∧
    ∀ (s : Store) pages last, s.Walk none pages last →
      (namesOn pages).Pairwise (· < ·) ∧
      (∀ p ∈ pages, p.names.length ≤ size p.limit) ∧
      (last = none → ∀ name, (∀ p ∈ pages, (p.catalog.get? name).isSome = true) →
        (namesOn pages).count name = 1) ∧
      ∀ names, (∀ p ∈ pages, p.catalog.names = names) →
        (last = none → namesOn pages = names) ∧
        ∀ limit, (∀ p ∈ pages, p.limit = limit) →
          (last = none → pages.length = max 1 (names.length ⌈/⌉ size limit)) ∧
          (last ≠ none → pages.length * size limit < names.length) := by
  have hall : ∀ names : List String, names.filter (follows none) = names := fun names =>
    List.filter_eq_self.mpr fun _ _ => rfl
  refine ⟨fun s _ start limit h => listTables_of_allowed h s.catalog start, ?_⟩
  intro s pages last h
  refine ⟨h.ascending.1, h.length_le, fun hend name hthere => ?_, fun names hsame => ⟨?_, ?_⟩⟩
  · have hnodup : (namesOn pages).Nodup := h.ascending.1.imp fun hlt => ne_of_lt hlt
    refine List.count_eq_one_of_mem hnodup (h.mem_of_registered hend rfl fun p hp => ?_)
    exact NameMap.mem_names_iff.mpr (Option.isSome_iff_exists.mp (hthere p hp))
  · intro hend
    rw [h.namesOn_eq hend hsame, hall]
  · intro limit hlimit
    have hlength := h.length_eq hsame hlimit
    rwa [hall] at hlength

end Store

namespace Sample

/-- A request to create a table. -/
def create (name : String) : Event :=
  .request ⟨"7", 0⟩ (.createTable ⟨name, [⟨"id", .hash⟩], [⟨"id", .number⟩], [], []⟩)

/-- Three tables. -/
def zoo : Store := (Store.new {}).after [create "ant", create "cat", create "bee"]

/-- The table whose name came last goes, and another one comes. -/
def between : List Event := [.request ⟨"7", 0⟩ (.deleteTable "bee"), create "dog"]

/-- Two pages, with changes between them. -/
def changing : List Page :=
  [⟨zoo.catalog, some 2, ["ant", "bee"]⟩, ⟨(zoo.after between).catalog, none, ["cat", "dog"]⟩]

/-- Two pages of the tables as they are. -/
def unchanging : List Page :=
  [⟨zoo.catalog, some 2, ["ant", "bee"]⟩, ⟨zoo.catalog, some 2, ["cat"]⟩]

end Sample

theorem Store.walk_complete_sample :
    (∃ names last, (Sample.zoo.answer ⟨"7", 0⟩ (.listTables ⟨some "b", some 1⟩)).1
      = .ok (.tableNames names last)) ∧
    (Sample.zoo.Walk none Sample.changing none ∧ (namesOn Sample.changing).count "cat" = 1) ∧
    Sample.zoo.Walk none Sample.unchanging none ∧
      namesOn Sample.unchanging = ["ant", "bee", "cat"] ∧
      Sample.unchanging.length = max 1 (3 ⌈/⌉ 2) := by
  have hfirst : (Sample.zoo.answer ⟨"7", 0⟩ (.listTables ⟨none, some 2⟩)).1
      = .ok (.tableNames ["ant", "bee"] (some "bee")) := by decide +kernel
  have hchanged : ((Sample.zoo.after Sample.between).answer ⟨"7", 0⟩
      (.listTables ⟨some "bee", none⟩)).1 = .ok (.tableNames ["cat", "dog"] none) := by
    decide +kernel
  have hunchanged : (Sample.zoo.answer ⟨"7", 0⟩ (.listTables ⟨some "bee", some 2⟩)).1
      = .ok (.tableNames ["cat"] none) := by decide +kernel
  have hchanging : Sample.zoo.Walk none Sample.changing none :=
    .next hfirst Sample.between (.page hchanged)
  have hunchanging : Sample.zoo.Walk none Sample.unchanging none :=
    .next hfirst [] (.page hunchanged)
  obtain ⟨hallowed, hwalk⟩ := walk_complete
  obtain ⟨-, -, hthere, -⟩ := hwalk _ _ _ hchanging
  obtain ⟨-, -, -, hsame⟩ := hwalk _ _ _ hunchanging
  obtain ⟨hnames, hlength⟩ := hsame ["ant", "bee", "cat"] (by decide +kernel)
  refine ⟨hallowed _ _ _ _ (by unfold Allowed; decide), ⟨hchanging, ?_⟩, hunchanging,
    hnames rfl, ?_⟩
  · exact hthere rfl "cat" (by decide +kernel)
  · exact (hlength (some 2) (by decide)).1 rfl

end ItemStore
