import Relata.Proofs.Model.Written
import Relata.Proofs.Query.Glyphs
import Relata.Proofs.Query.Shape

/-! # Drafts of statements

What a caller gives for a statement: a table with a filter, a record, an order and a page, or
an aggregate. Its text is told with an operand for every mark. Nothing but names comes from
the caller into the text, and the scalars of the statement are those of its marks.
-/

namespace Relata

open Glyph (ofText)
open Text

namespace Command

variable (projection : Projection) (table : String) (cells : List (String × Scalar))
  (cs : List Condition) (order : Order) (page : Page)

theorem text_query : (query projection table cs order page).text =
    "SELECT " ++ projection.text ++ " FROM " ++ table ++ whereClause cs ++
      following order.clause ++ following page.clause :=
  rfl

theorem text_whole : (query projection table cs [] {}).text =
    "SELECT " ++ projection.text ++ " FROM " ++ table ++ whereClause cs := by
  have hnone : following (Order.clause []) = "" ∧ following (Page.clause {}) = "" := ⟨rfl, rfl⟩
  rw [text_query, hnone.1, hnone.2, String.append_empty, String.append_empty]

theorem text_insert : (insert table cells).text =
    "INSERT INTO " ++ table ++ " (" ++ separated ", " (cells.map Prod.fst) ++ ") VALUES (" ++
      Condition.marks cells.length ++ ")" :=
  rfl

theorem text_update : (update table cells cs).text =
    "UPDATE " ++ table ++ " SET " ++ separated ", " (cells.map fun c => c.1 ++ " = ?") ++
      whereClause cs :=
  rfl

theorem text_delete : (delete table cs).text = "DELETE FROM " ++ table ++ whereClause cs :=
  rfl

theorem whereClause_congr {cs ds : List Condition} (h : Condition.texts ds = Condition.texts cs) :
    whereClause ds = whereClause cs := by
  have hempty : ds.isEmpty = cs.isEmpty := by
    rw [← Condition.isEmpty_texts, h, Condition.isEmpty_texts]
  rw [whereClause, whereClause, hempty, Condition.conjunctionText, h, Condition.conjunctionText]

end Command

inductive Draft
  | select (table : String) (filter : Filter) (order : Order) (page : Page)
  | insert (table : String) (data : Record)
  | update (table : String) (data : Record) (filter : Filter)
  | delete (table : String) (filter : Filter)
  | count (table : String) (filter : Filter)
  | aggregate (table : String) (a : Aggregate)

namespace Aggregate

variable {a : Aggregate} {ms : List Measure}

def AsksFor (a : Aggregate) (fold : Fold) (field : String) : Prop :=
  field ∈ a.fieldsOf fold ∨
    fold = .count ∧ ∃ names, a.count = some (.fields names) ∧ field ∈ names

theorem exists_measure {fold : Fold} {names : List String} (h : measuresOf fold names = .ok ms) :
    ∀ m ∈ ms, ∃ name ∈ names, measure fold name = .ok m := by
  induction names generalizing ms with
  | nil =>
    cases h
    simp
  | cons name names ih =>
    obtain ⟨m, hm, h⟩ := bind_eq_ok.mp h
    obtain ⟨rest, hrest, h⟩ := bind_eq_ok.mp h
    cases h
    refine List.forall_mem_cons.mpr ⟨⟨name, List.mem_cons_self, hm⟩, fun m' hm' => ?_⟩
    obtain ⟨name', hname', hmeasure⟩ := ih hrest m' hm'
    exact ⟨name', List.mem_cons_of_mem _ hname', hmeasure⟩

def Gives (a : Aggregate) (m : Measure) : Prop :=
  m = ⟨.count, none, Fold.count.group⟩ ∨
    ∃ fold field, a.AsksFor fold field ∧ measure fold field = .ok m

theorem gives_of_measures (h : a.measures = .ok ms) : ∀ m ∈ ms, a.Gives m := by
  have folded {fold : Fold} {names : List String} {ms : List Measure}
      (h : measuresOf fold names = .ok ms) (asked : ∀ n ∈ names, a.AsksFor fold n) :
      ∀ m ∈ ms, a.Gives m := by
    intro m hm
    obtain ⟨name, hname, hmeasure⟩ := exists_measure h m hm
    exact .inr ⟨fold, name, asked name hname, hmeasure⟩
  rw [measures] at h
  -- The counts are made in one of three ways, and the rest is the same after each.
  have others {counts : List Measure} (hcounts : ∀ m ∈ counts, a.Gives m)
      (h : (do
        let sums ← measuresOf .sum a.sum
        let avgs ← measuresOf .avg a.avg
        let mins ← measuresOf .min a.min
        let maxs ← measuresOf .max a.max
        return counts ++ sums ++ avgs ++ mins ++ maxs) = Except.ok ms) : ∀ m ∈ ms, a.Gives m := by
    obtain ⟨sums, hsums, h⟩ := bind_eq_ok.mp h
    obtain ⟨avgs, havgs, h⟩ := bind_eq_ok.mp h
    obtain ⟨mins, hmins, h⟩ := bind_eq_ok.mp h
    obtain ⟨maxs, hmaxs, h⟩ := bind_eq_ok.mp h
    cases h
    simp only [List.forall_mem_append]
    exact ⟨⟨⟨⟨hcounts, folded hsums fun _ => .inl⟩, folded havgs fun _ => .inl⟩,
      folded hmins fun _ => .inl⟩, folded hmaxs fun _ => .inl⟩
  split at h
  · exact others (by simp) h
  · exact others (List.forall_mem_singleton.mpr (.inl rfl)) h
  · next names hcount =>
    obtain ⟨counts, hcounts, h⟩ := bind_eq_ok.mp h
    exact others (folded hcounts fun n hn => .inr ⟨rfl, names, hcount, hn⟩) h

theorem AsksFor.mem_fields {fold : Fold} {field : String} (asked : a.AsksFor fold field)
    (h : ¬(fold = .count ∧ field = everyRow)) : field ∈ a.fields := by
  rcases asked with hfield | ⟨rfl, names, hcount, hfield⟩
  · cases fold with
    | count => cases hfield
    | _ => exact List.mem_append_right _ (List.mem_flatMap.mpr ⟨_, by simp [folds], hfield⟩)
  · have hne : field ≠ everyRow := fun he => h ⟨rfl, he⟩
    simp [fields, hcount, hfield, hne]

end Aggregate

namespace Draft

def command : Draft → Except Fault Command
  | select table filter order page => do
    let cs ← Filter.conditions filter
    Command.select table cs order page
  | insert table data => Command.insertion table data
  | update table data filter => do
    let cs ← Filter.conditions filter
    Command.assignment table data cs
  | delete table filter => do
    let cs ← Filter.conditions filter
    Command.removal table cs
  | count table filter => do
    let cs ← Filter.conditions filter
    Command.counting table cs
  | aggregate table a => Command.aggregation table a

def statement (d : Draft) : Except Fault Statement :=
  d.command.map Command.statement

def assigned (data : Record) : Record :=
  data.filter fun e => e.1 ≠ Record.key

def operandsOf (data : Record) : List Operand :=
  data.map fun e => .value e.1 e.2

/-- What a statement binds: the values of the record, then what the filter's tests bind. -/
def operands : Draft → List Operand
  | select _ filter _ _ => Filter.marked filter
  | insert _ data => operandsOf data
  | update _ data filter => operandsOf (assigned data) ++ Filter.marked filter
  | delete _ filter => Filter.marked filter
  | count _ filter => Filter.marked filter
  | aggregate _ a => Filter.marked a.filter

def whereGlyphs (filter : Filter) : List Glyph :=
  let conjuncts := Filter.glyphs filter
  if conjuncts.isEmpty then [] else ofText " WHERE " ++ Glyph.separated " AND " conjuncts

def assignment (e : String × Value) : List Glyph :=
  ofText (e.1 ++ " = ") ++ [.mark (.value e.1 e.2)]

def results (a : Aggregate) : String :=
  match a.measures with
  | .ok ms => (Projection.measures ms).text
  | .error _ => ""

def glyphs : Draft → List Glyph
  | select table filter order page =>
    ofText ("SELECT * FROM " ++ table) ++ whereGlyphs filter ++
      ofText (Command.following order.clause) ++ ofText (Command.following page.clause)
  | insert table data =>
    ofText
        ("INSERT INTO " ++ table ++ " (" ++ separated ", " (data.map Prod.fst) ++ ") VALUES (") ++
      Glyph.separated ", " ((operandsOf data).map fun o => [.mark o]) ++ ofText ")"
  | update table data filter =>
    ofText ("UPDATE " ++ table ++ " SET ") ++
      Glyph.separated ", " ((assigned data).map assignment) ++ whereGlyphs filter
  | delete table filter => ofText ("DELETE FROM " ++ table) ++ whereGlyphs filter
  | count table filter =>
    ofText ("SELECT COUNT(*) AS count FROM " ++ table) ++ whereGlyphs filter
  | aggregate table a =>
    ofText ("SELECT " ++ results a ++ " FROM " ++ table) ++ whereGlyphs a.filter

/-- The commands that drafts make, if everything in them is as it has to be. -/
inductive Makes : Draft → Command → Prop
  | select {table : String} {filter : Filter} {order : Order} {page : Page} {cs : List Condition}
      (plain : PlainName table.toList) (filters : Filter.conditions filter = .ok cs)
      (sorts : order.checked = .ok order) :
      Makes (.select table filter order page) (.query .everything table cs order page)
  | insert {table : String} {data : Record} {entries : List (String × Scalar)}
      (plain : PlainName table.toList) (some : data.isEmpty = false)
      (cells : Command.cells data = .ok entries) :
      Makes (.insert table data) (.insert table entries)
  | update {table : String} {data : Record} {filter : Filter}
      {entries : List (String × Scalar)} {cs : List Condition} (plain : PlainName table.toList)
      (some : data.hasAssignments = true) (cells : Command.cells (assigned data) = .ok entries)
      (filters : Filter.conditions filter = .ok cs) :
      Makes (.update table data filter) (.update table entries cs)
  | delete {table : String} {filter : Filter} {cs : List Condition}
      (plain : PlainName table.toList) (filters : Filter.conditions filter = .ok cs) :
      Makes (.delete table filter) (.delete table cs)
  | count {table : String} {filter : Filter} {cs : List Condition}
      (plain : PlainName table.toList) (filters : Filter.conditions filter = .ok cs) :
      Makes (.count table filter) (.query (.measures [⟨.count, none, countLabel⟩]) table cs [] {})
  | aggregate {table : String} {a : Aggregate} {ms : List Measure} {cs : List Condition}
      (plain : PlainName table.toList) (measures : a.measures = .ok ms) (some : ms.isEmpty = false)
      (filters : Filter.conditions a.filter = .ok cs) :
      Makes (.aggregate table a) (.query (.measures ms) table cs [] {})

variable {d : Draft} {k : Command}

theorem command_eq_ok : d.command = .ok k ↔ Makes d k := by
  constructor
  · intro h
    cases d with
    | select table filter order page =>
      obtain ⟨cs, hcs, hk⟩ := bind_eq_ok.mp h
      obtain ⟨name, hname, hk⟩ := bind_eq_ok.mp hk
      obtain ⟨o, ho, hk⟩ := bind_eq_ok.mp hk
      obtain ⟨rfl, plain⟩ := Filter.checkedName_eq_ok hname
      cases Order.eq_of_checked ho
      cases hk
      exact .select plain hcs ho
    | insert table data =>
      obtain ⟨name, hname, hk⟩ := bind_eq_ok.mp h
      obtain ⟨rfl, plain⟩ := Filter.checkedName_eq_ok hname
      split at hk
      · cases hk
      · next some =>
        obtain ⟨entries, hentries, hk⟩ := bind_eq_ok.mp hk
        cases hk
        exact .insert plain (Bool.eq_false_iff.mpr some) hentries
    | update table data filter =>
      obtain ⟨cs, hcs, hk⟩ := bind_eq_ok.mp h
      obtain ⟨name, hname, hset⟩ := bind_eq_ok.mp hk
      obtain ⟨rfl, plain⟩ := Filter.checkedName_eq_ok hname
      split at hset
      · next some =>
        obtain ⟨entries, hentries, hdone⟩ := bind_eq_ok.mp hset
        cases hdone
        exact .update plain some hentries hcs
      · cases hset
    | delete table filter =>
      obtain ⟨cs, hcs, hk⟩ := bind_eq_ok.mp h
      obtain ⟨name, hname, rfl⟩ := Command.removal_ok hk
      obtain ⟨rfl, plain⟩ := Filter.checkedName_eq_ok hname
      exact .delete plain hcs
    | count table filter =>
      obtain ⟨cs, hcs, hk⟩ := bind_eq_ok.mp h
      obtain ⟨name, hname, hdone⟩ := bind_eq_ok.mp hk
      obtain ⟨rfl, plain⟩ := Filter.checkedName_eq_ok hname
      cases hdone
      exact .count plain hcs
    | aggregate table a =>
      obtain ⟨name, hname, hk⟩ := bind_eq_ok.mp h
      obtain ⟨rfl, plain⟩ := Filter.checkedName_eq_ok hname
      obtain ⟨ms, hms, hk⟩ := bind_eq_ok.mp hk
      split at hk
      · cases hk
      · next some =>
        obtain ⟨cs, hcs, hk⟩ := bind_eq_ok.mp hk
        cases hk
        exact .aggregate plain hms (Bool.eq_false_iff.mpr some) hcs
  · intro h
    cases h with
    | select plain filters sorts =>
      exact bind_eq_ok.mpr ⟨_, filters, bind_eq_ok.mpr ⟨_, Filter.checkedName_of_plain plain,
        bind_eq_ok.mpr ⟨_, sorts, rfl⟩⟩⟩
    | insert plain some cells =>
      refine bind_eq_ok.mpr ⟨_, Filter.checkedName_of_plain plain, ?_⟩
      rw [some]
      exact bind_eq_ok.mpr ⟨_, cells, rfl⟩
    | update plain some cells filters =>
      refine bind_eq_ok.mpr ⟨_, filters, bind_eq_ok.mpr ⟨_, Filter.checkedName_of_plain plain, ?_⟩⟩
      rw [some]
      exact bind_eq_ok.mpr ⟨_, cells, rfl⟩
    | delete plain filters =>
      exact bind_eq_ok.mpr ⟨_, filters, bind_eq_ok.mpr ⟨_, Filter.checkedName_of_plain plain, rfl⟩⟩
    | count plain filters =>
      exact bind_eq_ok.mpr ⟨_, filters, bind_eq_ok.mpr ⟨_, Filter.checkedName_of_plain plain, rfl⟩⟩
    | aggregate plain measures some filters =>
      refine bind_eq_ok.mpr ⟨_, Filter.checkedName_of_plain plain, bind_eq_ok.mpr ⟨_, measures, ?_⟩⟩
      rw [some]
      exact bind_eq_ok.mpr ⟨_, filters, rfl⟩

theorem chars_whereGlyphs {filter : Filter} {cs : List Condition}
    (h : Filter.conditions filter = .ok cs) :
    Glyph.chars (whereGlyphs filter) = (Command.whereClause cs).toList := by
  obtain ⟨htexts, -⟩ := Filter.glyphs_conditions h
  have hempty := (Filter.isEmpty_of_map htexts).trans (Condition.isEmpty_texts cs)
  rw [whereGlyphs, Command.whereClause, hempty]
  split
  · rfl
  · simp [Condition.conjunctionText, Glyph.chars_separated htexts]

theorem operands_whereGlyphs (filter : Filter) :
    Glyph.operands (whereGlyphs filter) = Filter.marked filter := by
  rw [← Filter.operands_glyphs, whereGlyphs]
  by_cases h : (Filter.glyphs filter).isEmpty
  · rw [List.isEmpty_iff.mp h]
    rfl
  · simp [h, Glyph.operands_separated]

theorem printed_whereGlyphs {filter : Filter} {cs : List Condition}
    (h : Filter.conditions filter = .ok cs) : Glyph.Printed (whereGlyphs filter) := by
  have := Filter.printed_glyphs (Filter.plain_of_conditions h)
  rw [whereGlyphs]
  split
  · exact .nil
  · exact .append (.ofText (by decide)) (.separated (by decide) this)

theorem scalars_cells {data : Record} {entries : List (String × Scalar)}
    (h : Command.cells data = .ok entries) :
    (operandsOf data).map Operand.scalar = (entries.map Prod.snd).map .ok := by
  induction data generalizing entries with
  | nil =>
    cases h
    rfl
  | cons e rest ih =>
    obtain ⟨-, s, cs, hs, hcs, rfl⟩ := Command.cells_cons.mp h
    exact congrArg₂ List.cons hs (ih hcs)

theorem operands_assignments (data : Record) :
    (data.map assignment).flatMap Glyph.operands = operandsOf data := by
  rw [List.flatMap_map, operandsOf, List.map_eq_flatMap]
  simp [assignment]

theorem operands_glyphs (d : Draft) : Glyph.operands d.glyphs = d.operands := by
  cases d with
  | insert table data => simp [glyphs, operands, Glyph.operands_marks]
  | update table data filter =>
    simp [glyphs, operands, Glyph.operands_separated, operands_whereGlyphs, operands_assignments]
  | _ => simp [glyphs, operands, operands_whereGlyphs]

theorem chars_assignments {data : Record} {entries : List (String × Scalar)}
    (h : Command.cells data = .ok entries) :
    Glyph.chars (Glyph.separated ", " (data.map assignment)) =
      (separated ", " (entries.map fun c => c.1 ++ " = ?")).toList := by
  have hnames : data.map Prod.fst = entries.map Prod.fst := (Command.names_cells h).1.symm
  refine Glyph.chars_separated ?_
  have := congrArg (List.map fun name : String => name.toList ++ " = ?".toList) hnames
  simpa [List.map_map, Function.comp_def, assignment] using this

/-- A draft is written as the text of its command, and its operands are bound as the command's
scalars. -/
theorem glyphs_command (h : d.command = .ok k) :
    Glyph.chars d.glyphs = k.text.toList ∧
      d.operands.map Operand.scalar = k.params.map .ok := by
  cases command_eq_ok.mp h with
  | select plain filters sorts =>
    refine ⟨?_, (Filter.glyphs_conditions filters).2⟩
    simp [glyphs, chars_whereGlyphs filters, Command.text_query, Projection.text]
  | insert plain some cells =>
    refine ⟨?_, scalars_cells cells⟩
    have hnames := (Command.names_cells cells).1
    rw [Entries.names, Entries.names] at hnames
    have hlength := congrArg List.length (scalars_cells cells)
    simp only [List.length_map] at hlength
    simp [glyphs, Command.text_insert, Glyph.chars_marks, hlength, hnames]
  | update plain some cells filters =>
    obtain ⟨-, hscalars⟩ := Filter.glyphs_conditions filters
    refine ⟨?_, ?_⟩
    · simp [glyphs, Command.text_update, chars_assignments cells, chars_whereGlyphs filters]
    · rw [operands, List.map_append, scalars_cells cells, hscalars, ← List.map_append,
        Command.params]
  | delete plain filters =>
    refine ⟨?_, (Filter.glyphs_conditions filters).2⟩
    simp [glyphs, chars_whereGlyphs filters, Command.text_delete]
  | count plain filters =>
    refine ⟨?_, (Filter.glyphs_conditions filters).2⟩
    have hcounted : "SELECT " ++ (Projection.measures [⟨.count, none, countLabel⟩]).text ++
        " FROM " = "SELECT COUNT(*) AS count FROM " := rfl
    rw [Command.text_whole, hcounted]
    simp only [glyphs, Glyph.chars_append, Glyph.chars_ofText, chars_whereGlyphs filters,
      String.toList_append]
  | aggregate plain measures some filters =>
    refine ⟨?_, (Filter.glyphs_conditions filters).2⟩
    simp [Command.text_whole, glyphs, chars_whereGlyphs filters, results, measures]

theorem printed_measure {fold : Fold} {name : String} {m : Measure}
    (h : Aggregate.measure fold name = .ok m) : Printed m.text := by
  rw [Aggregate.measure] at h
  split at h
  · next he =>
    cases h
    obtain ⟨rfl, rfl⟩ := he
    decide
  · obtain ⟨field, hname, hdone⟩ := bind_eq_ok.mp h
    obtain ⟨rfl, plain⟩ := Filter.checkedName_eq_ok hname
    cases hdone
    have hfold : Printed fold.keyword ∧ Printed fold.group := by
      cases fold <;> decide
    have hname := Printed.name plain
    exact (((hfold.1.append (by decide)).append hname).append (by decide)).append
      ((hfold.2.append (by decide)).append hname)

theorem printed_measures {a : Aggregate} {ms : List Measure} (h : a.measures = .ok ms) :
    ∀ m ∈ ms, Printed m.text := by
  intro m hm
  rcases Aggregate.gives_of_measures h m hm with rfl | ⟨fold, field, -, hmeasure⟩
  · decide
  · exact printed_measure hmeasure

theorem plain_of_checked {order o : Order} (h : order.checked = .ok o) :
    ∀ e ∈ order, PlainName e.1.toList := by
  induction order generalizing o with
  | nil => simp
  | cons e rest ih =>
    obtain ⟨field, hname, h⟩ := bind_eq_ok.mp h
    obtain ⟨o, hrest, -⟩ := bind_eq_ok.mp h
    exact List.forall_mem_cons.mpr ⟨(Filter.checkedName_eq_ok hname).2, ih hrest⟩

theorem printed_following {clause : String} (h : Printed clause) :
    Printed (Command.following clause) := by
  rw [Command.following]
  split
  · decide
  · exact .append (by decide) h

theorem printed_order {order o : Order} (h : order.checked = .ok o) : Printed order.clause := by
  rw [Order.clause]
  split
  · decide
  · refine .append (by decide) (.separated (by decide) fun s hs => ?_)
    obtain ⟨e, he, rfl⟩ := List.mem_map.mp hs
    have hkeyword : Printed e.2.keyword := by
      cases e.2 <;> decide
    exact .append (.append (.name (plain_of_checked h e he)) (by decide)) hkeyword

theorem printed_page (page : Page) :
    ∃ minus tail, Command.following page.clause = minus ++ tail ∧
      (minus = "" ∨ minus = " LIMIT -1") ∧ Printed tail := by
  have whole (h : Printed page.clause) : ∃ minus tail,
      Command.following page.clause = minus ++ tail ∧
        (minus = "" ∨ minus = " LIMIT -1") ∧ Printed tail :=
    ⟨"", _, String.empty_append.symm, .inl rfl, printed_following h⟩
  obtain ⟨take, skip⟩ := page
  cases take with
  | none =>
    cases skip with
    | none => exact whole (by decide)
    | some n =>
      refine ⟨" LIMIT -1", " OFFSET " ++ (Page.clamp n).repr, ?_, .inr rfl,
        .append (by decide) (.repr _)⟩
      simp [Command.following, Page.clause, ← String.append_assoc]
  | some m =>
    cases skip with
    | none => exact whole (.append (by decide) (.repr _))
    | some n =>
      exact whole (((Printed.append (by decide) (.repr _)).append (by decide)).append (.repr _))

theorem plain_of_cells {data : Record} {entries : List (String × Scalar)}
    (h : Command.cells data = .ok entries) : ∀ e ∈ data, PlainName e.1.toList := by
  obtain ⟨hnames, hplain⟩ := Command.names_cells h
  intro e he
  have : e.1 ∈ Entries.names entries := by
    rw [hnames]
    exact List.mem_map_of_mem he
  obtain ⟨cell, hcell, heq⟩ := List.mem_map.mp this
  exact heq ▸ hplain cell hcell

theorem printed_glyphs (h : d.command = .ok k) :
    ∃ head minus tail, d.glyphs = head ++ ofText minus ++ ofText tail ∧ Glyph.Printed head ∧
      (minus = "" ∨ minus = " LIMIT -1") ∧ Printed tail := by
  have whole {gs : List Glyph} (hgs : Glyph.Printed gs) :
      ∃ head minus tail, gs = head ++ ofText minus ++ ofText tail ∧ Glyph.Printed head ∧
        (minus = "" ∨ minus = " LIMIT -1") ∧ Printed tail :=
    ⟨gs, "", "", by simp [Glyph.ofText], hgs, .inl rfl, by decide⟩
  have literal {w : String} (hw : Printed w) {name : String} (plain : PlainName name.toList) :
      Printed (w ++ name) := .append hw (.name plain)
  cases command_eq_ok.mp h with
  | @select table filter order page _ plain filters sorts =>
    obtain ⟨minus, tail, hclause, hminus, htail⟩ := printed_page page
    refine ⟨ofText ("SELECT * FROM " ++ table) ++ whereGlyphs filter ++
      ofText (Command.following order.clause), minus, tail, ?_, ?_, hminus, htail⟩
    · rw [glyphs, hclause, Glyph.ofText_append minus, ← List.append_assoc]
    · exact ((Glyph.Printed.ofText (literal (by decide) plain)).append
        (printed_whereGlyphs filters)).append (.ofText (printed_following (printed_order sorts)))
  | @insert table data entries plain some cells =>
    have names : ∀ name ∈ data.map Prod.fst, Printed name := by
      intro name hname
      obtain ⟨e, he, rfl⟩ := List.mem_map.mp hname
      exact .name (plain_of_cells cells e he)
    refine whole (.append (.append (.ofText ?_) (Glyph.printed_marks _)) (.ofText (by decide)))
    exact (((literal (by decide) plain).append (by decide)).append
      (.separated (by decide) names)).append (by decide)
  | @update table data filter entries cs plain some cells filters =>
    refine whole (.append (.append (.ofText ?_) ?_) (printed_whereGlyphs filters))
    · exact (literal (by decide) plain).append (by decide)
    · refine .separated (by decide) fun gs hgs => ?_
      obtain ⟨e, he, rfl⟩ := List.mem_map.mp hgs
      exact .append (.ofText (.append (.name (plain_of_cells cells e he)) (by decide))) (.mark _)
  | delete plain filters =>
    exact whole (.append (.ofText (literal (by decide) plain)) (printed_whereGlyphs filters))
  | count plain filters =>
    exact whole (.append (.ofText (literal (by decide) plain)) (printed_whereGlyphs filters))
  | @aggregate table a ms cs plain measures some filters =>
    refine whole (.append (.ofText ?_) (printed_whereGlyphs filters))
    refine .append (.append (.append (by decide) ?_) (by decide)) (.name plain)
    rw [results, measures]
    refine .separated (by decide) fun s hs => ?_
    obtain ⟨m, hm, rfl⟩ := List.mem_map.mp hs
    exact printed_measures measures m hm

variable {stmt : Statement}

theorem statement_eq_ok (h : d.statement = .ok stmt) :
    ∃ k, d.command = .ok k ∧ stmt = ⟨k.text, k.params⟩ := by
  obtain ⟨k, hk, rfl⟩ := map_eq_ok.mp h
  exact ⟨k, hk, rfl⟩

/-- A statement has a mark for each of its scalars. The mark with so many marks before it is
written for the operand in that place, and the scalar in that place is bound for it. -/
theorem marks_bound (h : d.statement = .ok stmt) :
    stmt.sql.toList.count '?' = stmt.params.length ∧
      d.operands.map Operand.scalar = stmt.params.map .ok ∧
      ∀ before after, stmt.sql.toList = before ++ '?' :: after →
        ∃ gs o hs s, d.glyphs = gs ++ .mark o :: hs ∧ Glyph.chars gs = before ∧
          Glyph.chars hs = after ∧ d.operands[before.count '?']? = some o ∧
          stmt.params[before.count '?']? = some s ∧ o.scalar = .ok s := by
  obtain ⟨k, hk, rfl⟩ := statement_eq_ok h
  obtain ⟨htext, hscalars⟩ := glyphs_command hk
  have hplain : Glyph.char '?' ∉ d.glyphs := by
    obtain ⟨head, minus, tail, hglyphs, hhead, hminus, htail⟩ := printed_glyphs hk
    rw [hglyphs, List.mem_append, List.mem_append, not_or, not_or]
    refine ⟨⟨hhead.not_mem, ?_⟩, (Glyph.Printed.ofText htail).not_mem⟩
    rcases hminus with rfl | rfl <;> simp [ofText]
  refine ⟨?_, hscalars, ?_⟩
  · rw [← htext, Glyph.count_chars hplain, operands_glyphs]
    simpa using congrArg List.length hscalars
  · intro before after hsplit
    rw [← htext] at hsplit
    obtain ⟨gs, o, hs, hglyphs, hbefore, hafter, ho⟩ := Glyph.mark_of_chars hplain hsplit
    rw [operands_glyphs] at ho
    have hs' := congrArg (·[before.count '?']?) hscalars
    simp only [List.getElem?_map, ho, Option.map_some] at hs'
    obtain ⟨s, hs'', heq⟩ := Option.map_eq_some_iff.mp hs'.symm
    exact ⟨gs, o, hs, s, hglyphs, hbefore, hafter, ho, hs'', heq.symm⟩

def payment : Draft :=
  .update "orders" [("status", .text "paid"), ("id", .text "x"), ("total", .integer 5)]
    [.test "id" (.compare .equal (.text "o1")),
      .group .or [[.test "note" (.like .anywhere (.text "y"))],
        [.test "lines" (.among [.integer 1, .integer 2])]]]

def paymentStatement : Statement where
  sql := "UPDATE orders SET status = ?, total = ? WHERE id = ? AND (note LIKE ? OR lines IN (?, ?))"
  params := [.text "paid", .integer 5, .text "o1", .text "%y%", .integer 1, .integer 2]

theorem marks_bound_payment :
    payment.statement = .ok paymentStatement ∧
      paymentStatement.sql.toList.count '?' = paymentStatement.params.length ∧
      payment.operands.map Operand.scalar = paymentStatement.params.map .ok :=
  have h := @marks_bound payment paymentStatement rfl
  ⟨rfl, h.1, h.2.1⟩

/-- The same draft with other values in the places of the first's: those of the record, and the
operands of the filter. -/
inductive SameShape : Draft → Draft → Prop
  | select {table : String} {f g : Filter} {order : Order} {page : Page}
      (filters : Filter.SameShape f g) :
      SameShape (.select table f order page) (.select table g order page)
  | insert {table : String} {r s : Record} (records : Record.SameShape r s) :
      SameShape (.insert table r) (.insert table s)
  | update {table : String} {r s : Record} {f g : Filter} (records : Record.SameShape r s)
      (filters : Filter.SameShape f g) : SameShape (.update table r f) (.update table s g)
  | delete {table : String} {f g : Filter} (filters : Filter.SameShape f g) :
      SameShape (.delete table f) (.delete table g)
  | count {table : String} {f g : Filter} (filters : Filter.SameShape f g) :
      SameShape (.count table f) (.count table g)
  | aggregate {table : String} {a : Aggregate} {g : Filter}
      (filters : Filter.SameShape a.filter g) :
      SameShape (.aggregate table a) (.aggregate table { a with filter := g })

theorem cells_sameShape {r s : Record} {entries : List (String × Scalar)}
    (h : Record.SameShape r s) (hr : Command.cells r = .ok entries) :
    ∃ others, Command.cells s = .ok others ∧ others.map Prod.fst = entries.map Prod.fst ∧
      others.length = entries.length := by
  induction h generalizing entries with
  | nil => exact ⟨entries, hr, rfl, rfl⟩
  | @cons e d _ _ hd _ ih =>
    obtain ⟨field, v⟩ := e
    obtain ⟨field', w⟩ := d
    obtain ⟨rfl, hbind⟩ := hd
    obtain ⟨plain, x, cs, hx, hcs, rfl⟩ := Command.cells_cons.mp hr
    obtain ⟨y, hy⟩ := (Value.toScalar_isOk_iff _ w).mpr
      (hbind ((Value.toScalar_isOk_iff _ v).mp ⟨x, hx⟩))
    obtain ⟨ds, hds, hnames, hlength⟩ := ih hcs
    exact ⟨(field, y) :: ds, Command.cells_cons.mpr ⟨plain, y, ds, hy, hds, rfl⟩,
      congrArg (field :: ·) hnames, congrArg (· + 1) hlength⟩

theorem assigned_sameShape {r s : Record} (h : Record.SameShape r s) :
    Record.SameShape (assigned r) (assigned s) ∧ s.hasAssignments = r.hasAssignments := by
  induction h with
  | nil => exact ⟨.nil, rfl⟩
  | @cons e d _ _ hd _ ih =>
    obtain ⟨hassigned, hany⟩ := ih
    rw [Record.hasAssignments, Record.hasAssignments] at hany ⊢
    rw [assigned, assigned, List.filter_cons, List.filter_cons, List.any_cons, List.any_cons,
      hany, hd.1]
    refine ⟨?_, rfl⟩
    split
    · exact .cons hd hassigned
    · exact hassigned

theorem SameShape.makes {e : Draft} (h : SameShape d e) (hd : Makes d k) :
    ∃ l, Makes e l ∧ l.text = k.text ∧ l.params.length = k.params.length := by
  cases h with
  | select filters =>
    cases hd with
    | select plain hcs sorts =>
      obtain ⟨ds, hds, htexts, hlength⟩ := filters.conditions hcs
      refine ⟨_, .select plain hds sorts, ?_, hlength⟩
      rw [Command.text_query, Command.text_query, Command.whereClause_congr htexts]
  | @insert table r s records =>
    cases hd with
    | insert plain some hr =>
      obtain ⟨entries, hs, hnames, hlength⟩ := cells_sameShape records hr
      have hempty : s.isEmpty = r.isEmpty := by
        cases records <;> rfl
      refine ⟨_, .insert plain (hempty.trans some) hs, ?_, ?_⟩
      · rw [Command.text_insert, Command.text_insert, hnames, hlength]
      · rw [Command.params, Command.params, List.length_map, List.length_map, hlength]
  | update records filters =>
    cases hd with
    | @update _ _ _ cells cs plain some hr hcs =>
      obtain ⟨hassigned, hany⟩ := assigned_sameShape records
      obtain ⟨entries, hs, hnames, hcells⟩ := cells_sameShape hassigned hr
      obtain ⟨ds, hds, htexts, hlength⟩ := filters.conditions hcs
      have hmarks : entries.map (fun c => c.1 ++ " = ?") = cells.map fun c => c.1 ++ " = ?" := by
        have := congrArg (List.map (· ++ " = ?")) hnames
        rwa [List.map_map, List.map_map] at this
      refine ⟨_, .update plain (hany.trans some) hs hds, ?_, ?_⟩
      · rw [Command.text_update, Command.text_update, hmarks, Command.whereClause_congr htexts]
      · simp only [Command.params, List.length_append, List.length_map, hcells, hlength]
  | delete filters =>
    cases hd with
    | delete plain hcs =>
      obtain ⟨ds, hds, htexts, hlength⟩ := filters.conditions hcs
      refine ⟨_, .delete plain hds, ?_, hlength⟩
      rw [Command.text_delete, Command.text_delete, Command.whereClause_congr htexts]
  | count filters =>
    cases hd with
    | count plain hcs =>
      obtain ⟨ds, hds, htexts, hlength⟩ := filters.conditions hcs
      refine ⟨_, .count plain hds, ?_, hlength⟩
      rw [Command.text_query, Command.text_query, Command.whereClause_congr htexts]
  | aggregate filters =>
    cases hd with
    | aggregate plain measures some hcs =>
      obtain ⟨ds, hds, htexts, hlength⟩ := filters.conditions hcs
      refine ⟨_, .aggregate plain measures some hds, ?_, hlength⟩
      rw [Command.text_query, Command.text_query, Command.whereClause_congr htexts]

section

variable {cs head minus tail : List Char} (hcs : cs = head ++ minus ++ tail)
  (hminus : minus = [] ∨ minus = " LIMIT -1".toList)
  (printed : ∀ c ∈ head ++ tail, isPrinted c = true ∨ c = '?')

include hcs hminus printed

theorem foreign_not_mem {c : Char} (hc : c ∈ "'\"`;./\\[]".toList) : c ∉ cs := by
  have hforeign : "'\"`;./\\[]".toList.all
      (fun c => !isPrinted c && c != '?' && c != '-') = true := by
    decide
  obtain ⟨⟨hp, hmark⟩, hsign⟩ : (isPrinted c = false ∧ c ≠ '?') ∧ c ≠ '-' := by
    simpa using List.all_eq_true.mp hforeign c hc
  have hlimit : minus.all (fun c => isPrinted c || c == '-') = true := by
    rcases hminus with rfl | rfl <;> decide
  rw [List.forall_mem_append] at printed
  intro hmem
  rw [hcs, List.mem_append, List.mem_append] at hmem
  rcases hmem with (hmem | hmem) | hmem
  · simpa [hp, hmark] using printed.1 c hmem
  · simpa [hp, hsign] using List.all_eq_true.mp hlimit c hmem
  · simpa [hp, hmark] using printed.2 c hmem

theorem comment_not_infix : ¬ ['-', '-'] <:+: cs := by
  intro hinfix
  have hnone : (head ++ tail).count '-' = 0 := by
    refine List.count_eq_zero_of_not_mem fun hc => ?_
    exact absurd (printed '-' hc) (by decide)
  have hone : minus.count '-' ≤ 1 := by
    rcases hminus with rfl | rfl <;> decide
  have hle := hinfix.sublist.count_le '-'
  rw [hcs, List.count_append, List.count_append] at hle
  rw [List.count_append] at hnone
  have htwo : ['-', '-'].count '-' = 2 := rfl
  omega

end

theorem printed_text (h : d.command = .ok k) :
    ∃ head minus tail, k.text.toList = head ++ minus ++ tail ∧
      (minus = [] ∨ minus = " LIMIT -1".toList) ∧
      ∀ c ∈ head ++ tail, isPrinted c = true ∨ c = '?' := by
  obtain ⟨head, minus, tail, hglyphs, hhead, hminus, htail⟩ := printed_glyphs h
  refine ⟨Glyph.chars head, minus.toList, tail.toList, ?_, ?_, ?_⟩
  · rw [← (glyphs_command h).1, hglyphs]
    simp
  · rcases hminus with rfl | rfl
    · exact .inl rfl
    · exact .inr rfl
  · rw [List.forall_mem_append]
    exact ⟨hhead.chars, fun c hc => .inl (htail c hc)⟩

/-- No value of a caller gets into the text of a statement. The text consists of letters,
digits, underscores, blanks and the signs of the language; only the limit that stands for none
has a minus. And it is the same text for all values that can stand in the same places. -/
theorem text_without_values (h : d.statement = .ok stmt) :
    (∃ head minus tail, stmt.sql.toList = head ++ minus ++ tail ∧
      (minus = [] ∨ minus = " LIMIT -1".toList) ∧
      ∀ c ∈ head ++ tail, isPrinted c = true ∨ c = '?') ∧
    (∀ c ∈ "'\"`;./\\[]".toList, c ∉ stmt.sql.toList) ∧
    ¬ ['-', '-'] <:+: stmt.sql.toList ∧
    ∀ e, SameShape d e → ∃ params, e.statement = .ok ⟨stmt.sql, params⟩ ∧
      params.length = stmt.params.length := by
  obtain ⟨k, hk, rfl⟩ := statement_eq_ok h
  obtain ⟨head, minus, tail, htext, hminus, hprinted⟩ := printed_text hk
  refine ⟨⟨head, minus, tail, htext, hminus, hprinted⟩, ?_, ?_, ?_⟩
  · intro c hc
    exact foreign_not_mem htext hminus hprinted hc
  · exact comment_not_infix htext hminus hprinted
  · intro e he
    obtain ⟨l, hl, heq, hlength⟩ := he.makes (command_eq_ok.mp hk)
    refine ⟨l.params, ?_, hlength⟩
    rw [statement, command_eq_ok.mpr hl, ← heq]
    rfl

def otherPayment : Draft :=
  .update "orders" [("status", .text "'; DROP TABLE orders --"), ("id", .null), ("total", .null)]
    [.test "id" (.compare .equal (.text "?")),
      .group .or [[.test "note" (.like .anywhere (.integer 7))],
        [.test "lines" (.among [.text "1) OR (1 = 1", .null])]]]

theorem text_without_values_payment :
    ∃ params, otherPayment.statement = .ok ⟨paymentStatement.sql, params⟩ ∧
      params.length = paymentStatement.params.length := by
  have hshape : SameShape payment otherPayment := by
    have hbound {v w : Value} (hw : w.Bindable) : v.Bindable → w.Bindable := fun _ => hw
    refine .update ?_ (.test (.compare ?_ (hbound trivial)) (.group rfl ?_ .nil))
    · exact .cons ⟨rfl, hbound trivial⟩ (.cons ⟨rfl, hbound trivial⟩
        (.cons ⟨rfl, hbound trivial⟩ .nil))
    · simp
    · refine List.forall_mem_cons.mpr ⟨?_, List.forall_mem_singleton.mpr ?_⟩
      · exact .test (.like fun _ => trivial) .nil
      · exact .test (.among (.cons (hbound trivial) (.cons (hbound trivial) .nil))) .nil
  exact (@text_without_values payment paymentStatement rfl).2.2.2 otherPayment hshape

end Draft

end Relata
