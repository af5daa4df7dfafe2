import Relata.Proofs.Model.Aggregated
import Relata.Proofs.Sql.Selections

/-! # Readable drafts

The names of a draft are plain, but a plain name may be a word that the language reserves. Where
the table and the fields of a draft are called by no such word, and no field that is evaluated is
one with which an expression begins otherwise, the text of its statement is read as what the
draft asks for, and its names as those of the table and of its columns.
-/

namespace Relata

open Sql Text

namespace Condition

theorem columns_grouped (parts : List (List Condition)) :
    (Reader.grouped parts).columns = parts.flatMap columnsOfAll := by
  unfold Reader.grouped
  split <;> rw [columns, columnsOfParts_eq]

theorem columnsOfAll_flatten (parts : List (List Condition)) :
    columnsOfAll parts.flatten = parts.flatMap columnsOfAll := by
  induction parts with
  | nil => rfl
  | cons part parts ih =>
    rw [List.flatten_cons, List.flatMap_cons, ← ih, columnsOfAll_eq, columnsOfAll_eq part,
      columnsOfAll_eq parts.flatten, List.flatMap_append]

theorem columns_asRead (c : Condition) : c.asRead.columns = c.columns := by
  induction c using Condition.induction with
  | group c parts ih =>
    have each : ∀ part ∈ parts, columnsOfAll (part.map asRead) = columnsOfAll part := by
      intro part hpart
      rw [columnsOfAll_eq, columnsOfAll_eq, List.flatMap_map]
      exact List.flatMap_congr fun d hd => ih part hpart d hd
    have all : (parts.map (List.map asRead)).flatMap columnsOfAll = parts.flatMap columnsOfAll := by
      rw [List.flatMap_map]
      exact List.flatMap_congr each
    rw [columns, columnsOfParts_eq, ← all]
    cases c with
    | and =>
      rw [asRead, asReadParts_eq, columns_grouped, List.flatMap_singleton, columnsOfAll_flatten]
    | or => rw [asRead, asReadParts_eq, columns_grouped]
  | _ => rfl

theorem columnsOfAll_asRead (cs : List Condition) :
    columnsOfAll (cs.map asRead) = columnsOfAll cs := by
  rw [columnsOfAll_eq, columnsOfAll_eq, List.flatMap_map]
  exact List.flatMap_congr fun c _ => columns_asRead c

/-- Conditions select the rows that their text says. -/
theorem selects_asRead (f : Frame) (cs : List Condition) (row : Row) :
    selects f (cs.map asRead) row = selects f cs row := by
  rw [selects, selects, all_truths, all_truths,
    conjunctionTruth_map f row fun c _ => truth_asRead f row c]

end Condition

/-- What an identifier means: a column; where there is none of its name, the number of the row or
a truth. -/
def Frame.identified? (f : Frame) (name : String) : Option Meaning :=
  match f.definition.index? name with
  | some i => some (.column i)
  | none =>
    if f.definition.isNumber name then some .number else (Frame.truth? name).map .constant

theorem Frame.meaning?_eq_identified? {name : String}
    (free : ∀ now, Frame.constant? now name = none) (f : Frame) :
    f.meaning? name = f.identified? name := by
  rw [meaning?, free f.now]
  rfl

namespace Draft

def written : Draft → List String
  | insert _ data => Entries.names data
  | update _ data _ => Entries.names (assigned data)
  | _ => []

def tested : Draft → List String
  | select _ filter .. => Filter.fields filter
  | insert .. => []
  | update _ _ filter => Filter.fields filter
  | delete _ filter => Filter.fields filter
  | count _ filter => Filter.fields filter
  | aggregate _ a => Filter.fields a.filter

/-- The fields that rows are sorted by, or of which a function is computed. -/
def computed : Draft → List String
  | select _ _ order _ => order.fields
  | aggregate _ a => a.fields
  | _ => []

/-- A draft whose names are no words of the language in their places. -/
structure Free (d : Draft) : Prop where
  table : isReserved d.table.toList = false
  written : ∀ n ∈ d.written, isReserved n.toList = false
  tested : ∀ n ∈ d.tested, isKeyword n.toList = false
  computed : ∀ n ∈ d.computed, Reader.Begins n.toList
  inconstant : ∀ n ∈ d.tested ++ d.computed, ∀ now, Frame.constant? now n = none

/-- A command asks for what a draft does: in rows that are those of which the filter holds, and
of any number of them that a clause can count, those of the page. -/
inductive Means : Draft → Command → Prop
  | select {table : String} {filter : Filter} {order : Order} {page page' : Page}
      {cs : List Condition}
      (rows : ∀ f row, Condition.selects f cs row = (Filter.truth f row filter).holds)
      (cut : ∀ rows : List Row, rows.length ≤ Page.largest → page'.slice rows = page.slice rows) :
      Means (.select table filter order page) (.query .everything table cs order page')
  | insert {table : String} {data : Record} {entries : List (String × Scalar)}
      (cells : Command.cells data = .ok entries) :
      Means (.insert table data) (.insert table entries)
  | update {table : String} {data : Record} {filter : Filter}
      {entries : List (String × Scalar)} {cs : List Condition}
      (cells : Command.cells (assigned data) = .ok entries)
      (rows : ∀ f row, Condition.selects f cs row = (Filter.truth f row filter).holds) :
      Means (.update table data filter) (.update table entries cs)
  | delete {table : String} {filter : Filter} {cs : List Condition}
      (rows : ∀ f row, Condition.selects f cs row = (Filter.truth f row filter).holds) :
      Means (.delete table filter) (.delete table cs)
  | count {table : String} {filter : Filter} {cs : List Condition}
      (rows : ∀ f row, Condition.selects f cs row = (Filter.truth f row filter).holds) :
      Means (.count table filter) (.query (.measures [.ofRows]) table cs [] {})
  | aggregate {table : String} {a : Aggregate} {ms : List Measure} {cs : List Condition}
      (measures : a.measures = .ok ms)
      (rows : ∀ f row, Condition.selects f cs row = (Filter.truth f row a.filter).holds) :
      Means (.aggregate table a) (.query (.measures ms) table cs [] {})

variable {d : Draft} {k : Command}

theorem selects_read {filter : Filter} {cs : List Condition}
    (h : Filter.conditions filter = .ok cs) (f : Frame) (row : Row) :
    Condition.selects f (cs.map Condition.asRead) row = (Filter.truth f row filter).holds :=
  (Condition.selects_asRead f cs row).trans (Filter.selects_conditions h f row)

theorem named_measures {a : Aggregate} {ms : List Measure} (h : a.measures = .ok ms)
    (begins : ∀ n ∈ a.fields, Reader.Begins n.toList) : ∀ m ∈ ms, m.Named := by
  intro m hm
  refine ⟨Aggregate.isWritten_of_measures h m hm, fun c hc => begins c ?_⟩
  exact ((Aggregate.measures_ok h m hm).2 c hc).2

theorem cells_ne_nil {data : Record} {entries : List (String × Scalar)}
    (h : Command.cells data = .ok entries) (some : data ≠ []) : entries ≠ [] := by
  rintro rfl
  have none := (Command.names_cells h).1.symm
  rw [Entries.names, Entries.names, List.map_nil, List.map_eq_nil_iff] at none
  exact some none

theorem assigned_ne_nil {data : Record} (h : data.hasAssignments = true) : assigned data ≠ [] := by
  rw [Record.hasAssignments, List.any_eq_true] at h
  obtain ⟨e, he, hkey⟩ := h
  exact List.ne_nil_of_mem (List.mem_filter.mpr ⟨he, hkey⟩)

/-- The command of a draft whose names are free is read as one that means the draft and names
the same columns. -/
theorem Makes.read (h : Makes d k) (free : d.Free) :
    ∃ k', Sql.read k.statement = .ok (some k') ∧ d.Means k' ∧ k'.columns = k.columns := by
  have readable {filter : Filter} {cs : List Condition} (hcs : Filter.conditions filter = .ok cs)
      (hd : Filter.fields filter = d.tested) : ∀ c ∈ cs, c.Readable :=
    Filter.readable_conditions (hd ▸ free.tested) hcs
  cases h with
  | @select table filter order page cs plain filters sorts =>
    have keys : ∀ e ∈ order, PlainName e.1.toList ∧ Reader.Begins e.1.toList := fun e he =>
      ⟨plain_of_checked sorts e he, free.computed e.1 (List.mem_map_of_mem he)⟩
    exact ⟨_, Command.read_selection plain free.table (readable filters rfl) keys .everything,
      .select (selects_read filters) fun rows bounded => Page.slice_asRead bounded page,
      by simp only [Command.columns, Condition.columnsOfAll_asRead]⟩
  | @insert table data entries plain some cells =>
    have names := columns_cells cells
    have filled := cells_ne_nil cells (by simpa using some)
    refine ⟨_, Command.read_insertion plain free.table filled fun cell hcell => ?_, .insert cells,
      rfl⟩
    obtain ⟨hplain, hname⟩ := names cell.1 (List.mem_map_of_mem hcell)
    exact ⟨hplain, free.written _ hname⟩
  | @update table data filter entries cs plain some cells filters =>
    have filled := cells_ne_nil cells (assigned_ne_nil some)
    have as := Command.readAs_of_readable plain free.table (readable filters rfl)
    have names := columns_cells cells
    have read := as.assignment filled
      (fun cell hcell => (names cell.1 (List.mem_map_of_mem hcell)).1)
      fun cell hcell => free.written _ (names cell.1 (List.mem_map_of_mem hcell)).2
    exact ⟨_, read, .update cells (selects_read filters),
      by simp only [Command.columns, Condition.columnsOfAll_asRead]⟩
  | @delete table filter cs plain filters =>
    have as := Command.readAs_of_readable plain free.table (readable filters rfl)
    exact ⟨_, as.removal, .delete (selects_read filters), Condition.columnsOfAll_asRead cs⟩
  | count plain filters =>
    have as := Command.readAs_of_readable plain free.table (readable filters rfl)
    exact ⟨_, as.counting, .count (selects_read filters),
      by simp only [Command.columns, Condition.columnsOfAll_asRead, Measure.ofRows]⟩
  | aggregate plain measures some filters =>
    have shows := Reader.Shows.measures (by simpa using some)
      (named_measures measures free.computed)
    exact ⟨_, Command.read_selection plain free.table (readable filters rfl) (by simp) shows,
      .aggregate measures (selects_read filters),
      by simp only [Command.columns, Condition.columnsOfAll_asRead]⟩

/-! ## Refusals -/

/-- Why a draft makes no statement: a name of it is not plain, a value of it cannot be bound, or
there is nothing that it sets, inserts or asks for. -/
inductive Refused (d : Draft) : Fault → Prop
  | name {n : String} (named : n ∈ d.table :: d.fields) (bad : ¬ PlainName n.toList) :
      Refused d (.badName n)
  | operand {e : Fault} (unbindable : e.IsUnbindable) : Refused d e
  | nothingToSet : Refused d (.nothingToSet d.table)
  | nothingToInsert : Refused d (.malformed (.nothingToInsert d.table))
  | nothingRequested : Refused d (.malformed (.nothingRequested d.table))

section

variable {kind : Fault → Prop}

theorem only_checkedName {n : String} (h : ¬ PlainName n.toList → kind (.badName n)) :
    Fault.Only kind (checkedName n) := by
  rw [checkedName]
  split
  · exact .ok n
  · next bad => exact .error (h fun plain => bad (isPlainName_iff.mpr plain))

theorem only_cells {data : Record}
    (names : ∀ n ∈ Entries.names data, Fault.Only kind (checkedName n))
    (operands : ∀ e, Fault.IsUnbindable e → kind e) : Fault.Only kind (Command.cells data) := by
  induction data with
  | nil => exact .ok []
  | cons e rest ih =>
    obtain ⟨field, v⟩ := e
    obtain ⟨hname, hnames⟩ := List.forall_mem_cons.mp names
    have bound (field : String) : Fault.Only kind (v.toScalar field) :=
      (Fault.Only.toScalar field v).mono operands
    exact hname.bind fun field => (bound field).bind fun s => (ih hnames).bind fun cs => .ok _

theorem only_checked {order : Order} (names : ∀ n ∈ order.fields, Fault.Only kind (checkedName n)) :
    Fault.Only kind order.checked := by
  induction order with
  | nil => exact .ok []
  | cons e rest ih =>
    obtain ⟨hname, hnames⟩ := List.forall_mem_cons.mp names
    exact hname.bind fun field => (ih hnames).bind fun rest => .ok _

theorem only_measuresOf {fold : Fold} {fields : List String}
    (names : ∀ n ∈ fields, ¬(fold = .count ∧ n = Aggregate.everyRow) →
      Fault.Only kind (checkedName n)) : Fault.Only kind (Aggregate.measuresOf fold fields) := by
  induction fields with
  | nil => exact .ok []
  | cons n rest ih =>
    obtain ⟨hname, hnames⟩ := List.forall_mem_cons.mp names
    have measured : Fault.Only kind (Aggregate.measure fold n) := by
      rw [Aggregate.measure]
      split
      · exact .ok _
      · next rows => exact (hname rows).bind fun field => .ok _
    exact measured.bind fun m => (ih hnames).bind fun ms => .ok _

theorem only_measures {a : Aggregate} (names : ∀ n ∈ a.fields, Fault.Only kind (checkedName n)) :
    Fault.Only kind a.measures := by
  have asked {fold : Fold} {fields : List String} (h : ∀ n ∈ fields, a.AsksFor fold n) :
      Fault.Only kind (Aggregate.measuresOf fold fields) :=
    only_measuresOf fun n hn rows => names n ((h n hn).mem_fields rows)
  have counted : Fault.Only kind a.counts := by
    rw [Aggregate.counts]
    split
    · exact .ok []
    · exact .ok _
    · next fields hcount => exact asked fun n hn => .inr ⟨rfl, fields, hcount, hn⟩
  rw [Aggregate.measures_eq]
  exact counted.bind fun _ => (asked fun _ => .inl).bind fun _ => (asked fun _ => .inl).bind
    fun _ => (asked fun _ => .inl).bind fun _ => (asked fun _ => .inl).bind fun _ => .ok _

end

theorem refused_of_command (d : Draft) : Fault.Only d.Refused d.command := by
  have names : ∀ n ∈ d.table :: d.fields, Fault.Only d.Refused (checkedName n) :=
    fun n hn => only_checkedName (.name hn)
  have operands : ∀ e, Fault.IsUnbindable e → d.Refused e := fun _ => .operand
  obtain ⟨table, fields⟩ := List.forall_mem_cons.mp names
  cases d with
  | select t filter order page =>
    obtain ⟨tested, sorted⟩ := List.forall_mem_append.mp fields
    exact (Fault.Only.conditions operands tested).bind fun cs => table.bind fun t =>
      (only_checked sorted).bind fun o => .ok _
  | insert t data =>
    refine table.check fun t' ht => ?_
    obtain ⟨rfl, -⟩ := Filter.checkedName_eq_ok ht
    split
    · exact .error .nothingToInsert
    · exact (only_cells fields operands).bind fun entries => .ok _
  | update t data filter =>
    obtain ⟨written, tested⟩ := List.forall_mem_append.mp fields
    refine (Fault.Only.conditions operands tested).bind fun cs => table.check fun t' ht => ?_
    obtain ⟨rfl, -⟩ := Filter.checkedName_eq_ok ht
    split
    · refine Fault.Only.bind (only_cells (fun n hn => written n ?_) operands) fun entries => .ok _
      exact List.map_subset Prod.fst List.filter_sublist.subset hn
    · exact .error .nothingToSet
  | delete t filter =>
    exact (Fault.Only.conditions operands fields).bind fun cs => table.bind fun t => .ok _
  | count t filter =>
    exact (Fault.Only.conditions operands fields).bind fun cs => table.bind fun t => .ok _
  | aggregate t a =>
    obtain ⟨computed, tested⟩ := List.forall_mem_append.mp fields
    refine table.check fun t' ht => (only_measures computed).bind fun ms => ?_
    obtain ⟨rfl, -⟩ := Filter.checkedName_eq_ok ht
    split
    · exact .error .nothingRequested
    · exact (Fault.Only.conditions operands tested).bind fun cs => .ok _

/-! ## Names -/

theorem plain_of_measure {fold : Fold} {n : String} {m : Measure}
    (h : Aggregate.measure fold n = .ok m) (field : ¬(fold = .count ∧ n = Aggregate.everyRow)) :
    PlainName n.toList := by
  rw [Aggregate.measure, if_neg field] at h
  obtain ⟨name, hname, -⟩ := bind_eq_ok.mp h
  exact (Filter.checkedName_eq_ok hname).2

theorem plain_of_measures {a : Aggregate} {ms : List Measure} (h : a.measures = .ok ms) :
    ∀ n ∈ a.fields, PlainName n.toList := by
  obtain ⟨⟨counted, hcounted, -⟩, parts⟩ := Aggregate.parts_of_measures h
  refine List.forall_mem_append.mpr ⟨?_, fun n hn => ?_⟩
  · split
    · next names hcount =>
      intro n hn
      obtain ⟨hn, other⟩ := List.mem_filter.mp hn
      rw [Aggregate.counts, hcount] at hcounted
      obtain ⟨m, -, hm⟩ := Aggregate.mem_measuresOf hcounted n hn
      exact plain_of_measure hm fun rows => by simp [rows.2] at other
    · simp
  · obtain ⟨fold, hfold, hn⟩ := List.mem_flatMap.mp hn
    have other : fold ≠ .count := by
      rintro rfl
      simp [Aggregate.folds] at hfold
    obtain ⟨part, hpart, -⟩ := parts fold other
    obtain ⟨m, -, hm⟩ := Aggregate.mem_measuresOf hpart n hn
    exact plain_of_measure hm fun rows => other rows.1

theorem Makes.plain (h : Makes d k) : ∀ n ∈ d.table :: d.fields, PlainName n.toList := by
  have named {data : Record} {entries : List (String × Scalar)}
      (h : Command.cells data = .ok entries) : ∀ n ∈ Entries.names data, PlainName n.toList :=
    List.forall_mem_map.mpr (plain_of_cells h)
  refine List.forall_mem_cons.mpr ⟨h.table?.2, ?_⟩
  cases h with
  | select plain filters sorts =>
    exact List.forall_mem_append.mpr ⟨Filter.plain_of_conditions filters,
      List.forall_mem_map.mpr (plain_of_checked sorts)⟩
  | insert plain some cells => exact named cells
  | @update table data filter entries cs plain some cells filters =>
    refine List.forall_mem_append.mpr ⟨?_, Filter.plain_of_conditions filters⟩
    refine List.forall_mem_map.mpr fun e he => ?_
    by_cases key : e.1 = Record.key
    · rw [key]
      exact isPlainName_iff.mp rfl
    · exact plain_of_cells cells e (List.mem_filter.mpr ⟨he, by simpa using key⟩)
  | delete plain filters => exact Filter.plain_of_conditions filters
  | count plain filters => exact Filter.plain_of_conditions filters
  | aggregate plain measures some filters =>
    exact List.forall_mem_append.mpr ⟨plain_of_measures measures,
      Filter.plain_of_conditions filters⟩

theorem Means.table? (h : d.Means k) : k.table? = some d.table := by
  cases h <;> rfl

/-- Names that are accepted make text that can be read. If a draft has a statement, all its names
are plain; and unless one of them is a word of the language in its place, the text is read as
what the draft asks for, of its table, and with no other columns than its fields, of which each
that is evaluated is an identifier. If it has none, then a name of it is not plain, a value of it
cannot be bound, or nothing is set, inserted or asked for. -/
theorem statement_readable (d : Draft) :
    (∀ stmt, d.statement = .ok stmt → (∀ n ∈ d.table :: d.fields, PlainName n.toList) ∧
      (d.Free → ∃ k, Sql.read stmt = .ok (some k) ∧ d.Means k ∧ k.table? = some d.table ∧
        (∀ n ∈ k.columns, n ∈ d.fields) ∧
        ∀ n ∈ d.tested ++ d.computed, ∀ f : Frame, f.meaning? n = f.identified? n)) ∧
    ∀ e, d.statement = .error e → d.Refused e := by
  refine ⟨fun stmt h => ?_, fun e h => ?_⟩
  · obtain ⟨k, hk, rfl⟩ := map_eq_ok.mp h
    have makes := command_eq_ok.mp hk
    refine ⟨makes.plain, fun free => ?_⟩
    obtain ⟨k', read, means, columns⟩ := makes.read free
    refine ⟨k', read, means, means.table?, fun n hn => (makes.columns n (columns ▸ hn)).2, ?_⟩
    exact fun n hn => Frame.meaning?_eq_identified? (free.inconstant n hn)
  · exact (refused_of_command d).map Command.statement e h

/-- The third ten of the open orders or of those with a note, from the dearest on. -/
def dearest : Draft :=
  .select "orders"
    [.group .or [[.test "status" (.compare .equal (.text "open"))],
      [.test "note" (.like .anywhere (.text "!"))]]]
    [("total", .descending), ("id", .ascending)] { take := some 10, skip := some 20 }

def dearestStatement : Statement where
  sql := "SELECT * FROM orders WHERE (status = ? OR note LIKE ?) ORDER BY total DESC, id ASC " ++
    "LIMIT 10 OFFSET 20"
  params := [.text "open", .text "%!%"]

theorem tested_dearest : dearest.tested = ["status", "note"] := by
  simp [dearest, tested, Filter.fields, Filter.fieldsOfAll]

theorem free_dearest : dearest.Free where
  table := by decide
  written := by decide
  tested := by
    rw [tested_dearest]
    decide
  computed n hn := ⟨by revert n; decide, by revert n; decide, by revert n; decide⟩
  inconstant := by
    rw [tested_dearest]
    have named : ∀ n ∈ ["status", "note", "total", "id"], ∀ now, Frame.constant? now n = none := by
      simp only [List.forall_mem_cons]
      exact ⟨fun _ => rfl, fun _ => rfl, fun _ => rfl, fun _ => rfl, by simp⟩
    exact named

theorem statement_readable_dearest :
    dearest.statement = .ok dearestStatement ∧ dearest.Free ∧
      ∃ k, Sql.read dearestStatement = .ok (some k) ∧ dearest.Means k := by
  have made : dearest.statement = .ok dearestStatement := rfl
  obtain ⟨-, read⟩ := (statement_readable dearest).1 dearestStatement made
  obtain ⟨k, hread, means, -⟩ := read free_dearest
  exact ⟨made, free_dearest, k, hread, means⟩

/-- Words of the language are accepted as names: a table and a field that are refused when the
text is read, a field with which no expression and one with which no group begins, and a field
that is read as a constant. -/
theorem reserved_accepted :
    ((select "order" [] [] {}).statement = .ok ⟨"SELECT * FROM order", []⟩ ∧
      Sql.read ⟨"SELECT * FROM order", []⟩ = .error (.syntaxError "order")) ∧
    ((insert "t" [("to", .integer 1)]).statement =
        .ok ⟨"INSERT INTO t (to) VALUES (?)", [.integer 1]⟩ ∧
      Sql.read ⟨"INSERT INTO t (to) VALUES (?)", [.integer 1]⟩ = .error (.syntaxError "to")) ∧
    ((delete "t" [.test "cast" (.compare .equal (.integer 1))]).statement =
        .ok ⟨"DELETE FROM t WHERE cast = ?", [.integer 1]⟩ ∧
      Sql.read ⟨"DELETE FROM t WHERE cast = ?", [.integer 1]⟩ = .error (.syntaxError "=")) ∧
    ((delete "t" [.group .and [[.test "with" .isNull]]]).statement =
        .ok ⟨"DELETE FROM t WHERE (with IS NULL)", []⟩ ∧
      Sql.read ⟨"DELETE FROM t WHERE (with IS NULL)", []⟩ = .error (.syntaxError "IS")) ∧
    (delete "t" [.test "current_date" .isNull]).statement =
        .ok ⟨"DELETE FROM t WHERE current_date IS NULL", []⟩ ∧
      ∀ f : Frame, ∃ s, f.meaning? "current_date" = some (.constant s) :=
  ⟨⟨rfl, rfl⟩, ⟨rfl, rfl⟩, ⟨rfl, rfl⟩, ⟨rfl, rfl⟩, rfl, fun _ => ⟨_, rfl⟩⟩

end Draft

end Relata
