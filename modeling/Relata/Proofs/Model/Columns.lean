import Relata.Proofs.Model.Drafts
import Relata.Proofs.Query.Refusals
import Relata.Proofs.Sql.Words
import Relata.Schema.Declaration

/-! # Declared columns

A table that declares its columns is never asked for others: the fields that an operation
checks are those that its statements name, on every table that it reaches.
-/

namespace Relata

open Text Sql

namespace Declaration

variable {s t : Schema}

theorem key_mem_columnSet (columns : List String) : Record.key ∈ columnSet columns := by
  have hfold (set : List String) (h : Record.key ∈ set) : Record.key ∈
      columns.foldl (fun set c => if set.contains c then set else set ++ [c]) set := by
    induction columns generalizing set with
    | nil => exact h
    | cons c columns ih =>
      rw [List.foldl_cons]
      split
      · exact ih _ h
      · exact ih _ (List.mem_append_left _ h)
  exact hfold _ (List.mem_singleton_self _)

/-- Every table that declares its columns has the identity of its rows among them. -/
def DeclaresKeys (s : Schema) : Prop :=
  ∀ table columns, s.columns? table = some columns → Record.key ∈ columns

theorem declaresKeys_buildTables {tables : List (String × List String)} (hs : DeclaresKeys s)
    (h : buildTables s tables = .ok t) : DeclaresKeys t := by
  induction tables generalizing s with
  | nil =>
    cases h
    exact hs
  | cons e rest ih =>
    obtain ⟨name, columns⟩ := e
    obtain ⟨_, -, h⟩ := bind_eq_ok.mp h
    refine ih (fun table cs hcs => ?_) h
    rw [Schema.columns?] at hcs
    by_cases hname : table = name
    · rw [hname, Entries.get?_set_self] at hcs
      cases hcs
      exact key_mem_columnSet columns
    · rw [Entries.get?_set_of_ne _ _ hname] at hcs
      exact hs table cs hcs

theorem tables_buildRelations {relations : List (String × String × Relation)}
    (h : buildRelations s relations = .ok t) : t.tables = s.tables := by
  induction relations generalizing s with
  | nil =>
    cases h
    rfl
  | cons e rest ih =>
    obtain ⟨table, field, r⟩ := e
    obtain ⟨_, -, h⟩ := bind_eq_ok.mp h
    obtain ⟨_, -, h⟩ := bind_eq_ok.mp h
    obtain ⟨_, -, h⟩ := bind_eq_ok.mp h
    dsimp only at h
    split at h
    · cases h
    · exact (ih h).trans rfl

theorem declaresKeys_build {d : Declaration} (h : d.build = .ok s) : DeclaresKeys s := by
  obtain ⟨t, ht, h⟩ := bind_eq_ok.mp h
  have htables : DeclaresKeys t := by
    refine declaresKeys_buildTables (fun table cs hcs => ?_) ht
    cases hcs
  intro table cs hcs
  rw [Schema.columns?, tables_buildRelations h] at hcs
  exact htables table cs hcs

end Declaration

namespace Schema

variable {s : Schema} {table : String}

theorem admits_of_checkFields {fields : List String} (h : s.checkFields table fields = .ok ())
    {field : String} (hf : field ∈ fields) : s.admits table field = true :=
  admits_of_checkField (checkField_of_checkFields h hf)

theorem plain_of_checkFields {fields : List String} (h : s.checkFields table fields = .ok ())
    {field : String} (hf : field ∈ fields) : PlainName field.toList := by
  obtain ⟨name, hname, -⟩ := bind_eq_ok.mp (checkField_of_checkFields h hf)
  exact (Filter.checkedName_eq_ok hname).2

theorem admits_iff {field : String} : s.admits table field = true ↔
    ∀ columns, s.columns? table = some columns → field ∈ columns := by
  rw [admits]
  cases s.columns? table with
  | none => simp
  | some columns => simp

/-- The columns that a command names are columns of its table, if these are declared, and its
statement has no other words but those of the language, the table and the labels of its results. -/
def Knows (s : Schema) (k : Command) : Prop :=
  ∀ table columns, k.table? = some table → s.columns? table = some columns →
    (∀ name ∈ k.columns, name ∈ columns) ∧
      Speaks (keywords ++ table :: (columns ++ k.labels)) k.text

end Schema

namespace Text

theorem PlainName.continues {cs : List Char} (plain : PlainName cs) :
    ∀ c ∈ cs, continuesName c = true := by
  obtain ⟨head, tail⟩ := plain
  refine List.forall_mem_cons.mpr ⟨?_, tail⟩
  rw [startsName, Bool.or_eq_true] at head
  rw [continuesName]
  rcases head with head | head <;> simp [head]

theorem PlainName.append {cs ds : List Char} (plain : PlainName cs)
    (h : ∀ d ∈ ds, continuesName d = true) : PlainName (cs ++ ds) := by
  obtain ⟨head, tail⟩ := plain
  exact .intro head (List.forall_mem_append.mpr ⟨tail, h⟩)

end Text

namespace Aggregate

theorem label_plain (fold : Fold) {field : String} (plain : PlainName field.toList) :
    PlainName (label fold.group field).toList := by
  have hgroup : isPlainName (fold.group ++ "__").toList = true := by
    cases fold <;> decide
  rw [label, String.toList_append]
  exact (isPlainName_iff.mp hgroup).append plain.continues

theorem measure_ok {fold : Fold} {name : String} {m : Measure} (h : measure fold name = .ok m) :
    PlainName m.label.toList ∧
      ∀ n ∈ m.column, PlainName n.toList ∧ n = name ∧ ¬(fold = .count ∧ n = everyRow) := by
  rw [measure] at h
  split at h
  · next he =>
    cases h
    obtain ⟨rfl, rfl⟩ := he
    exact ⟨isPlainName_iff.mp (by decide), by simp⟩
  · next he =>
    obtain ⟨field, hname, hdone⟩ := bind_eq_ok.mp h
    obtain ⟨rfl, plain⟩ := Filter.checkedName_eq_ok hname
    cases hdone
    refine ⟨label_plain fold plain, fun n hn => ?_⟩
    cases hn
    exact ⟨plain, rfl, he⟩

theorem measures_ok {a : Aggregate} {ms : List Measure} (h : a.measures = .ok ms) :
    ∀ m ∈ ms, PlainName m.label.toList ∧
      ∀ n ∈ m.column, PlainName n.toList ∧ n ∈ a.fields := by
  intro m hm
  rcases gives_of_measures h m hm with rfl | ⟨fold, field, asked, hmeasure⟩
  · exact ⟨isPlainName_iff.mp (by decide), by simp⟩
  · obtain ⟨hlabel, hcolumn⟩ := measure_ok hmeasure
    refine ⟨hlabel, fun n hn => ?_⟩
    obtain ⟨plain, rfl, hne⟩ := hcolumn n hn
    exact ⟨plain, asked.mem_fields hne⟩

end Aggregate

namespace Draft

variable {d : Draft} {k : Command}

def table : Draft → String
  | select table .. => table
  | insert table _ => table
  | update table .. => table
  | delete table _ => table
  | count table _ => table
  | aggregate table _ => table

def fields : Draft → List String
  | select _ filter order _ => Filter.fields filter ++ order.fields
  | insert _ data => Entries.names data
  | update _ data filter => Entries.names data ++ Filter.fields filter
  | delete _ filter => Filter.fields filter
  | count _ filter => Filter.fields filter
  | aggregate _ a => a.fields ++ Filter.fields a.filter

theorem Makes.table? (h : Makes d k) : k.table? = some d.table ∧ PlainName d.table.toList := by
  cases h with
  | select plain => exact ⟨rfl, plain⟩
  | insert plain => exact ⟨rfl, plain⟩
  | update plain => exact ⟨rfl, plain⟩
  | delete plain => exact ⟨rfl, plain⟩
  | count plain => exact ⟨rfl, plain⟩
  | aggregate plain => exact ⟨rfl, plain⟩

theorem columns_conditions {filter : Filter} {cs : List Condition}
    (h : Filter.conditions filter = .ok cs) :
    ∀ n ∈ Condition.columnsOfAll cs, PlainName n.toList ∧ n ∈ Filter.fields filter := by
  intro n hn
  have hfield := Filter.columns_conditions h n hn
  exact ⟨Filter.plain_of_conditions h n hfield, hfield⟩

theorem columns_cells {data : Record} {entries : List (String × Scalar)}
    (h : Command.cells data = .ok entries) :
    ∀ n ∈ entries.map Prod.fst, PlainName n.toList ∧ n ∈ Entries.names data := by
  obtain ⟨hnames, hplain⟩ := Command.names_cells h
  intro n hn
  refine ⟨?_, hnames ▸ hn⟩
  obtain ⟨cell, hcell, rfl⟩ := List.mem_map.mp hn
  exact hplain cell hcell

theorem Makes.columns (h : Makes d k) : ∀ n ∈ k.columns, PlainName n.toList ∧ n ∈ d.fields := by
  have wider {names fields more : List String}
      (h : ∀ n ∈ names, PlainName n.toList ∧ n ∈ fields) (hsub : fields ⊆ more) :
      ∀ n ∈ names, PlainName n.toList ∧ n ∈ more :=
    fun n hn => ⟨(h n hn).1, hsub (h n hn).2⟩
  cases h with
  | @select table filter order page cs plain filters sorts =>
    have horder : ∀ n ∈ order.fields, PlainName n.toList ∧ n ∈ order.fields := by
      intro n hn
      obtain ⟨e, he, rfl⟩ := List.mem_map.mp hn
      exact ⟨plain_of_checked sorts e he, hn⟩
    exact List.forall_mem_append.mpr ⟨by simp [Projection.columnNames],
      List.forall_mem_append.mpr ⟨wider (columns_conditions filters) (List.subset_append_left ..),
        wider horder (List.subset_append_right ..)⟩⟩
  | insert plain some cells => exact columns_cells cells
  | update plain some cells filters =>
    have hassigned := wider (columns_cells cells)
      (List.map_subset Prod.fst List.filter_sublist.subset)
    exact List.forall_mem_append.mpr ⟨wider hassigned (List.subset_append_left ..),
      wider (columns_conditions filters) (List.subset_append_right ..)⟩
  | delete plain filters => exact columns_conditions filters
  | count plain filters =>
    exact List.forall_mem_append.mpr ⟨by simp [Projection.columnNames],
      List.forall_mem_append.mpr ⟨columns_conditions filters, by simp [Order.fields]⟩⟩
  | @aggregate table a ms cs plain measures some filters =>
    have hmeasures : ∀ n ∈ ms.filterMap Measure.column, PlainName n.toList ∧ n ∈ a.fields := by
      intro n hn
      obtain ⟨m, hm, hcolumn⟩ := List.mem_filterMap.mp hn
      exact (Aggregate.measures_ok measures m hm).2 n hcolumn
    exact List.forall_mem_append.mpr ⟨wider hmeasures (List.subset_append_left ..),
      List.forall_mem_append.mpr ⟨wider (columns_conditions filters) (List.subset_append_right ..),
        by simp [Order.fields]⟩⟩

theorem Makes.labels (h : Makes d k) : ∀ n ∈ k.labels, PlainName n.toList := by
  cases h with
  | count plain filters => exact List.forall_mem_singleton.mpr (isPlainName_iff.mp (by decide))
  | @aggregate table a ms cs plain measures some filters =>
    intro n hn
    obtain ⟨m, hm, rfl⟩ := List.mem_map.mp hn
    exact (Aggregate.measures_ok measures m hm).1
  | _ => simp [Command.labels, Projection.labels]

theorem Makes.knows (h : Makes d k) {s : Schema}
    (admits : ∀ n ∈ d.fields, s.admits d.table n = true) : s.Knows k := by
  intro table columns about declared
  obtain ⟨htable, plain⟩ := h.table?
  obtain rfl : d.table = table := Option.some.inj (htable.symm.trans about)
  have hcolumns : ∀ n ∈ k.columns, n ∈ columns := fun n hn =>
    Schema.admits_iff.mp (admits n (h.columns n hn).2) columns declared
  refine ⟨hcolumns, Command.speaks_text (List.subset_append_left ..) about ?_⟩
  refine List.forall_mem_cons.mpr ⟨⟨plain, by simp⟩, List.forall_mem_append.mpr ⟨?_, ?_⟩⟩
  · exact fun n hn => ⟨(h.columns n hn).1, by simp [hcolumns n hn]⟩
  · exact fun n hn => ⟨h.labels n hn, by simp [hn]⟩

end Draft

/-! ## Operations -/

namespace Op

variable {α β : Type} {issued : Job → Prop} {x : Op α} {f : α → Op β}

/-- Every job on data that an operation may ask for, whatever it is replied, is a given one. -/
def Issues (x : Op α) (issued : Job → Prop) : Prop :=
  x.run.Issues issued

theorem issues_pure (a : α) : (pure a : Op α).Issues issued :=
  trivial

theorem issues_throw (f : Failure) : (throw f : Op α).Issues issued :=
  trivial

theorem Issues.bind (first : x.Issues issued) (rest : ∀ a, (f a).Issues issued) :
    (x >>= f).Issues issued := by
  refine Script.Issues.bind first fun result => ?_
  cases result with
  | error e => trivial
  | ok a => exact rest a

theorem Issues.check {e : Except Fault α} (rest : ∀ a, e = .ok a → (f a).Issues issued) :
    (liftM e >>= f).Issues issued := by
  cases e with
  | error fault => trivial
  | ok a => exact rest a rfl

end Op

namespace Model

open Op

variable {m : Model}

def Known (s : Schema) (job : Job) : Prop :=
  ∃ k, job = .command k ∧ s.Knows k

theorem known_perform {d : Draft} {k : Command} (makes : d.Makes k)
    (admits : ∀ n ∈ d.fields, m.schema.admits d.table n = true) :
    (m.perform k).Issues (Known m.schema) :=
  Handle.issues_perform ⟨k, rfl, makes.knows admits⟩

theorem known_select {f : Filter} {order : Order} {page : Page}
    (filters : m.checkFilter f = .ok ())
    (sorts : m.schema.checkFields m.table order.fields = .ok ()) :
    (m.select f order page).Issues (Known m.schema) := by
  refine .check fun cs hcs => .check fun k hk => ?_
  have makes : Draft.Makes (.select m.table f order page) k :=
    Draft.command_eq_ok.mp (bind_eq_ok.mpr ⟨cs, hcs, hk⟩)
  exact .bind (known_perform makes (List.forall_mem_append.mpr
    ⟨fun _ => Schema.admits_of_checkFields filters, fun _ => Schema.admits_of_checkFields sorts⟩))
    fun _ => issues_pure _

theorem checkFind_ok {find : Find} (h : m.checkFind find = .ok ()) :
    m.checkFilter find.filter = .ok () ∧
      m.schema.checkFields m.table find.order.fields = .ok () := by
  obtain ⟨_, -, h⟩ := bind_eq_ok.mp h
  obtain ⟨_, hfilter, h⟩ := bind_eq_ok.mp h
  exact ⟨hfilter, h⟩

theorem known_attach (tree : Include) (rows : List Record) :
    (m.attach tree rows).Issues (Known m.schema) := by
  induction tree using Include.induction generalizing m rows with
  | nil => exact issues_pure rows
  | cons field scope rest ihscope ihrest =>
    rw [attach]
    split
    · exact ihrest rows
    · next r _ =>
      refine .bind ?_ fun rows => ihrest rows
      obtain ⟨filter, order, page, select, nested⟩ := scope
      rw [attachScope]
      split
      · exact issues_pure _
      · refine .check fun _ hcheck => ?_
        obtain ⟨hfilter, hsorts⟩ := checkFind_ok hcheck
        exact .bind (known_select hfilter hsorts) fun rows =>
          .bind (ihscope (m := m.related r.target) rows) fun _ => issues_pure _

theorem known_findMany (find : Find) : (m.findMany find).Issues (Known m.schema) := by
  refine .check fun _ hcheck => ?_
  obtain ⟨hfilter, hsorts⟩ := checkFind_ok hcheck
  exact .bind (known_select hfilter hsorts) fun rows =>
    .bind (known_attach find.attach rows) fun _ => issues_pure _

theorem known_findUnique (find : Find) : (m.findUnique find).Issues (Known m.schema) := by
  refine .check fun _ hcheck => ?_
  obtain ⟨hfilter, -⟩ := checkFind_ok hcheck
  exact .bind (known_select hfilter rfl) fun rows =>
    .bind (.bind (known_attach find.attach rows) fun _ => issues_pure _) fun _ => issues_pure _

theorem known_count (f : Filter) : (m.count f).Issues (Known m.schema) := by
  refine .check fun _ hcheck => .check fun cs hcs => .check fun k hk => ?_
  have makes : Draft.Makes (.count m.table f) k :=
    Draft.command_eq_ok.mp (bind_eq_ok.mpr ⟨cs, hcs, hk⟩)
  exact .bind (known_perform makes fun _ => Schema.admits_of_checkFields hcheck) fun _ =>
    issues_pure _

theorem known_aggregate (a : Aggregate) : (m.aggregate a).Issues (Known m.schema) := by
  refine .check fun _ hfilter => .check fun _ hfields => .check fun k hk => ?_
  have makes : Draft.Makes (.aggregate m.table a) k := Draft.command_eq_ok.mp hk
  exact .bind (known_perform makes (List.forall_mem_append.mpr
    ⟨fun _ => Schema.admits_of_checkFields hfields,
      fun _ => Schema.admits_of_checkFields hfilter⟩)) fun _ => issues_pure _

theorem known_create (fresh : String) (data : Record) :
    (m.create fresh data).Issues (Known m.schema) := by
  refine .check fun _ hdata => .check fun k hk => ?_
  have makes : Draft.Makes (.insert m.table (data.identified fresh).2) k :=
    Draft.command_eq_ok.mp hk
  refine .bind (known_perform makes fun _ => Schema.admits_of_checkFields hdata) fun _ =>
    .bind (known_findUnique _) fun row => ?_
  cases row with
  | some row => exact issues_pure row
  | none => exact issues_throw _

theorem knows_insertions {rows : List (String × Record)} {ks : List Command}
    (h : m.insertions rows = .ok ks) : ∀ k ∈ ks, m.schema.Knows k := by
  induction rows generalizing ks with
  | nil =>
    cases h
    simp
  | cons row rows ih =>
    obtain ⟨_, hdata, h⟩ := bind_eq_ok.mp h
    obtain ⟨k, hk, h⟩ := bind_eq_ok.mp h
    obtain ⟨rest, hrest, h⟩ := bind_eq_ok.mp h
    cases h
    have makes : Draft.Makes (.insert m.table (row.2.identified row.1).2) k :=
      Draft.command_eq_ok.mp hk
    exact List.forall_mem_cons.mpr
      ⟨makes.knows fun _ => Schema.admits_of_checkFields hdata, ih hrest⟩

theorem known_createMany (rows : List (String × Record)) :
    (m.createMany rows).Issues (Known m.schema) := by
  rw [createMany]
  split
  · exact issues_pure 0
  · refine .check fun ks hks => .bind (Handle.issues_batch fun job hjob => ?_) fun _ =>
      issues_pure _
    obtain ⟨k, hk, rfl⟩ := List.mem_map.mp hjob
    exact ⟨k, rfl, knows_insertions hks k hk⟩

theorem known_updateHeld (key : m.schema.admits m.table Record.key = true) {f : Filter}
    (hfilter : m.checkFilter f = .ok ()) {data : Record} (hdata : m.checkData data = .ok ()) :
    (m.updateHeld f data).Issues (Known m.schema) := by
  refine .bind (known_findUnique _) fun found => ?_
  cases found with
  | none => exact issues_pure none
  | some found =>
    refine .check fun cs hcs => .check fun k hk => ?_
    have makes : Draft.Makes (.update m.table data (found.locator f)) k :=
      Draft.command_eq_ok.mp (bind_eq_ok.mpr ⟨cs, hcs, hk⟩)
    have hlocator := checkFilter_locator key hfilter found
    exact .bind (known_perform makes (List.forall_mem_append.mpr
      ⟨fun _ => Schema.admits_of_checkFields hdata,
        fun _ => Schema.admits_of_checkFields hlocator⟩)) fun _ => known_findUnique _

theorem known_update (key : m.schema.admits m.table Record.key = true) (f : Filter)
    (data : Record) : (m.update f data).Issues (Known m.schema) := by
  rw [update_eq]
  split
  · exact .check fun _ hfilter => .check fun _ hdata => Handle.issues_hold fun inner =>
      known_updateHeld (m := m.through inner) key hfilter hdata
  · exact issues_throw _

theorem known_updateMany (f : Filter) (data : Record) :
    (m.updateMany f data).Issues (Known m.schema) := by
  rw [updateMany]
  split
  · refine .check fun _ hfilter => .check fun _ hdata => .check fun cs hcs => .check fun k hk => ?_
    have makes : Draft.Makes (.update m.table data f) k :=
      Draft.command_eq_ok.mp (bind_eq_ok.mpr ⟨cs, hcs, hk⟩)
    exact .bind (known_perform makes (List.forall_mem_append.mpr
      ⟨fun _ => Schema.admits_of_checkFields hdata,
        fun _ => Schema.admits_of_checkFields hfilter⟩)) fun _ => issues_pure _
  · exact issues_pure 0

theorem known_removal {f : Filter} {cs : List Condition} {k : Command}
    (hfilter : m.checkFilter f = .ok ()) (hcs : Filter.conditions f = .ok cs)
    (hk : Command.removal m.table cs = .ok k) : (m.perform k).Issues (Known m.schema) := by
  have makes : Draft.Makes (.delete m.table f) k :=
    Draft.command_eq_ok.mp (bind_eq_ok.mpr ⟨cs, hcs, hk⟩)
  exact known_perform makes fun _ => Schema.admits_of_checkFields hfilter

theorem known_delete (key : m.schema.admits m.table Record.key = true) (f : Filter) :
    (m.delete f).Issues (Known m.schema) := by
  rw [delete_eq]
  refine .check fun _ hfilter => Handle.issues_hold fun inner => ?_
  refine Issues.bind (known_findUnique (m := m.through inner) _) fun found => ?_
  cases found with
  | none => exact issues_pure none
  | some found =>
    refine .check fun cs hcs => .check fun k hk => ?_
    have hlocator := checkFilter_locator (m := m.through inner) key hfilter found
    exact .bind (known_removal hlocator hcs hk) fun _ => issues_pure _

theorem known_deleteMany (f : Filter) : (m.deleteMany f).Issues (Known m.schema) :=
  .check fun _ hfilter => .check fun _ hcs => .check fun _ hk =>
    .bind (known_removal hfilter hcs hk) fun _ => issues_pure _

theorem known_upsert (key : m.schema.admits m.table Record.key = true) (fresh : String)
    (f : Filter) (create update : Record) :
    (m.upsert fresh f create update).Issues (Known m.schema) := by
  rw [upsert_eq]
  refine Handle.issues_hold fun inner => ?_
  refine Issues.bind (known_findUnique (m := m.through inner) _) fun found => ?_
  cases found with
  | none => exact known_create (m := m.through inner) _ _
  | some found =>
    by_cases hdata : update.hasAssignments = true
    · simp only [if_pos hdata]
      exact .bind (known_update (m := m.through inner) key _ _) fun _ => issues_pure _
    · simp only [if_neg hdata]
      exact issues_pure found

theorem known_ask {α : Type} (key : m.schema.admits m.table Record.key = true)
    (o : Operation α) : (m.ask o).Issues (Known m.schema) := by
  cases o with
  | findMany find => exact known_findMany find
  | findFirst find => exact .bind (known_findMany _) fun _ => issues_pure _
  | findUnique find => exact known_findUnique find
  | count f => exact known_count f
  | aggregate a => exact known_aggregate a
  | create fresh data => exact known_create fresh data
  | createMany rows => exact known_createMany rows
  | update f data => exact known_update key f data
  | updateMany f data => exact known_updateMany f data
  | delete f => exact known_delete key f
  | deleteMany f => exact known_deleteMany f
  | upsert fresh f create update => exact known_upsert key fresh f create update

/-- Tables are asked for declared columns only. Whatever a model of a built schema is asked and
whatever the store replies, the statements that are issued against a table that declares its
columns, be it the model's own or one that a tree of relations reaches, name its columns and no
others, and have no other words but those of the language, the table's name and the labels of
results. A filter whose fields pass their check is not refused for a name, and the words of its
text are its fields and those of the language. -/
theorem issues_declared {α : Type} {d : Declaration} (built : d.build = .ok m.schema)
    (o : Operation α) :
    (m.ask o).run.Issues (fun job => ∃ k, job = .command k ∧
      ∀ table columns, k.table? = some table → m.schema.columns? table = some columns →
        (∀ name ∈ k.columns, name ∈ columns) ∧
          Speaks (keywords ++ table :: (columns ++ k.labels)) k.text) ∧
    ∀ table f, m.schema.checkFields table (Filter.fields f) = .ok () →
      (∀ name, Filter.conditions f ≠ .error (.badName name)) ∧
      ∀ cs, Filter.conditions f = .ok cs →
        Speaks (keywords ++ Filter.fields f) (Condition.conjunctionText cs) := by
  refine ⟨?_, fun table f hfields => ⟨?_, ?_⟩⟩
  · exact known_ask (Schema.admits_iff.mpr (Declaration.declaresKeys_build built m.table)) o
  · intro name hname
    obtain ⟨_, _, he⟩ :=
      Fault.Only.of_plain (fun _ => Schema.plain_of_checkFields hfields) _ hname
    cases he
  · intro cs hcs
    refine speaks_conjunction (List.subset_append_left ..) fun n hn => ?_
    obtain ⟨plain, hn⟩ := Draft.columns_conditions hcs n hn
    exact ⟨plain, List.mem_append_right _ hn⟩

def itemDeclaration : Declaration where
  tables := [("orders", ["status"]), ("items", ["order_id", "quantity"])]
  relations := [("orders", "items", ⟨.oneToMany, "items", "order_id", "id"⟩)]

def itemModel : Model where
  table := "orders"
  handle := {}
  schema := {
    tables := [("orders", ["id", "status"]), ("items", ["id", "order_id", "quantity"])]
    relationsOf := [("orders", [("items", ⟨.oneToMany, "items", "order_id", "id"⟩)])] }
  depthLimit := 3

def ordersWithItems : Operation (List Record) :=
  .findMany { attach := [("items", { order := [("quantity", .descending)] })] }

theorem issues_declared_items :
    itemDeclaration.build = .ok itemModel.schema ∧
      (itemModel.ask ordersWithItems).run.Issues (Known itemModel.schema) :=
  ⟨rfl, (issues_declared (m := itemModel) (d := itemDeclaration) rfl ordersWithItems).1⟩

end Model

end Relata
