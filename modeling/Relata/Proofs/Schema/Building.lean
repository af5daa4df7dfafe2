import Relata.Proofs.Model.Columns
import Relata.Proofs.Query.Structural

/-! # Schemas that are built

Declarations become a schema exactly if they are consistent, and the schema has all that was
declared. All tables are entered before the first relation is, so a relation is held to the
columns that its tables have in the end, wherever among the declarations these stand.
-/

namespace Relata

open Text

theorem Entries.contains_iff {α : Type} {entries : Entries α} {name : String} :
    entries.contains name = true ↔ name ∈ entries.names := by
  rw [contains, Option.isSome_iff_exists]
  constructor
  · rintro ⟨a, ha⟩
    exact List.mem_map_of_mem (mem_of_get? ha)
  · intro h
    obtain ⟨e, he, rfl⟩ := List.mem_map.mp h
    exact exists_get?_of_mem he

theorem Entries.mem_names_set {α : Type} (entries : Entries α) (name : String) (a : α)
    {other : String} :
    other ∈ (entries.set name a).names ↔ other = name ∨ other ∈ entries.names := by
  rw [names_set]
  split
  · next h => simp +contextual [h]
  · simp [or_comm]

/-! ## Declarations one by one -/

inductive Declaring
  | table (name : String) (columns : List String)
  | relation (table field : String) (r : Relation)

namespace Declaring

def table? : Declaring → Option (String × List String)
  | table name columns => some (name, columns)
  | relation .. => none

def relation? : Declaring → Option (String × String × Relation)
  | table .. => none
  | relation owner field r => some (owner, field, r)

def names : Declaring → List String
  | table name columns => name :: columns
  | relation owner field r => [owner, field, r.target, r.foreignKey, r.localKey]

def place? : Declaring → Option (String × String)
  | table .. => none
  | relation owner field _ => some (owner, field)

def fieldOf? (name : String) : Declaring → Option (String × Relation)
  | table .. => none
  | relation owner field r => if owner = name then some (field, r) else none

/-- The columns that a table is declared with last. -/
def Last (steps : List Declaring) (name : String) (columns : List String) : Prop :=
  ∃ later, .table name columns :: later <:+ steps ∧ ∀ more, .table name more ∉ later

/-- A table may have a column that is declared, and any column if none are declared. The identity
of rows needs no declaration. -/
def Allows (steps : List Declaring) (name column : String) : Prop :=
  ∀ columns, Last steps name columns → column = Record.key ∨ column ∈ columns

/-- Declarations that fit together. -/
structure Consistent (steps : List Declaring) : Prop where
  plain : ∀ step ∈ steps, ∀ name ∈ step.names, PlainName name.toList
  once : (steps.filterMap place?).Nodup
  parent : ∀ table field r, .relation table field r ∈ steps → Allows steps table r.parentKey
  target : ∀ table field r, .relation table field r ∈ steps → Allows steps r.target r.targetKey

variable {step : Declaring} {steps : List Declaring} {name : String} {columns : List String}

theorem last_cons : Last (step :: steps) name columns ↔
    (step = .table name columns ∧ ∀ more, .table name more ∉ steps) ∨ Last steps name columns := by
  constructor
  · rintro ⟨later, suffix, none⟩
    rcases List.suffix_cons_iff.mp suffix with h | h
    · obtain ⟨rfl, rfl⟩ := List.cons.inj h
      exact .inl ⟨rfl, none⟩
    · exact .inr ⟨later, h, none⟩
  · rintro (⟨rfl, none⟩ | ⟨later, suffix, none⟩)
    · exact ⟨steps, List.suffix_refl _, none⟩
    · exact ⟨later, suffix.trans (List.suffix_cons ..), none⟩

theorem Last.mem (h : Last steps name columns) : .table name columns ∈ steps := by
  obtain ⟨later, suffix, -⟩ := h
  exact suffix.mem List.mem_cons_self

theorem exists_last (h : .table name columns ∈ steps) : ∃ last, Last steps name last := by
  induction steps generalizing columns with
  | nil => cases h
  | cons step steps ih =>
    by_cases later : ∃ more, .table name more ∈ steps
    · obtain ⟨more, hmore⟩ := later
      obtain ⟨last, hlast⟩ := ih hmore
      exact ⟨last, last_cons.mpr (.inr hlast)⟩
    · rw [not_exists] at later
      rcases List.mem_cons.mp h with rfl | h
      · exact ⟨columns, last_cons.mpr (.inl ⟨rfl, later⟩)⟩
      · exact absurd h (later columns)

end Declaring

namespace Declaration

open Declaring

variable {s t : Schema}

def declare (d : Declaration) : Declaring → Declaration
  | .table name columns => d.table name columns
  | .relation table field r => d.relation table field r

def ofSteps (steps : List Declaring) : Declaration :=
  steps.foldl declare {}

/-- What is declared keeps the order of its kind, however tables and relations are mixed. -/
theorem ofSteps_eq (steps : List Declaring) :
    ofSteps steps = ⟨steps.filterMap table?, steps.filterMap relation?⟩ := by
  have hfold (d : Declaration) : steps.foldl declare d =
      ⟨d.tables ++ steps.filterMap table?, d.relations ++ steps.filterMap relation?⟩ := by
    induction steps generalizing d with
    | nil => simp
    | cons step steps ih =>
      rw [List.foldl_cons, ih]
      cases step <;> simp [declare, table, relation, table?, relation?, List.filterMap_cons]
  exact hfold {}

/-! ## Tables -/

theorem mem_columnSet {columns : List String} {c : String} :
    c ∈ columnSet columns ↔ c = Record.key ∨ c ∈ columns := by
  have hfold (set : List String) :
      c ∈ columns.foldl (fun set c => if set.contains c then set else set ++ [c]) set ↔
        c ∈ set ∨ c ∈ columns := by
    induction columns generalizing set with
    | nil => simp
    | cons d columns ih =>
      rw [List.foldl_cons, ih]
      split
      · next h =>
        have hd : d ∈ set := by simpa using h
        constructor
        · rintro (h | h) <;> simp [h]
        · rintro (h | h)
          · exact .inl h
          · rcases List.mem_cons.mp h with rfl | h
            · exact .inl hd
            · exact .inr h
      · simp [or_assoc]
  rw [columnSet, hfold, List.mem_singleton]

theorem checkNames_eq_ok_iff {names : List String} :
    checkNames names = .ok () ↔ ∀ name ∈ names, PlainName name.toList := by
  induction names with
  | nil => simp [checkNames]
  | cons name names ih =>
    rw [checkNames, bind_eq_ok, List.forall_mem_cons, ← ih]
    constructor
    · rintro ⟨_, hname, hrest⟩
      exact ⟨(Filter.checkedName_eq_ok hname).2, hrest⟩
    · rintro ⟨plain, hrest⟩
      exact ⟨name, Filter.checkedName_of_plain plain, hrest⟩

def withTable (s : Schema) (e : String × List String) : Schema :=
  { s with tables := Entries.set s.tables e.1 (columnSet e.2) }

theorem buildTables_eq_ok_iff {tables : List (String × List String)} :
    buildTables s tables = .ok t ↔
      (∀ e ∈ tables, ∀ name ∈ e.1 :: e.2, PlainName name.toList) ∧
        tables.foldl withTable s = t := by
  induction tables generalizing s with
  | nil => simp [buildTables]
  | cons e tables ih =>
    have hcons : buildTables s (e :: tables) = .ok t ↔
        checkNames (e.1 :: e.2) = .ok () ∧ buildTables (withTable s e) tables = .ok t := by
      rw [buildTables, bind_eq_ok]
      constructor
      · rintro ⟨_, hnames, hrest⟩
        exact ⟨hnames, hrest⟩
      · rintro ⟨hnames, hrest⟩
        exact ⟨(), hnames, hrest⟩
    rw [hcons, ih, checkNames_eq_ok_iff, List.foldl_cons]
    simp only [List.forall_mem_cons, and_assoc]

def tablesOf (steps : List Declaring) (s : Schema) : Schema :=
  (steps.filterMap table?).foldl withTable s

theorem columns?_tablesOf_of_not_mem {steps : List Declaring} {name : String}
    (h : ∀ columns, .table name columns ∉ steps) :
    (tablesOf steps s).columns? name = s.columns? name := by
  induction steps generalizing s with
  | nil => rfl
  | cons step steps ih =>
    have hsteps : ∀ columns, .table name columns ∉ steps :=
      fun columns hmem => h columns (List.mem_cons_of_mem _ hmem)
    cases step with
    | relation table field r => exact ih hsteps
    | table other columns =>
      have hne : name ≠ other := by
        rintro rfl
        exact h columns List.mem_cons_self
      exact (ih hsteps).trans (Entries.get?_set_of_ne _ _ hne)

theorem columns?_tablesOf {steps : List Declaring} {name : String} {columns : List String}
    (h : Last steps name columns) :
    (tablesOf steps s).columns? name = some (columnSet columns) := by
  induction steps generalizing s with
  | nil => exact absurd h.mem List.not_mem_nil
  | cons step steps ih =>
    rcases last_cons.mp h with ⟨rfl, none⟩ | later
    · exact (columns?_tablesOf_of_not_mem none).trans (Entries.get?_set_self ..)
    · cases step <;> exact ih later

theorem admits_tablesOf {steps : List Declaring} {name column : String} :
    (tablesOf steps .empty).admits name column = true ↔ Allows steps name column := by
  rw [Schema.admits_iff]
  constructor
  · intro h columns hlast
    exact mem_columnSet.mp (h _ (columns?_tablesOf hlast))
  · intro h columns hcolumns
    by_cases declared : ∃ more, .table name more ∈ steps
    · obtain ⟨more, hmore⟩ := declared
      obtain ⟨last, hlast⟩ := exists_last hmore
      rw [columns?_tablesOf hlast] at hcolumns
      cases hcolumns
      exact mem_columnSet.mpr (h last hlast)
    · rw [columns?_tablesOf_of_not_mem (not_exists.mp declared)] at hcolumns
      cases hcolumns

/-! ## Relations -/

def withRelation (s : Schema) (e : String × String × Relation) : Schema :=
  { s with
    relationsOf := Entries.set s.relationsOf e.1 (Entries.set (s.relations e.1) e.2.1 e.2.2) }

/-- A relation between columns that their tables may have. -/
structure Fits (s : Schema) (e : String × String × Relation) : Prop where
  plain : ∀ name ∈ [e.1, e.2.1, e.2.2.target, e.2.2.foreignKey, e.2.2.localKey],
    PlainName name.toList
  parent : s.admits e.1 e.2.2.parentKey = true
  target : s.admits e.2.2.target e.2.2.targetKey = true

theorem Fits.plain_parentKey {e : String × String × Relation} (h : Fits s e) :
    PlainName e.2.2.parentKey.toList := by
  unfold Relation.parentKey
  split <;> exact h.plain _ (by simp)

theorem Fits.plain_targetKey {e : String × String × Relation} (h : Fits s e) :
    PlainName e.2.2.targetKey.toList := by
  unfold Relation.targetKey
  split <;> exact h.plain _ (by simp)

theorem requireColumn_eq_ok_iff {relation table column : String} :
    requireColumn s relation table column = .ok () ↔ s.admits table column = true := by
  rw [requireColumn]
  split
  · next h => simp [h]
  · next h => simp [h]

theorem relations_withRelation (e : String × String × Relation) (table : String) :
    (withRelation s e).relations table =
      if table = e.1 then Entries.set (s.relations table) e.2.1 e.2.2 else s.relations table := by
  unfold withRelation Schema.relations
  by_cases h : table = e.1
  · simp [h, Entries.get?_set_self]
  · simp [h, Entries.get?_set_of_ne]

/-- A relation is new unless its place is taken. -/
theorem new_withRelation (e e' : String × String × Relation) :
    e'.2.1 ∉ ((withRelation s e).relations e'.1).names ↔
      (e'.1, e'.2.1) ≠ (e.1, e.2.1) ∧ e'.2.1 ∉ (s.relations e'.1).names := by
  rw [relations_withRelation]
  split
  · next h => simp [Entries.mem_names_set, h]
  · next h => simp [h]

theorem fits_withRelation {e e' : String × String × Relation} :
    Fits (withRelation s e) e' ↔ Fits s e' :=
  ⟨fun h => ⟨h.plain, h.parent, h.target⟩, fun h => ⟨h.plain, h.parent, h.target⟩⟩

theorem buildRelations_cons {e : String × String × Relation}
    {rest : List (String × String × Relation)} :
    buildRelations s (e :: rest) = .ok t ↔
      Fits s e ∧ e.2.1 ∉ (s.relations e.1).names ∧
        buildRelations (withRelation s e) rest = .ok t := by
  rw [buildRelations]
  simp only [bind_eq_ok]
  constructor
  · rintro ⟨_, hnames, _, hparent, _, htarget, h⟩
    split at h
    · cases h
    · next hnew =>
      rw [Entries.contains_iff] at hnew
      exact ⟨⟨checkNames_eq_ok_iff.mp hnames, requireColumn_eq_ok_iff.mp hparent,
        requireColumn_eq_ok_iff.mp htarget⟩, hnew, h⟩
  · rintro ⟨⟨plain, parent, target⟩, hnew, h⟩
    refine ⟨(), checkNames_eq_ok_iff.mpr plain, (), requireColumn_eq_ok_iff.mpr parent, (),
      requireColumn_eq_ok_iff.mpr target, ?_⟩
    rwa [if_neg (mt Entries.contains_iff.mp hnew)]

theorem buildRelations_eq_ok_iff {relations : List (String × String × Relation)} :
    buildRelations s relations = .ok t ↔
      (∀ e ∈ relations, Fits s e) ∧ (relations.map fun e => (e.1, e.2.1)).Nodup ∧
        (∀ e ∈ relations, e.2.1 ∉ (s.relations e.1).names) ∧
          relations.foldl withRelation s = t := by
  -- The places that are taken grow with the schema, so it is not fixed in the induction.
  induction relations generalizing s with
  | nil => simp [buildRelations]
  | cons e rest ih =>
    have places : (∀ e' ∈ rest, (e'.1, e'.2.1) ≠ (e.1, e.2.1)) ↔
        (e.1, e.2.1) ∉ rest.map fun e => (e.1, e.2.1) := by
      simp only [List.mem_map, not_exists, not_and]
    rw [buildRelations_cons, ih]
    simp only [fits_withRelation, new_withRelation, List.forall_mem_cons, forall_and,
      List.map_cons, List.nodup_cons, List.foldl_cons, ← places]
    tauto

theorem relations_foldl (relations : List (String × String × Relation)) (table : String) :
    (relations.foldl withRelation s).relations table =
      Entries.extend (s.relations table)
        (relations.filterMap fun e => if e.1 = table then some e.2 else none) := by
  induction relations generalizing s with
  | nil => rfl
  | cons e rest ih =>
    rw [List.foldl_cons, ih, relations_withRelation]
    by_cases h : e.1 = table
    · simp [h, Entries.extend]
    · simp [h, Ne.symm h]

/-! ## Sequences of declarations -/

section

variable {steps : List Declaring}

theorem mem_tables {name : String} {columns : List String} :
    (name, columns) ∈ steps.filterMap table? ↔ .table name columns ∈ steps := by
  rw [List.mem_filterMap]
  constructor
  · rintro ⟨step, h, hstep⟩
    cases step <;> cases hstep
    exact h
  · intro h
    exact ⟨_, h, rfl⟩

theorem mem_relations {owner field : String} {r : Relation} :
    (owner, field, r) ∈ steps.filterMap relation? ↔ .relation owner field r ∈ steps := by
  rw [List.mem_filterMap]
  constructor
  · rintro ⟨step, h, hstep⟩
    cases step <;> cases hstep
    exact h
  · intro h
    exact ⟨_, h, rfl⟩

theorem places_eq (steps : List Declaring) :
    (steps.filterMap relation?).map (fun e => (e.1, e.2.1)) = steps.filterMap place? := by
  rw [List.map_filterMap]
  congr 1
  funext step
  cases step <;> rfl

theorem fields_eq (steps : List Declaring) (owner : String) :
    (steps.filterMap relation?).filterMap (fun e => if e.1 = owner then some e.2 else none) =
      steps.filterMap (fieldOf? owner) := by
  rw [List.filterMap_filterMap]
  congr 1
  funext step
  cases step <;> rfl

theorem consistent_iff : Consistent steps ↔
    (∀ e ∈ steps.filterMap table?, ∀ name ∈ e.1 :: e.2, PlainName name.toList) ∧
      (∀ e ∈ steps.filterMap relation?, Fits (tablesOf steps .empty) e) ∧
        (steps.filterMap place?).Nodup := by
  constructor
  · rintro ⟨plain, once, parent, target⟩
    refine ⟨?_, ?_, once⟩
    · rintro ⟨name, columns⟩ he
      exact plain _ (mem_tables.mp he)
    · rintro ⟨owner, field, r⟩ he
      have declared := mem_relations.mp he
      constructor
      case plain => exact plain _ declared
      case parent => exact admits_tablesOf.mpr (parent _ _ _ declared)
      case target => exact admits_tablesOf.mpr (target _ _ _ declared)
  · rintro ⟨tables, relations, once⟩
    constructor
    case plain =>
      intro step hstep
      cases step with
      | table name columns => exact tables _ (mem_tables.mpr hstep)
      | relation owner field r => exact (relations _ (mem_relations.mpr hstep)).plain
    case once => exact once
    case parent =>
      intro owner field r h
      exact admits_tablesOf.mp (relations _ (mem_relations.mpr h)).parent
    case target =>
      intro owner field r h
      exact admits_tablesOf.mp (relations _ (mem_relations.mpr h)).target

theorem relations_tablesOf (steps : List Declaring) (owner : String) :
    (tablesOf steps .empty).relations owner = [] := by
  have hfold (s : Schema) : (tablesOf steps s).relationsOf = s.relationsOf := by
    unfold tablesOf
    induction steps.filterMap table? generalizing s with
    | nil => rfl
    | cons e tables ih => exact ih _
  rw [Schema.relations, hfold]
  rfl

/-- The schema of declarations, whether they are consistent or not. -/
def schemaOf (steps : List Declaring) : Schema :=
  (steps.filterMap relation?).foldl withRelation (tablesOf steps .empty)

theorem build_eq_ok_iff {s : Schema} :
    (ofSteps steps).build = .ok s ↔ Consistent steps ∧ schemaOf steps = s := by
  rw [build, ofSteps_eq, bind_eq_ok, consistent_iff]
  simp only [buildTables_eq_ok_iff, buildRelations_eq_ok_iff, places_eq]
  constructor
  · rintro ⟨_, ⟨plain, rfl⟩, fits, once, -, built⟩
    exact ⟨⟨plain, fits, once⟩, built⟩
  · rintro ⟨⟨plain, fits, once⟩, built⟩
    refine ⟨_, ⟨plain, rfl⟩, fits, once, fun e _ => ?_, built⟩
    exact relations_tablesOf steps e.1 ▸ List.not_mem_nil

theorem exists_build_iff : (∃ s, (ofSteps steps).build = .ok s) ↔ Consistent steps := by
  simp [build_eq_ok_iff]

end

end Declaration

namespace Schema

open Declaring Declaration

/-- A schema has what was declared, and nothing else. -/
structure Declares (s : Schema) (steps : List Declaring) : Prop where
  relation_iff : ∀ table field r,
    s.relation? table field = some r ↔ .relation table field r ∈ steps
  relations : ∀ table, s.relations table = steps.filterMap (fieldOf? table)
  columns : ∀ table columns, Last steps table columns →
    ∃ set, s.columns? table = some set ∧ ∀ c, c ∈ set ↔ c = Record.key ∨ c ∈ columns
  undeclared : ∀ table, (∀ columns, .table table columns ∉ steps) → s.columns? table = none

variable {s : Schema} {steps : List Declaring}

theorem columns?_schemaOf (steps : List Declaring) (table : String) :
    (schemaOf steps).columns? table = (tablesOf steps .empty).columns? table := by
  unfold schemaOf columns?
  generalize tablesOf steps .empty = s
  induction steps.filterMap Declaring.relation? generalizing s with
  | nil => rfl
  | cons e relations ih => exact ih _

theorem distinct_fields (h : Consistent steps) (table : String) :
    Entries.Distinct (steps.filterMap (fieldOf? table)) := by
  unfold Entries.Distinct Entries.names
  rw [List.Nodup, List.pairwise_map, List.pairwise_filterMap]
  refine (List.pairwise_filterMap.mp h.once).imp ?_
  intro step step' apart e he e' he'
  cases step with
  | table => cases he
  | relation owner field r =>
    cases step' with
    | table => cases he'
    | relation owner' field' r' =>
      simp only [fieldOf?, Option.ite_none_right_eq_some, Option.some.injEq] at he he'
      obtain ⟨rfl, rfl⟩ := he
      obtain ⟨rfl, rfl⟩ := he'
      simpa using apart _ rfl _ rfl

theorem relations_schemaOf (h : Consistent steps) (table : String) :
    (schemaOf steps).relations table = steps.filterMap (fieldOf? table) := by
  rw [schemaOf, relations_foldl, relations_tablesOf, fields_eq]
  exact Entries.ofList_of_distinct (distinct_fields h table)

theorem declares_schemaOf (h : Consistent steps) : (schemaOf steps).Declares steps := by
  constructor
  case relation_iff =>
    intro table field r
    have mem : (field, r) ∈ steps.filterMap (fieldOf? table) ↔
        .relation table field r ∈ steps := by
      rw [← fields_eq, List.mem_filterMap, ← mem_relations]
      simp
    rw [relation?, relations_schemaOf h, ← mem]
    exact ⟨Entries.mem_of_get?, Entries.get?_of_mem (distinct_fields h table)⟩
  case relations => exact relations_schemaOf h
  case columns =>
    intro table columns hlast
    rw [columns?_schemaOf, columns?_tablesOf hlast]
    exact ⟨_, rfl, fun c => mem_columnSet⟩
  case undeclared =>
    intro table none
    rw [columns?_schemaOf, columns?_tablesOf_of_not_mem none]
    rfl

theorem declares_build (h : (ofSteps steps).build = .ok s) : s.Declares steps := by
  obtain ⟨consistent, rfl⟩ := build_eq_ok_iff.mp h
  exact declares_schemaOf consistent

/-- The relations of a built schema are between columns that their tables may have. -/
theorem fits_build (h : (ofSteps steps).build = .ok s) {table field : String} {r : Relation}
    (declared : .relation table field r ∈ steps) : Fits s (table, field, r) := by
  obtain ⟨consistent, rfl⟩ := build_eq_ok_iff.mp h
  have admits (name column : String) :
      (schemaOf steps).admits name column = (tablesOf steps .empty).admits name column := by
    rw [Schema.admits, columns?_schemaOf, Schema.admits]
  obtain ⟨plain, parent, target⟩ :=
    (consistent_iff.mp consistent).2.1 _ (mem_relations.mpr declared)
  exact ⟨plain, (admits ..).trans parent, (admits ..).trans target⟩

end Schema

end Relata
