import Relata.Proofs.Model.Lookup
import Relata.Proofs.Model.Columns
import Relata.Proofs.Query.Reshape
import Relata.Proofs.Sql.Measures
import Relata.Proofs.Store.Places

/-! # Results of an aggregate

The row that answers an aggregate has the value of each function over the rows of the filter,
and nests them as they were asked for. Where a group asks for a field more than once, its value
gets lost.
-/

namespace Relata

open Sql Text

/-! ### The case of letters -/

theorem Text.sameFolded_congr {a b : String} (h : sameFolded a b = true) (word : String) :
    sameFolded a word = sameFolded b word ∧ sameFolded word a = sameFolded word b := by
  have folded := sameFolded_iff.mp h
  constructor <;> rw [Bool.eq_iff_iff, sameFolded_iff, sameFolded_iff, folded]

namespace Definition

variable {d : Definition}

theorem isNumber_congr {a b : String} (h : sameFolded a b = true) :
    d.isNumber a = d.isNumber b := by
  have folded (word : String) : sameFolded a word = sameFolded b word :=
    (sameFolded_congr h word).1
  simp only [isNumber, isKey_congr h, has, index?_congr h, funext folded]

end Definition

namespace Frame

variable {f : Frame}

theorem meaning?_congr {a b : String} (h : sameFolded a b = true) :
    f.meaning? a = f.meaning? b := by
  have folded (word : String) : sameFolded a word = sameFolded b word :=
    (sameFolded_congr h word).1
  simp only [meaning?, Definition.index?_congr h, Definition.isNumber_congr h, constant?, truth?,
    folded]

theorem scalar_congr {a b : String} (h : sameFolded a b = true) (row : Row) :
    f.scalar row a = f.scalar row b := by
  rw [scalar, scalar, meaning?_congr h]

end Frame

namespace Measure

variable {f : Frame} {rows : List Row} {m m' : Measure} {ms ms' : List Measure}

theorem Alike.argument (alike : m.Alike m') :
    (m.column = none ∧ m'.column = none) ∨
      ∃ c c', m.column = some c ∧ m'.column = some c' ∧ sameFolded c c' = true := by
  obtain ⟨-, -, column⟩ := alike
  revert column
  cases m.column <;> cases m'.column <;> rintro (same | _)
  · exact .inl ⟨rfl, rfl⟩
  · exact .inr ⟨_, _, rfl, rfl, same⟩

theorem Alike.isWord (alike : m.Alike m') (word : String) : m'.isWord word = m.isWord word := by
  rw [Measure.isWord, Measure.isWord]
  rcases alike.argument with ⟨hm, hm'⟩ | ⟨c, c', hm, hm', same⟩
  · rw [hm, hm']
  · rw [hm, hm', Option.any_some, Option.any_some, (sameFolded_congr same word).2]

theorem Alike.isOfRows (alike : m.Alike m') : m'.isOfRows = m.isOfRows := by
  have argument : m'.column.isNone = m.column.isNone := by
    rcases alike.argument with ⟨hm, hm'⟩ | ⟨c, c', hm, hm', -⟩
    · rw [hm, hm']
    · rw [hm, hm', Option.isNone_some, Option.isNone_some]
  rw [Measure.isOfRows, Measure.isOfRows, isDistinct, isDistinct, argument, alike.isWord,
    alike.isWord]

theorem result_congr (alike : m.Alike m') : result f rows m' = result f rows m := by
  have scalar (row : Row) :
      f.scalar row (m'.column.getD "") = f.scalar row (m.column.getD "") := by
    rcases alike.argument with ⟨hm, hm'⟩ | ⟨c, c', hm, hm', same⟩
    · rw [hm, hm']
    · rw [hm, hm']
      exact (f.scalar_congr same row).symm
  rw [result, result, alike.isOfRows, alike.fold, alike.label, present, present, funext scalar]

theorem results_congr (alike : List.Forall₂ Alike ms ms') :
    results f rows ms' = results f rows ms := by
  induction alike with
  | nil => rfl
  | cons head _ ih => rw [results, results, result_congr head, ih]

/-- A result that is none of whole rows, or a count of them. -/
structure IsOrdinary (m : Measure) : Prop where
  count : m.isOfRows = true → m.fold = .count
  plain : m.isDistinct = false

theorem Alike.isOrdinary (alike : m.Alike m') (h : m'.IsOrdinary) : m.IsOrdinary where
  count rows := alike.fold.symm.trans (h.count (alike.isOfRows.trans rows))
  plain := (alike.isWord "distinct").symm.trans h.plain

theorem forall_isOrdinary (alike : List.Forall₂ Alike ms ms') (h : ∀ m ∈ ms', m.IsOrdinary) :
    ∀ m ∈ ms, m.IsOrdinary := by
  induction alike with
  | nil => simp
  | cons head _ ih =>
    obtain ⟨first, rest⟩ := List.forall_mem_cons.mp h
    exact List.forall_mem_cons.mpr ⟨head.isOrdinary first, ih rest⟩

theorem fold_of_checkAll (h : checkAll f ms = .ok ()) :
    ∀ m ∈ ms, m.isOfRows = true → m.fold = .count := by
  induction ms with
  | nil => simp
  | cons m ms ih =>
    obtain ⟨_, hcheck, hrest⟩ := bind_eq_ok.mp h
    refine List.forall_mem_cons.mpr ⟨fun rows => ?_, ih hrest⟩
    by_contra other
    rw [check, if_pos rows, if_neg other] at hcheck
    cases hcheck

/-! ### The row of results -/

theorem label_of_result {e : String × Value} (h : result f rows m = .ok e) : e.1 = m.label := by
  rw [result] at h
  split at h
  · cases h
    rfl
  · obtain ⟨s, -, rfl⟩ := map_eq_ok.mp h
    rfl

theorem exists_result {r : List (String × Value)} (h : results f rows ms = .ok r) :
    ∀ m ∈ ms, ∃ v, result f rows m = .ok (m.label, v) := by
  induction ms generalizing r with
  | nil => simp
  | cons m ms ih =>
    obtain ⟨e, he, h⟩ := bind_eq_ok.mp h
    obtain ⟨es, hes, -⟩ := bind_eq_ok.mp h
    refine List.forall_mem_cons.mpr ⟨⟨e.2, ?_⟩, ih hes⟩
    rw [he, ← label_of_result he]

theorem get?_results {r : List (String × Value)} (h : results f rows ms = .ok r) {v : Value}
    {label : String} (mem : ∃ m ∈ ms, m.label = label)
    (same : ∀ m ∈ ms, m.label = label → result f rows m = .ok (label, v)) :
    Entries.get? (Entries.ofList r) label = some v := by
  have there {ms : List Measure} {r : List (String × Value)} (h : results f rows ms = .ok r)
      (same : ∀ m ∈ ms, m.label = label → result f rows m = .ok (label, v)) :
      Entries.get? (Entries.ofList r) label =
        if ∃ m ∈ ms, m.label = label then some v else none := by
    induction ms generalizing r with
    | nil =>
      cases h
      simp [Entries.ofList, Entries.extend, Entries.get?]
    | cons m ms ih =>
      obtain ⟨e, he, h⟩ := bind_eq_ok.mp h
      obtain ⟨es, hes, h⟩ := bind_eq_ok.mp h
      cases h
      obtain ⟨name, u⟩ := e
      obtain rfl : name = m.label := label_of_result he
      rw [Entries.get?_ofList_cons, ih hes fun m hm => same m (List.mem_cons_of_mem _ hm)]
      by_cases hlabel : m.label = label
      · have head := same m List.mem_cons_self hlabel
        rw [he] at head
        cases head
        by_cases hrest : ∃ m' ∈ ms, m'.label = m.label
        · simp [hrest]
        · simp [hrest]
      · have other : ¬ label = m.label := Ne.symm hlabel
        simp [hlabel, other]
  rw [there h same, if_pos mem]

end Measure

namespace Database

variable {db : Database} {table : String} {cs : List Condition}

/-- The one row that answers a query for results has those of the rows that its conditions
select, in the order in which they were come by, if only counts are of whole rows. -/
theorem query_measures_ok {ms : List Measure} {records : List Record}
    (h : db.query (.measures ms) table cs [] {} = .ok records) :
    ∃ t rows r, db.table table = .ok t ∧
      rows.Perm (t.rows.filter (Condition.selects (db.frame t) cs)) ∧
      Measure.results (db.frame t) rows ms = .ok r ∧ records = [Entries.ofList r] ∧
      ∀ m ∈ ms, m.IsOrdinary := by
  obtain ⟨t, ht, hshown⟩ := bind_eq_ok.mp h
  obtain ⟨_, hchecked, htested⟩ := bind_eq_ok.mp hshown
  obtain ⟨_, -, hnames⟩ := bind_eq_ok.mp htested
  obtain ⟨_, -, huse⟩ := bind_eq_ok.mp hnames
  obtain ⟨_, hplain, hpatterns⟩ := bind_eq_ok.mp huse
  obtain ⟨_, -, hproject⟩ := bind_eq_ok.mp hpatterns
  obtain ⟨r, hr, hrecords⟩ := map_eq_ok.mp hproject
  have plain (rows : List Row) (ms' : List Measure) :
      Measure.results (db.frame t ms) rows ms' = Measure.results (db.frame t) rows ms' := by
    induction ms' with
    | nil => rfl
    | cons m ms' ih =>
      rw [Measure.results, Measure.results, ih]
      rfl
  have selected : t.rows.filter (Condition.selects (db.frame t ms) cs) =
      t.rows.filter (Condition.selects (db.frame t) cs) :=
    List.filter_congr fun row _ => @Condition.selects_measured (db.frame t) row ms cs
  have indistinct : ms.any Measure.isDistinct = false := by
    by_contra distinct
    rw [Frame.checkUse, if_pos (Bool.not_eq_false _ ▸ distinct)] at hplain
    cases hplain
  refine ⟨t, _, r, ht, ?_, (plain _ ms).symm.trans hr, hrecords.symm, fun m hm => ⟨?_, ?_⟩⟩
  · rw [← selected]
    exact (List.mergeSort_perm _ _).trans (Access.perm_arrange _ _ _)
  · exact Measure.fold_of_checkAll hchecked m hm
  · exact Bool.eq_false_iff.mpr (List.any_eq_false.mp indistinct m hm)

end Database

/-! ### The results that were asked for -/

/-- The value of a function of a field over rows, which is that of the cells that are not null.
Whole rows are counted under the field that stands for them, and under the word that leaves the
argument of the function out. -/
def Fold.over (f : Frame) (rows : List Row) (fold : Fold) (field : String) :
    Except Refusal Value :=
  if fold = .count ∧ (field = Aggregate.everyRow ∨ sameFolded "all" field = true) then
    .ok (.integer (Int64.ofNat rows.length))
  else (Measure.value fold (Measure.present f rows field)).map Scalar.toValue

namespace Aggregate

variable {a : Aggregate} {f : Frame} {rows : List Row} {ms : List Measure}

theorem label_of_measure {fold : Fold} {field : String} {m : Measure}
    (h : measure fold field = .ok m) : m.label = label fold.group field := by
  rw [measure] at h
  split at h
  · cases h
    rfl
  · obtain ⟨name, hname, hdone⟩ := bind_eq_ok.mp h
    obtain ⟨rfl, -⟩ := Filter.checkedName_eq_ok hname
    cases hdone
    rfl

theorem result_of_measure {fold : Fold} {field : String} {m : Measure}
    (h : measure fold field = .ok m) (ordinary : m.IsOrdinary) :
    Measure.result f rows m = (fold.over f rows field).map fun v => (m.label, v) := by
  rw [measure] at h
  split at h
  · next every =>
    cases h
    rw [Fold.over, if_pos ⟨every.1, .inl every.2⟩]
    rfl
  · next other =>
    obtain ⟨name, hname, hdone⟩ := bind_eq_ok.mp h
    obtain ⟨rfl, -⟩ := Filter.checkedName_eq_ok hname
    cases hdone
    by_cases rows : (⟨fold, some name, label fold.group name⟩ : Measure).isOfRows = true
    · have all : sameFolded "all" name = true := by
        simpa [Measure.isOfRows, ordinary.plain, Measure.isWord] using rows
      rw [Measure.result, if_pos rows, Fold.over, if_pos ⟨ordinary.count rows, .inr all⟩]
      rfl
    · have named : ¬(fold = .count ∧ (name = everyRow ∨ sameFolded "all" name = true)) := by
        rintro ⟨count, every | all⟩
        · exact other ⟨count, every⟩
        · exact rows (by simp [Measure.isOfRows, Measure.isWord, all])
      rw [Measure.result, if_neg rows, Fold.over, if_neg named, Option.getD_some]
      cases Measure.value fold (Measure.present f _ name) <;> rfl

theorem mem_measuresOf {fold : Fold} {names : List String} (h : measuresOf fold names = .ok ms) :
    ∀ field ∈ names, ∃ m ∈ ms, measure fold field = .ok m := by
  induction names generalizing ms with
  | nil => simp
  | cons name names ih =>
    obtain ⟨m, hm, h⟩ := bind_eq_ok.mp h
    obtain ⟨rest, hrest, h⟩ := bind_eq_ok.mp h
    cases h
    refine List.forall_mem_cons.mpr ⟨⟨m, List.mem_cons_self, hm⟩, fun field hfield => ?_⟩
    obtain ⟨m', hm', hmeasure⟩ := ih hrest field hfield
    exact ⟨m', List.mem_cons_of_mem _ hm', hmeasure⟩

def counts (a : Aggregate) : Except Fault (List Measure) :=
  match a.count with
  | none => .ok []
  | some .rows => .ok [⟨.count, none, Fold.count.group⟩]
  | some (.fields names) => measuresOf .count names

theorem measures_eq (a : Aggregate) : a.measures = (do
    let counts ← a.counts
    let sums ← measuresOf .sum a.sum
    let avgs ← measuresOf .avg a.avg
    let mins ← measuresOf .min a.min
    let maxs ← measuresOf .max a.max
    return counts ++ sums ++ avgs ++ mins ++ maxs) := by
  unfold measures counts
  cases a.count with
  | none => rfl
  | some counted => cases counted <;> rfl

theorem parts_of_measures (h : a.measures = .ok ms) :
    (∃ counted, a.counts = .ok counted ∧ counted ⊆ ms) ∧
      ∀ fold, fold ≠ .count →
        ∃ part, measuresOf fold (a.fieldsOf fold) = .ok part ∧ part ⊆ ms := by
  rw [measures_eq] at h
  obtain ⟨counted, hcounted, h⟩ := bind_eq_ok.mp h
  obtain ⟨sums, hsums, h⟩ := bind_eq_ok.mp h
  obtain ⟨avgs, havgs, h⟩ := bind_eq_ok.mp h
  obtain ⟨mins, hmins, h⟩ := bind_eq_ok.mp h
  obtain ⟨maxs, hmaxs, h⟩ := bind_eq_ok.mp h
  cases h
  refine ⟨⟨counted, hcounted, fun m hm => by simp [hm]⟩, fun fold other => ?_⟩
  cases fold with
  | count => exact absurd rfl other
  | sum => exact ⟨sums, hsums, fun m hm => by simp [hm]⟩
  | avg => exact ⟨avgs, havgs, fun m hm => by simp [hm]⟩
  | min => exact ⟨mins, hmins, fun m hm => by simp [hm]⟩
  | max => exact ⟨maxs, hmaxs, fun m hm => by simp [hm]⟩

theorem mem_measures (h : a.measures = .ok ms) {fold : Fold} {names : List String}
    (asked : a.requested fold = some names) :
    ∀ field ∈ names, ∃ m ∈ ms, measure fold field = .ok m := by
  obtain ⟨⟨counted, hcounted, among⟩, parts⟩ := parts_of_measures h
  obtain ⟨part, hpart, among⟩ : ∃ part, measuresOf fold names = .ok part ∧ part ⊆ ms := by
    by_cases hfold : fold = .count
    · subst hfold
      rw [requested] at asked
      split at asked
      · next fields hcount =>
        cases asked
        rw [counts, hcount] at hcounted
        exact ⟨counted, hcounted, among⟩
      · cases asked
    · obtain ⟨-, rfl, -⟩ := requested_of_ne_count hfold asked
      exact parts fold hfold
  intro field hfield
  obtain ⟨m, hm, hmeasure⟩ := mem_measuresOf hpart field hfield
  exact ⟨m, among hm, hmeasure⟩

/-- Results are nested as they were asked for: the groups that were asked for and no others, the
count of rows as such, and in each group the fields that were asked for and no others. A field
that was asked for once has the value of its function, and any other one is null. -/
structure Nests (a : Aggregate) (f : Frame) (rows : List Row) (nested : Record) : Prop where
  groups : nested.names = a.groups
  whole : a.count = some .rows →
    Entries.get? nested Fold.count.group = some (.integer (Int64.ofNat rows.length))
  fields : ∀ fold names, a.requested fold = some names →
    ∃ entries : Entries Value, Entries.get? nested fold.group = some (.object entries) ∧
      entries.Distinct ∧ (∀ field, field ∈ entries.names ↔ field ∈ names) ∧
      ∀ field ∈ names,
        (names.count field = 1 →
          ∃ v, fold.over f rows field = .ok v ∧ Entries.get? entries field = some v) ∧
        (1 < names.count field → Entries.get? entries field = some .null)

theorem measure_of_label (h : a.measures = .ok ms) {fold : Fold} {field : String} {m m' : Measure}
    (hm : measure fold field = .ok m) (mem : m' ∈ ms) (same : m'.label = label fold.group field) :
    m' = m := by
  rcases gives_of_measures h m' mem with rfl | ⟨fold', field', -, hm'⟩
  · exact absurd same.symm (label_ne_group fold field)
  · rw [label_of_measure hm'] at same
    obtain ⟨rfl, rfl⟩ := label_injective same
    exact Except.ok.inj (hm'.symm.trans hm)

theorem mem_names_iff {entries : Entries Value} {field : String} :
    field ∈ entries.names ↔ ∃ v, Entries.get? entries field = some v := by
  constructor
  · intro h
    obtain ⟨e, he, rfl⟩ := List.mem_map.mp h
    exact Entries.exists_get?_of_mem he
  · rintro ⟨v, h⟩
    exact List.mem_map_of_mem (Entries.mem_of_get? h)

/-- The row of the results of an aggregate is nested as it was asked for. -/
theorem nests_reshape (h : a.measures = .ok ms) (ordinary : ∀ m ∈ ms, m.IsOrdinary)
    {r : List (String × Value)} (hr : Measure.results f rows ms = .ok r) :
    a.Nests f rows (a.reshape (Entries.ofList r)) := by
  refine ⟨names_reshape a _, fun hcount => ?_, fun fold names asked => ?_⟩
  · obtain ⟨⟨counted, hcounted, among⟩, -⟩ := parts_of_measures h
    rw [counts, hcount] at hcounted
    cases hcounted
    have counted := among (List.mem_singleton_self _)
    have only : ∀ m ∈ ms, m.label = Fold.count.group → Measure.result f rows m =
        .ok (Fold.count.group, .integer (Int64.ofNat rows.length)) := by
      intro m hm hlabel
      rcases gives_of_measures h m hm with rfl | ⟨fold, field, -, hmeasure⟩
      · rfl
      · rw [label_of_measure hmeasure] at hlabel
        exact absurd hlabel (label_ne_group fold field)
    rw [get?_reshape_rows hcount, Measure.get?_results hr ⟨_, counted, rfl⟩ only]
    rfl
  · obtain ⟨entries, hget, takes⟩ := takes_reshape (Entries.ofList r) asked
    refine ⟨entries, hget, takes.distinct, fun field => ?_, fun field hfield => ⟨?_, ?_⟩⟩
    · rw [mem_names_iff, takes.fields, exists_taken]
    · intro once
      obtain ⟨m, hm, hmeasure⟩ := mem_measures h asked field hfield
      obtain ⟨v, hv⟩ := Measure.exists_result hr m hm
      have value := hv
      rw [result_of_measure hmeasure (ordinary m hm)] at value
      obtain ⟨u, hu, hpair⟩ := map_eq_ok.mp value
      cases hpair
      rw [label_of_measure hmeasure] at hv
      refine ⟨v, hu, ?_⟩
      rw [takes.fields, taken, once, Measure.get?_results hr ⟨m, hm, label_of_measure hmeasure⟩]
      · rfl
      · intro m' hm' hlabel
        rw [measure_of_label h hmeasure hm' hlabel]
        exact hv
    · intro several
      obtain ⟨n, hn⟩ : ∃ n, names.count field = n + 2 := ⟨names.count field - 2, by omega⟩
      rw [takes.fields, taken, hn]
      rfl

/-! ### Aggregates carried out -/

theorem isReserved_underscore (cs : List Char) : isReserved ('_' :: cs) = false := by
  simp only [isReserved, List.contains_eq_mem, decide_eq_false_iff_not]
  intro mem
  have other : ∀ w ∈ reserved, w.toList.head? ≠ some '_' := by decide
  apply other _ mem
  rw [String.toList_ofList]
  rfl

theorem isReserved_label (fold : Fold) (field : String) :
    isReserved (label fold.group field).toList = false := by
  have chars : ∃ cs, (label fold.group field).toList = '_' :: cs := by
    simp only [label, String.toList_append, List.append_assoc]
    cases fold <;> exact ⟨_, rfl⟩
  obtain ⟨cs, hcs⟩ := chars
  rw [hcs, isReserved_underscore]

theorem isWritten_of_measures (h : a.measures = .ok ms) : ∀ m ∈ ms, m.IsWritten := by
  intro m hm
  obtain ⟨label, column⟩ := measures_ok h m hm
  refine ⟨label, ?_, fun c hc => (column c hc).1⟩
  rcases gives_of_measures h m hm with rfl | ⟨fold, field, -, hmeasure⟩
  · exact isReserved_underscore _
  · rw [label_of_measure hmeasure, isReserved_label]

variable {c : Connection} {table : String} {k : Command} {answer : Answer}

/-- An aggregate that has an answer is answered by one row, which is nested as it was asked for,
with the value of each function over rows of the table: those that meet the filter, unless it
names a keyword. -/
theorem reshape_nests (asked : Command.aggregation table a = .ok k)
    (carried : (c.execute k).1 = .ok answer) :
    ∃ t rows row, c.database.table table = .ok t ∧ answer.rows = [row] ∧ rows.Subperm t.rows ∧
      ((∀ field ∈ Filter.fields a.filter, isKeyword field.toList = false) →
        rows.Perm (t.rows.filter fun r =>
          (Filter.truth (c.database.frame t) r a.filter).holds)) ∧
      a.Nests (c.database.frame t) rows (a.reshape row) := by
  obtain ⟨name, hname, hmeasures⟩ := bind_eq_ok.mp asked
  obtain ⟨rfl, named⟩ := Filter.checkedName_eq_ok hname
  obtain ⟨ms, hms, hcommand⟩ := bind_eq_ok.mp hmeasures
  split at hcommand
  · cases hcommand
  · next full =>
    obtain ⟨cs, hcs, hdone⟩ := bind_eq_ok.mp hcommand
    cases hdone
    have some : ms ≠ [] := fun empty => full (List.isEmpty_iff.mpr empty)
    have plain : ∀ x ∈ cs, Condition.Plain x := Filter.written_conditions (fun _ _ h => h) hcs
    obtain ⟨ms', cs', alike, same, hquery⟩ :=
      Connection.exists_results named plain some (isWritten_of_measures hms) carried
    obtain ⟨t, rows, r, ht, hrows, hr, hanswer, ordinary⟩ := Database.query_measures_ok hquery
    rw [Measure.results_congr alike] at hr
    refine ⟨t, rows, _, ht, hanswer, hrows.subperm.trans List.filter_sublist.subperm, ?_,
      nests_reshape hms (Measure.forall_isOrdinary alike ordinary) hr⟩
    intro names
    have selected : t.rows.filter (Condition.selects (c.database.frame t) cs') =
        t.rows.filter fun r => (Filter.truth (c.database.frame t) r a.filter).holds := by
      refine List.filter_congr fun row _ => ?_
      rw [same (Filter.readable_conditions names hcs), Filter.selects_conditions hcs]
    rw [← selected]
    exact hrows

/-! ### Totals -/

def soldOnce : Table where
  definition :=
    { name := "sales", columns := [{ name := "id", affinity := .text },
        { name := "total", affinity := .integer }] }
  rows := [⟨1, [.text "s1", .integer 60]⟩]

def saleStore : Connection where
  database := { tables := [soldOnce] }

theorem execute_measures_sales {r : List (String × Value)}
    (hr : Measure.results (saleStore.database.frame soldOnce ms) soldOnce.rows ms = .ok r)
    (free : ∀ name ∈ (Command.query (.measures ms) "sales" [] [] {}).names,
      isKeyword name.toList = false)
    (limits : (Command.query (.measures ms) "sales" [] [] {}).checkLimits = .ok ())
    (shown : (saleStore.database.frame soldOnce ms).checkShown (.measures ms) = .ok ())
    (ordinary : ms.any Measure.isDistinct = false) :
    ∃ answer, (saleStore.execute (.query (.measures ms) "sales" [] [] {})).1 = .ok answer ∧
      answer.rows = [Entries.ofList r] := by
  have known : saleStore.database.table? "sales" = some soldOnce := rfl
  have evaluates := saleStore.database.evaluates_nil soldOnce
  obtain ⟨rows, hrows, hquery⟩ := evaluates.query (p := .measures ms) known shown ordinary
  obtain rfl : rows = soldOnce.rows := hrows.eq_singleton
  have projected : (saleStore.database.frame soldOnce ms).project soldOnce.rows (.measures ms) =
      .ok [Entries.ofList r] := by
    rw [Frame.project, hr]
    rfl
  rw [Connection.execute_of_free free, Connection.runLimited, limits, Connection.run,
    Connection.run?, hquery]
  exact ⟨⟨[Entries.ofList r], 0⟩, by rw [Projection.measureList, projected]; rfl, rfl⟩

/-- The count of all sales and the sum of their totals, and no other result. -/
theorem reshape_nests_totals :
    let a : Aggregate := { count := some .rows, sum := ["total"] }
    ∃ k answer row, Command.aggregation "sales" a = .ok k ∧
      (saleStore.execute k).1 = .ok answer ∧ answer.rows = [row] ∧
      (a.reshape row).names = ["_count", "_sum"] ∧
      ∃ entries : Entries Value, Entries.get? (a.reshape row) "_sum" = some (.object entries) ∧
        Entries.get? entries "total" = some (.integer 60) := by
  intro a
  let ms : List Measure := [⟨.count, none, "_count"⟩, ⟨.sum, some "total", "_sum__total"⟩]
  have asked : Command.aggregation "sales" a = .ok (.query (.measures ms) "sales" [] [] {}) := rfl
  obtain ⟨answer, carried, -⟩ := @execute_measures_sales ms
    [("_count", .integer 1), ("_sum__total", .integer 60)] rfl (by decide) rfl rfl rfl
  obtain ⟨t, rows, row, ht, hrow, -, selected, nests⟩ := reshape_nests asked carried
  cases ht
  obtain rfl : rows = soldOnce.rows := (selected (by simp [a, Filter.fields])).eq_singleton
  obtain ⟨entries, hget, -, -, results⟩ := nests.fields .sum ["total"] rfl
  obtain ⟨v, hv, hentry⟩ := (results "total" List.mem_cons_self).1 rfl
  cases hv
  exact ⟨_, answer, row, asked, carried, hrow, nests.groups, entries, hget, hentry⟩

/-- The sum of the totals of all sales is computed, but gets lost if it is asked for twice. -/
theorem reshape_loses :
    let a : Aggregate := { sum := ["total", "total"] }
    ∃ k answer row, Command.aggregation "sales" a = .ok k ∧
      (saleStore.execute k).1 = .ok answer ∧ answer.rows = [row] ∧
      Entries.get? row "_sum__total" = some (.integer 60) ∧
      a.reshape row = [("_sum", .object [("total", .null)])] := by
  intro a
  let ms : List Measure :=
    [⟨.sum, some "total", "_sum__total"⟩, ⟨.sum, some "total", "_sum__total"⟩]
  have asked : Command.aggregation "sales" a = .ok (.query (.measures ms) "sales" [] [] {}) := rfl
  obtain ⟨answer, carried, hrow⟩ := @execute_measures_sales ms
    [("_sum__total", .integer 60), ("_sum__total", .integer 60)] rfl (by decide) rfl rfl rfl
  exact ⟨_, answer, _, asked, carried, hrow, rfl, rfl⟩

end Aggregate

end Relata
