import Relata.Proofs.Sql.Seeking
import Relata.Proofs.Store.Located

/-! # Rows that are found by what they are given

A new row has in the place of every name what the place keeps of what is given under the name,
if nothing is given for the same place under another name. If the comparison of the store holds
between the two, a lookup by what was given finds the row.
-/

namespace Relata

open Std Text

/-- Whether what a column of an affinity keeps of a scalar is equal to the scalar. -/
def Affinity.Recalls (a : Affinity) (s : Scalar) : Prop :=
  (Comparison.equal.truth (a.store s) (a.operand s)).holds = true

theorem Affinity.recalls_of_store {a : Affinity} {s : Scalar} (h : a.store s = s)
    (present : s.isNull = false) : a.Recalls s := by
  have hself : s.order s = .eq := ReflCmp.compare_self
  rw [Recalls, operand_of_store h, h, Comparison.truth, present, hself]
  rfl

/-- Whether a row that keeps a scalar in the place of a field is found by the scalar: where the
store compares what the field means in the row with it, the two are equal. -/
def Definition.IsRecalled (d : Definition) (field : String) (s : Scalar) : Prop :=
  ∀ (f : Frame) (row : Row), f.definition = d → d.inPlace row field = (d.affinityIn field).store s →
    (Comparison.equal.truth (f.scalar row field) ((f.affinity field).operand s)).holds = true

/-- Under a name that is no constant, what the place recalls is found. -/
theorem Definition.isRecalled_of_recalls {d : Definition} {field : String} {s : Scalar}
    (free : ∀ now, Frame.constant? now field = none) (held : d.holds field = true)
    (recalls : (d.affinityIn field).Recalls s) : d.IsRecalled field s := by
  intro f row hf kept
  cases hf
  rw [Frame.scalar_eq_inPlace (free _) held, Frame.affinity_eq_affinityIn (free _) held, kept]
  exact recalls

/-! ## What a new row has -/

namespace Definition

variable {d : Definition} {cells : List (String × Scalar)} {rows : List Row} {number : Int}
  {e : String × Scalar}

/-- Names of which no two stand for the same place. -/
def Apart (d : Definition) (names : List String) : Prop :=
  ∀ a ∈ names, ∀ b ∈ names, d.SamePlace a b → a = b

instance (names : List String) : Decidable (d.Apart names) :=
  inferInstanceAs (Decidable (∀ a ∈ names, _))

structure Scatters (d : Definition) (cells : List (String × Scalar)) : Prop where
  distinct : Entries.Distinct cells
  apart : d.Apart (Entries.names cells)
  held : ∀ e ∈ cells, d.holds e.1 = true

namespace Scatters

variable (scatters : d.Scatters cells) (he : e ∈ cells)

include scatters he

theorem eq_of_samePlace {e' : String × Scalar} (he' : e' ∈ cells) (same : d.SamePlace e'.1 e.1) :
    e' = e := by
  have hname := scatters.apart _ (List.mem_map_of_mem he') _ (List.mem_map_of_mem he) same
  have hvalue := Entries.get?_of_mem scatters.distinct he'
  rw [hname, Entries.get?_of_mem scatters.distinct he] at hvalue
  exact Prod.ext hname (Option.some.inj hvalue).symm

theorem given?_eq {c : Column} (hc : sameFolded c.name e.1 = true) : given? c cells = some e.2 := by
  have hfind : cells.find? (fun e' => sameFolded e'.1 c.name) = some e := by
    refine find?_of_unique he (sameFolded_symm hc) fun e' he' hfolded => ?_
    refine scatters.eq_of_samePlace he he' (.inl (sameFolded_iff.mpr ?_))
    exact (sameFolded_iff.mp hfolded).trans (sameFolded_iff.mp hc)
  rw [given?, hfind]
  rfl

theorem givenNumber?_eq (hnumber : d.isNumber e.1 = true) : d.givenNumber? cells = some e.2 := by
  have hfind : cells.reverse.find? (fun e' => d.isNumber e'.1) = some e := by
    refine find?_of_unique (List.mem_reverse.mpr he) hnumber fun e' he' hnumber' => ?_
    exact scatters.eq_of_samePlace he (List.mem_reverse.mp he') (.inr ⟨hnumber', hnumber⟩)
  rw [givenNumber?, hfind]
  rfl

/-- In the place of a name a new row has what the place keeps of what is given under the name. A
null for the number of the row leaves the number to the store. -/
theorem inPlace_newRow (regular : d.Regular) (hnumber : d.newNumber rows cells = .ok number)
    (present : e.2.isNull = false ∨ d.isNumber e.1 = false) (now : String) :
    d.inPlace (d.newRow now number cells) e.1 = (d.affinityIn e.1).store e.2 := by
  have numbered (h : d.isNumber e.1 = true) :
      Affinity.integer.store e.2 = .integer (Int64.ofInt number) :=
    store_givenNumber (scatters.givenNumber?_eq he h)
      (present.resolve_right (by rw [h]; simp)) hnumber
  rw [inPlace, affinityIn]
  cases hindex : d.index? e.1 with
  | some i =>
    obtain ⟨c, hc, hplace, hfolded, hcindex⟩ := exists_column hindex
    have hcell := regular.cell_newRow hc now number cells
    rw [cell_of_index? hcindex] at hcell
    simp only [hplace]
    refine hcell.trans ?_
    cases hkey : d.isKey c.name with
    | false =>
      rw [scatters.given?_eq he hfolded]
      rfl
    | true =>
      rw [isKey_congr hfolded, ← isNumber_of_index? hindex] at hkey
      rw [if_pos rfl, Option.map_some, Option.getD_some, ← numbered hkey]
      rw [isNumber_of_index? hindex, ← isKey_congr hfolded] at hkey
      rw [regular.integers c hc hkey]
  | none =>
    have hisNumber : d.isNumber e.1 = true := by
      have hheld := scatters.held e he
      rwa [holds, has, hindex, Option.isSome_none, Bool.false_or] at hheld
    simp only [hisNumber, if_true, numbered hisNumber]
    rfl

end Scatters

theorem cell_newRow_initially (regular : d.Regular) {c : Column} (hc : c ∈ d.columns)
    (apart : ∀ e ∈ cells, ¬ d.SamePlace e.1 c.name) (hkey : d.isKey c.name = false) (now : String)
    (number : Int) : d.cell (d.newRow now number cells) c.name = c.initially now := by
  have hgiven : given? c cells = none := by
    rw [given?, Option.map_eq_none_iff, List.find?_eq_none]
    exact fun e he hfolded => apart e he (.inl hfolded)
  rw [regular.cell_newRow hc, hgiven, hkey]
  rfl

end Definition

/-! ## What a lookup selects -/

namespace Condition

variable {f : Frame} {row : Row} {cells : List (String × Scalar)}

theorem selects_equals : selects f (equals cells) row = true ↔ ∀ cell ∈ cells,
    (Comparison.equal.truth (f.scalar row cell.1) ((f.affinity cell.1).operand cell.2)).holds =
      true := by
  rw [selects, Truth.holds_all, truths_eq, equals, List.map_map, List.all_map, List.all_eq_true]
  rfl

theorem strainsAll_equals (f : Frame) (row : Row) (cells : List (String × Scalar)) :
    strainsAll f row (equals cells) = false := by
  induction cells with
  | nil => rfl
  | cons cell cells ih =>
    have hcons : strainsAll f row (equals (cell :: cells)) =
        (false || (truth f row (.compare cell.1 .equal cell.2)).holds &&
          strainsAll f row (equals cells)) := rfl
    rw [hcons, ih, Bool.and_false, Bool.or_false]

end Condition

theorem Database.query_setRows {db : Database} {table : String} {t : Table}
    (known : db.table? table = some t) {cells : List (String × Scalar)} {order : Order}
    {page : Page} {records : List Record}
    (h : db.query .everything table (Condition.equals cells) order page = .ok records)
    (rows : List Row) :
    ∃ records', (db.setRows table rows).query .everything table (Condition.equals cells) order
      page = .ok records' := by
  obtain ⟨u, hu, hshown⟩ := bind_eq_ok.mp h
  cases (table_eq known).symm.trans hu
  obtain ⟨_, shown, htested⟩ := bind_eq_ok.mp hshown
  obtain ⟨_, tested, hnames⟩ := bind_eq_ok.mp htested
  obtain ⟨_, names, huse⟩ := bind_eq_ok.mp hnames
  obtain ⟨_, use, -⟩ := bind_eq_ok.mp huse
  let f := (db.setRows table rows).frame { t with rows }
  have patterns : f.checkPatterns (Condition.equals cells) rows = .ok () := by
    have hnone : (rows.any fun row => Condition.strainsAll f row (Condition.equals cells)) =
        false := by
      simp [Condition.strainsAll_equals]
    rw [Frame.checkPatterns, hnone]
    rfl
  exact ⟨_, bind_eq_ok.mpr ⟨_, table_eq (table?_setRows known rows), bind_eq_ok.mpr ⟨_, shown,
    bind_eq_ok.mpr ⟨_, tested, bind_eq_ok.mpr ⟨_, names, bind_eq_ok.mpr ⟨_, use,
      bind_eq_ok.mpr ⟨_, patterns, rfl⟩⟩⟩⟩⟩⟩⟩

end Relata
