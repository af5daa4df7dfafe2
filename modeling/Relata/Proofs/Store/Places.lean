import Relata.Proofs.Store.Selection

/-! # Places in a row

Names that are spelled differently may stand for the same place of a row: the case of letters
does not matter, and the number of a row has several names. What is given under a name leaves
every other place as it was.
-/

namespace Relata

open Text

namespace Definition

variable {d : Definition} {cells : List (String × Scalar)} {row : Row}

/-- Whether names stand for the same column, or both for the number of a row. -/
def SamePlace (d : Definition) (a b : String) : Prop :=
  sameFolded a b = true ∨ d.isNumber a = true ∧ d.isNumber b = true

instance (a b : String) : Decidable (d.SamePlace a b) :=
  inferInstanceAs (Decidable (_ ∨ _))

theorem SamePlace.symm {a b : String} (h : d.SamePlace a b) : d.SamePlace b a :=
  h.imp sameFolded_symm And.symm

theorem index?_congr {a b : String} (h : sameFolded a b = true) : d.index? a = d.index? b := by
  have hfold := sameFolded_iff.mp h
  have hcolumn (c : Column) : sameFolded c.name a = sameFolded c.name b := by
    rw [Bool.eq_iff_iff, sameFolded_iff, sameFolded_iff, hfold]
  simp only [index?, hcolumn]

theorem isKey_congr {a b : String} (h : sameFolded a b = true) : d.isKey a = d.isKey b := by
  have hfold := sameFolded_iff.mp h
  have hkey (k : String) : sameFolded a k = sameFolded b k := by
    rw [Bool.eq_iff_iff, sameFolded_iff, sameFolded_iff, hfold]
  simp only [isKey, funext hkey]

theorem exists_column {name : String} {i : Nat} (h : d.index? name = some i) :
    ∃ c ∈ d.columns, d.columns[i]? = some c ∧ sameFolded c.name name = true ∧
      d.index? c.name = some i := by
  obtain ⟨hlt, hfolded, -⟩ := List.findIdx?_eq_some_iff_getElem.mp h
  have hc := List.getElem_mem hlt
  exact ⟨_, hc, List.getElem?_eq_getElem hlt, hfolded, (index?_congr hfolded).trans h⟩

theorem isNumber_of_index? {name : String} {i : Nat} (h : d.index? name = some i) :
    d.isNumber name = d.isKey name := by
  rw [isNumber, has, h]
  simp

theorem number_rewritten (apart : ∀ e ∈ cells, d.isNumber e.1 = false) :
    (d.rewritten cells row).number = row.number := by
  have hnone : d.givenNumber? cells = none := by
    rw [givenNumber?, Option.map_eq_none_iff, List.find?_eq_none]
    intro e he
    rw [apart e (List.mem_reverse.mp he)]
    exact Bool.false_ne_true
  rw [rewritten, changedNumber, hnone]
  rfl

/-- What a row has in the place that a name stands for. -/
def inPlace (d : Definition) (row : Row) (name : String) : Scalar :=
  match d.index? name with
  | some i => row.cells.getD i .null
  | none => if d.isNumber name then .integer (Int64.ofInt row.number) else .null

def affinityIn (d : Definition) (name : String) : Affinity :=
  match d.index? name with
  | some i => (d.columns[i]?.map Column.affinity).getD .none
  | none => if d.isNumber name then .integer else .none

theorem inPlace_rewritten (regular : d.Regular) (fits : d.Fits row) {name : String}
    (apart : ∀ e ∈ cells, ¬ d.SamePlace e.1 name) :
    d.inPlace (d.rewritten cells row) name = d.inPlace row name := by
  rw [inPlace, inPlace]
  cases hindex : d.index? name with
  | some i =>
    obtain ⟨c, hc, -, hname, hcindex⟩ := exists_column hindex
    have hcell := cell_rewritten regular fits hc fun e he stands => apart e he <| by
      refine stands.imp (fun hfolded => ?_) fun ⟨hkey, hnumber⟩ => ⟨hnumber, ?_⟩
      · exact sameFolded_iff.mpr ((sameFolded_iff.mp hfolded).trans (sameFolded_iff.mp hname))
      · rw [isNumber_of_index? hindex, ← isKey_congr hname, hkey]
    rwa [cell_of_index? hcindex, cell_of_index? hcindex] at hcell
  | none =>
    cases hnumber : d.isNumber name with
    | true =>
      have others : ∀ e ∈ cells, d.isNumber e.1 = false := fun e he =>
        Bool.eq_false_iff.mpr fun h => apart e he (.inr ⟨h, hnumber⟩)
      rw [number_rewritten others]
    | false => rfl

end Definition

namespace Frame

variable {f : Frame} {name : String} (free : constant? f.now name = none)

include free

/-- A name that is no constant means what is in its place. -/
theorem scalar_eq_inPlace (held : f.definition.holds name = true) (row : Row) :
    f.scalar row name = f.definition.inPlace row name := by
  rw [Definition.inPlace]
  cases hindex : f.definition.index? name with
  | some i => exact scalar_of_index? free hindex row
  | none =>
    rw [Definition.holds, Definition.has, hindex] at held
    rw [scalar_of_isNumber free hindex held]
    exact (if_pos held).symm

theorem affinity_eq_affinityIn (held : f.definition.holds name = true) :
    f.affinity name = f.definition.affinityIn name := by
  rw [Definition.affinityIn]
  cases hindex : f.definition.index? name with
  | some i => exact affinity_of_index? free hindex
  | none =>
    rw [Definition.holds, Definition.has, hindex] at held
    rw [affinity_of_isNumber free hindex held]
    exact (if_pos held).symm

end Frame

namespace Definition

variable {d : Definition} {cells : List (String × Scalar)} {row : Row}

theorem scalar_rewritten (regular : d.Regular) (fits : d.Fits row) {name : String}
    (apart : ∀ e ∈ cells, ¬ d.SamePlace e.1 name) {f : Frame} (hf : f.definition = d) :
    f.scalar (d.rewritten cells row) name = f.scalar row name := by
  cases hf
  cases free : Frame.constant? f.now name with
  | some s => rw [Frame.scalar_of_constant? free, Frame.scalar_of_constant? free]
  | none =>
    cases held : f.definition.holds name with
    | true =>
      rw [Frame.scalar_eq_inPlace free held, Frame.scalar_eq_inPlace free held,
        inPlace_rewritten regular fits apart]
    | false =>
      obtain ⟨hhas, hnumber⟩ := Bool.or_eq_false_iff.mp held
      exact Frame.scalar_of_no_place free (Option.isNone_iff_eq_none.mp (by simpa [has] using hhas))
        hnumber _ _

theorem cell_eq_of_scalar {f : Frame} (hf : f.definition = d) {row' : Row} {name : String}
    (free : Frame.constant? f.now name = none) (h : f.scalar row' name = f.scalar row name) :
    d.cell row' name = d.cell row name := by
  cases hf
  cases hindex : f.definition.index? name with
  | none => rw [cell, cell, hindex]
  | some i =>
    rwa [Frame.scalar_of_index? free hindex, Frame.scalar_of_index? free hindex,
      ← cell_of_index? hindex, ← cell_of_index? hindex] at h

/-- Data that leave what a name stands for, set in a row. The identity itself is not set. -/
def Spares (d : Definition) (data : Record) (name : String) : Prop :=
  ∀ n ∈ Entries.names (data.erase Record.key), ¬ d.SamePlace n name

instance (data : Record) (name : String) : Decidable (d.Spares data name) :=
  inferInstanceAs (Decidable (∀ n ∈ _, _))

theorem cell_rewritten_key (regular : d.Regular) (fits : d.Fits row)
    (apart : ∀ e ∈ cells, ¬ d.SamePlace e.1 Record.key) :
    d.cell (d.rewritten cells row) Record.key = d.cell row Record.key :=
  cell_eq_of_scalar rfl (Frame.constant?_key _)
    (scalar_rewritten regular fits apart (f := { definition := d }) rfl)

end Definition

end Relata
