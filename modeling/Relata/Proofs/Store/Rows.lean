import Relata.Proofs.Model.Attach
import Relata.Proofs.Store.Writing

/-! # Rows of a table

The rows of a table are told apart by the column of their identities. A row that is changed
keeps the cells that nothing was given for, and a condition on an identity selects one row.
-/

namespace Relata

open Std Text

def Page.cut {α : Type} (page : Page) (rows : List α) : List α :=
  let rest := rows.drop ((page.skip.map clamp).getD 0)
  match page.take with
  | some n => rest.take (clamp n)
  | none => rest

theorem find?_of_unique {α : Type} {p : α → Bool} {as : List α} {a : α} (ha : a ∈ as)
    (hp : p a = true) (unique : ∀ b ∈ as, p b = true → b = a) : as.find? p = some a := by
  cases h : as.find? p with
  | none => exact absurd hp (List.find?_eq_none.mp h a ha)
  | some b => rw [unique b (List.mem_of_find?_eq_some h) (List.find?_some h)]

theorem sameFolded_symm {a b : String} (h : sameFolded a b = true) : sameFolded b a = true :=
  sameFolded_iff.mpr (sameFolded_iff.mp h).symm

theorem sameFolded_refl (a : String) : sameFolded a a = true :=
  sameFolded_iff.mpr rfl

namespace Affinity

theorem operand_of_store {a : Affinity} {s : Scalar} (h : a.store s = s) : a.operand s = s := by
  -- A text that is a number is not kept as a text by a column of numbers.
  have texts (t : String) (g : Scalar → Scalar)
      (hg : ∀ n, g (.integer n) ≠ .text t ∧ ∀ x, g (.real x) ≠ .text t)
      (h : g (toNumber (.text t)) = .text t) : toNumber (.text t) = .text t := by
    simp only [toNumber] at h ⊢
    split
    · next n hn =>
      rw [hn] at h
      exact absurd h (hg n).1
    · next x hx =>
      rw [hx] at h
      exact absurd h ((hg 0).2 x)
    · rfl
  cases a with
  | text => exact h
  | none => rfl
  | integer =>
    cases s with
    | text t =>
      refine texts t toIntegral (fun n => ⟨by simp [toIntegral], fun x => ?_⟩) h
      simp only [toIntegral]
      split <;> simp
    | _ => rfl
  | real =>
    cases s with
    | text t => exact texts t toReal (fun n => by simp [toReal]) h
    | _ => rfl

end Affinity

def Column.initially (c : Column) (now : String) : Scalar :=
  match c.default with
  | .scalar s => s
  | .now => .text now

namespace Definition

/-- Columns that are told apart by their names and keep what they hold by default. The one that
stands for the numbers of the rows is one of integers. -/
structure Regular (d : Definition) : Prop where
  distinct : d.columns.Pairwise fun a b => ¬ sameFolded a.name b.name = true
  integers : ∀ c ∈ d.columns, d.isKey c.name = true → c.affinity = .integer
  defaults : ∀ c ∈ d.columns, ∀ now, c.affinity.store (c.initially now) = c.initially now

/-- A row as a store writes it: each cell is what its column keeps, and the column that
stands for the numbers of the rows has the number of the row. -/
structure Fits (d : Definition) (row : Row) : Prop where
  length : row.cells.length = d.columns.length
  kept : ∀ c ∈ d.columns, c.affinity.store (d.cell row c.name) = d.cell row c.name
  numbered : ∀ c ∈ d.columns, d.isKey c.name = true →
    d.cell row c.name = .integer (Int64.ofInt row.number)

namespace Regular

variable {d : Definition}

theorem exists_index (regular : d.Regular) {c : Column} (hc : c ∈ d.columns) :
    ∃ i, d.columns[i]? = some c ∧ d.index? c.name = some i ∧
      ∀ j b, d.columns[j]? = some b → sameFolded b.name c.name = true → j = i := by
  obtain ⟨i, hi⟩ := List.getElem?_of_mem hc
  have unique (j : Nat) (b : Column) (hj : d.columns[j]? = some b)
      (hb : sameFolded b.name c.name = true) : j = i := by
    obtain ⟨hjlt, hj⟩ := List.getElem?_eq_some_iff.mp hj
    obtain ⟨hilt, hi⟩ := List.getElem?_eq_some_iff.mp hi
    have pairwise := List.pairwise_iff_getElem.mp regular.distinct
    rcases Nat.lt_trichotomy j i with h | h | h
    · exact absurd (by rw [hj, hi]; exact hb) (pairwise j i hjlt hilt h)
    · exact h
    · exact absurd (by rw [hj, hi]; exact sameFolded_symm hb) (pairwise i j hilt hjlt h)
  refine ⟨i, hi, ?_, unique⟩
  have hsome : (d.index? c.name).isSome = true := by
    rw [index?, List.findIdx?_isSome, List.any_eq_true]
    exact ⟨c, hc, sameFolded_refl _⟩
  obtain ⟨j, hj⟩ := Option.isSome_iff_exists.mp hsome
  obtain ⟨hlt, hfolded, -⟩ := List.findIdx?_eq_some_iff_getElem.mp hj
  rw [hj, unique j _ (List.getElem?_eq_getElem hlt) hfolded]

theorem eq_of_folded (regular : d.Regular) {b c : Column} (hb : b ∈ d.columns)
    (hc : c ∈ d.columns) (h : sameFolded b.name c.name = true) : b = c := by
  obtain ⟨i, hi, -, unique⟩ := regular.exists_index hc
  obtain ⟨j, hj⟩ := List.getElem?_of_mem hb
  rw [unique j b hj h, hi] at hj
  exact (Option.some.inj hj).symm

theorem eq_of_isKey (regular : d.Regular) {b c : Column} (hb : b ∈ d.columns)
    (hc : c ∈ d.columns) (hbkey : d.isKey b.name = true) (hckey : d.isKey c.name = true) :
    b = c := by
  rw [isKey, Option.any_eq_true] at hbkey hckey
  obtain ⟨k, hk, hkb⟩ := hbkey
  obtain ⟨l, hl, hlc⟩ := hckey
  cases hk.symm.trans hl
  refine regular.eq_of_folded hb hc (sameFolded_iff.mpr ?_)
  exact (sameFolded_iff.mp hkb).trans (sameFolded_iff.mp hlc).symm

theorem has_of_mem (regular : d.Regular) {c : Column} (hc : c ∈ d.columns) :
    d.has c.name = true := by
  obtain ⟨i, -, hi, -⟩ := regular.exists_index hc
  rw [has, hi]
  rfl

theorem affinity_of_mem (regular : d.Regular) {c : Column} (hc : c ∈ d.columns) :
    d.affinity c.name = c.affinity := by
  obtain ⟨i, hi, hindex, -⟩ := regular.exists_index hc
  rw [affinity, hindex]
  simp only [hi]
  rfl

theorem spells (regular : d.Regular) {c : Column} (hc : c ∈ d.columns) : d.Spells c.name := by
  obtain ⟨i, hi, hindex, unique⟩ := regular.exists_index hc
  refine ⟨i, hindex, fun j => ⟨fun hj => ?_, ?_⟩⟩
  · rw [List.getElem?_map, Option.map_eq_some_iff] at hj
    obtain ⟨b, hb, hname⟩ := hj
    exact unique j b hb (hname ▸ sameFolded_refl _)
  · rintro rfl
    rw [List.getElem?_map, hi]
    rfl

theorem get?_record (regular : d.Regular) {c : Column} (hc : c ∈ d.columns) {row : Row}
    (hlength : row.cells.length = d.columns.length) :
    Entries.get? (d.record row) c.name = some (d.cell row c.name).toValue := by
  obtain ⟨i, hindex, hspelled⟩ := regular.spells hc
  obtain ⟨j, hj, hjindex, -⟩ := regular.exists_index hc
  cases hindex.symm.trans hjindex
  have hlt : i < row.cells.length := hlength ▸ (List.getElem?_eq_some_iff.mp hj).1
  have hcell : d.cell row c.name = row.cells[i] := by
    rw [cell, hindex]
    simp only [List.getD_eq_getElem?_getD, List.getElem?_eq_getElem hlt, Option.getD_some]
  rw [record, Entries.ofList, Entries.get?_extend_zip hspelled, hcell, List.getElem?_map,
    List.getElem?_eq_getElem hlt]
  rfl

theorem cell_changedRow (regular : d.Regular) {c : Column} (hc : c ∈ d.columns) {row : Row}
    (hlength : row.cells.length = d.columns.length) (number : Int)
    (cells : List (String × Scalar)) :
    d.cell (d.changedRow row number cells) c.name =
      if d.isKey c.name then .integer (Int64.ofInt number)
      else ((given? c cells.reverse).map c.affinity.store).getD (d.cell row c.name) := by
  obtain ⟨i, hi, hindex, -⟩ := regular.exists_index hc
  have hlt : i < row.cells.length := hlength ▸ (List.getElem?_eq_some_iff.mp hi).1
  have hzip : (d.columns.zip row.cells)[i]? = some (c, row.cells[i]) := by
    rw [List.getElem?_zip_eq_some]
    exact ⟨hi, List.getElem?_eq_getElem hlt⟩
  rw [cell, hindex, cell, hindex, changedRow]
  simp only [List.getD_eq_getElem?_getD, List.getElem?_map, hzip, List.getElem?_eq_getElem hlt,
    Option.map_some, Option.getD_some]
  split
  · rfl
  · cases given? c cells.reverse <;> rfl

theorem cell_newRow (regular : d.Regular) {c : Column} (hc : c ∈ d.columns) (now : String)
    (number : Int) (cells : List (String × Scalar)) :
    d.cell (d.newRow now number cells) c.name =
      if d.isKey c.name then .integer (Int64.ofInt number)
      else ((given? c cells).map c.affinity.store).getD (c.initially now) := by
  obtain ⟨i, hi, hindex, -⟩ := regular.exists_index hc
  rw [cell, hindex, newRow]
  simp only [List.getD_eq_getElem?_getD, List.getElem?_map, hi, Option.map_some, Option.getD_some]
  split
  · rfl
  · cases given? c cells <;> rfl

end Regular

structure Covers (d : Definition) (cells : List (String × Scalar)) : Prop where
  columns : ∀ e ∈ cells, ∃ c ∈ d.columns, c.name = e.1
  distinct : Entries.Distinct cells

namespace Covers

variable {d : Definition} {cells : List (String × Scalar)} {c : Column} {s : Scalar}

theorem eq_name (covers : d.Covers cells) (regular : d.Regular) (hc : c ∈ d.columns)
    {e : String × Scalar} (he : e ∈ cells) (h : sameFolded e.1 c.name = true) : e.1 = c.name := by
  obtain ⟨b, hb, hname⟩ := covers.columns e he
  rw [← hname] at h ⊢
  rw [regular.eq_of_folded hb hc h]

theorem given?_eq (covers : d.Covers cells) (regular : d.Regular) (hc : c ∈ d.columns)
    {cells' : List (String × Scalar)} (same : ∀ e, e ∈ cells' ↔ e ∈ cells) :
    given? c cells' = Entries.get? cells c.name := by
  rw [given?]
  cases h : Entries.get? cells c.name with
  | none =>
    have hnone : cells'.find? (fun e => sameFolded e.1 c.name) = none := by
      refine List.find?_eq_none.mpr fun e he hfolded => ?_
      have hname := covers.eq_name regular hc ((same e).mp he) hfolded
      obtain ⟨t, ht⟩ := Entries.exists_get?_of_mem ((same e).mp he)
      rw [hname, h] at ht
      cases ht
    rw [hnone]
    rfl
  | some s =>
    have hmem := Entries.mem_of_get? h
    have hfind : cells'.find? (fun e => sameFolded e.1 c.name) = some (c.name, s) := by
      refine find?_of_unique ((same _).mpr hmem) (sameFolded_refl _) fun e he hfolded => ?_
      have hname := covers.eq_name regular hc ((same e).mp he) hfolded
      have hget := Entries.get?_of_mem covers.distinct ((same e).mp he)
      rw [hname, h] at hget
      exact Prod.ext hname (Option.some.inj hget).symm
    rw [hfind]
    rfl

theorem isKey_of_isNumber (covers : d.Covers cells) (regular : d.Regular)
    {e : String × Scalar} (he : e ∈ cells) (h : d.isNumber e.1 = true) : d.isKey e.1 = true := by
  obtain ⟨b, hb, hname⟩ := covers.columns e he
  rw [isNumber, ← hname, regular.has_of_mem hb, Bool.not_true, Bool.false_and, Bool.or_false,
    hname] at h
  exact h

theorem givenNumber?_some (covers : d.Covers cells) (regular : d.Regular) (hc : c ∈ d.columns)
    (hkey : d.isKey c.name = true) (h : Entries.get? cells c.name = some s) :
    d.givenNumber? cells = some s := by
  have hmem := Entries.mem_of_get? h
  have hfind : cells.reverse.find? (fun e => d.isNumber e.1) = some (c.name, s) := by
    refine find?_of_unique (List.mem_reverse.mpr hmem) ?_ fun e he hnumber => ?_
    · rw [isNumber, hkey, Bool.true_or]
    · have he := List.mem_reverse.mp he
      obtain ⟨b, hb, hname⟩ := covers.columns e he
      have hbkey := covers.isKey_of_isNumber regular he hnumber
      have hget := Entries.get?_of_mem covers.distinct he
      rw [← hname] at hbkey hget
      rw [regular.eq_of_isKey hb hc hbkey hkey] at hname hget
      rw [h] at hget
      exact Prod.ext hname.symm (Option.some.inj hget).symm
  rw [givenNumber?, hfind]
  rfl

theorem givenNumber?_none (covers : d.Covers cells) (regular : d.Regular)
    (h : ∀ c ∈ d.columns, d.isKey c.name = true → Entries.get? cells c.name = none) :
    d.givenNumber? cells = none := by
  have hnone : cells.reverse.find? (fun e => d.isNumber e.1) = none := by
    refine List.find?_eq_none.mpr fun e he hnumber => ?_
    have he := List.mem_reverse.mp he
    obtain ⟨b, hb, hname⟩ := covers.columns e he
    have hbkey := covers.isKey_of_isNumber regular he hnumber
    obtain ⟨t, ht⟩ := Entries.exists_get?_of_mem he
    rw [← hname] at hbkey ht
    rw [h b hb hbkey] at ht
    cases ht
  rw [givenNumber?, hnone]
  rfl

end Covers

structure Puts (d : Definition) (cells : List (String × Scalar)) (old new : Row) : Prop where
  given : ∀ c ∈ d.columns, ∀ s, Entries.get? cells c.name = some s →
    d.cell new c.name = c.affinity.store s
  kept : ∀ c ∈ d.columns, Entries.get? cells c.name = none →
    d.cell new c.name = d.cell old c.name

theorem asNumber_ok {s : Scalar} {number : Int} (h : asNumber s = .ok number) :
    Affinity.integer.store s = .integer (Int64.ofInt number) := by
  rw [asNumber] at h
  split at h
  · next n hn =>
    cases h
    rw [hn, Int64.ofInt_toInt]
  · cases h

variable {d : Definition} {cells : List (String × Scalar)}

theorem puts_changedRow (regular : d.Regular) {row : Row} (fits : d.Fits row)
    (covers : d.Covers cells) {number : Int} (hnumber : d.changedNumber row cells = .ok number) :
    d.Puts cells row (d.changedRow row number cells) := by
  have hgiven {c : Column} (hc : c ∈ d.columns) :
      given? c cells.reverse = Entries.get? cells c.name :=
    covers.given?_eq regular hc fun e => List.mem_reverse
  rw [changedNumber] at hnumber
  constructor
  · intro c hc s hs
    rw [regular.cell_changedRow hc fits.length, hgiven hc, hs]
    cases hkey : d.isKey c.name with
    | false => rfl
    | true =>
      rw [covers.givenNumber?_some regular hc hkey hs] at hnumber
      rw [if_pos rfl, regular.integers c hc hkey]
      exact (asNumber_ok hnumber).symm
  · intro c hc hnone
    rw [regular.cell_changedRow hc fits.length, hgiven hc, hnone]
    cases hkey : d.isKey c.name with
    | false => rfl
    | true =>
      -- No other column stands for the number, so that it is the old one.
      rw [covers.givenNumber?_none regular fun b hb hbkey => by
        rw [regular.eq_of_isKey hb hc hbkey hkey, hnone]] at hnumber
      cases hnumber
      rw [if_pos rfl, fits.numbered c hc hkey]

theorem store_givenNumber {rows : List Row} {number : Int} {s : Scalar}
    (hgiven : d.givenNumber? cells = some s) (present : s.isNull = false)
    (hnumber : d.newNumber rows cells = .ok number) :
    Affinity.integer.store s = .integer (Int64.ofInt number) := by
  rw [newNumber, hgiven] at hnumber
  cases s with
  | null => cases present
  | integer | real | text | blob => exact asNumber_ok hnumber

theorem cell_newRow_given (regular : d.Regular) (covers : d.Covers cells) {rows : List Row}
    {number : Int} (hnumber : d.newNumber rows cells = .ok number) {c : Column}
    (hc : c ∈ d.columns) {s : Scalar} (hs : Entries.get? cells c.name = some s)
    (hnull : s.isNull = false ∨ d.isKey c.name = false) (now : String) :
    d.cell (d.newRow now number cells) c.name = c.affinity.store s := by
  rw [regular.cell_newRow hc, covers.given?_eq regular hc fun e => Iff.rfl, hs]
  cases hkey : d.isKey c.name with
  | false => rfl
  | true =>
    have hpresent : s.isNull = false := hnull.resolve_right (by rw [hkey]; simp)
    have hgiven := covers.givenNumber?_some regular hc hkey hs
    rw [if_pos rfl, regular.integers c hc hkey]
    exact (store_givenNumber hgiven hpresent hnumber).symm

theorem cell_newRow_default (regular : d.Regular) (covers : d.Covers cells) {c : Column}
    (hc : c ∈ d.columns) (hnone : Entries.get? cells c.name = none)
    (hkey : d.isKey c.name = false) (now : String) (number : Int) :
    d.cell (d.newRow now number cells) c.name = c.initially now := by
  rw [regular.cell_newRow hc, covers.given?_eq regular hc fun e => Iff.rfl, hnone, hkey]
  rfl

section

variable {selected : Row → Bool}

theorem changeRows_none {rows : List Row} (h : ∀ row ∈ rows, selected row = false)
    (done : List Row) (n : Nat) :
    d.changeRows selected cells done rows n = .ok (done ++ rows, n) := by
  induction rows generalizing done with
  | nil => rw [changeRows, List.append_nil]
  | cons row rest ih =>
    obtain ⟨hrow, hrest⟩ := List.forall_mem_cons.mp h
    rw [changeRows, if_neg (by rw [hrow]; exact Bool.false_ne_true), ih hrest,
      List.append_assoc, List.singleton_append]

theorem changeRows_single {before after done rows : List Row} {row : Row} {n k : Nat}
    (hbefore : ∀ row ∈ before, selected row = false) (hrow : selected row = true)
    (hafter : ∀ row ∈ after, selected row = false)
    (h : d.changeRows selected cells done (before ++ row :: after) n = .ok (rows, k)) :
    ∃ number, d.changedNumber row cells = .ok number ∧ k = n + 1 ∧
      rows = done ++ (before ++ d.changedRow row number cells :: after) := by
  induction before generalizing done with
  | nil =>
    rw [List.nil_append, changeRows, if_pos hrow] at h
    obtain ⟨number, hnumber, h⟩ := bind_eq_ok.mp h
    obtain ⟨_, -, h⟩ := bind_eq_ok.mp h
    rw [changeRows_none hafter] at h
    cases h
    exact ⟨number, hnumber, rfl, by rw [List.append_assoc]; rfl⟩
  | cons other before ih =>
    obtain ⟨hother, hbefore⟩ := List.forall_mem_cons.mp hbefore
    rw [List.cons_append, changeRows,
      if_neg (by rw [hother]; exact Bool.false_ne_true)] at h
    obtain ⟨number, hnumber, rfl, rfl⟩ := ih hbefore h
    exact ⟨number, hnumber, rfl, by rw [List.append_assoc]; rfl⟩

end

end Definition

/-- A table as a store keeps it. -/
structure Table.Regular (t : Table) : Prop where
  regular : t.definition.Regular
  fits : ∀ row ∈ t.rows, t.definition.Fits row

/-- A table whose rows are told apart by their identities. -/
structure Table.Identified (t : Table) : Prop where
  identity : ∃ c ∈ t.definition.columns, c.name = Record.key
  present : ∀ row ∈ t.rows, (t.definition.cell row Record.key).isNull = false
  apart : t.rows.Pairwise fun a b =>
    (t.definition.cell a Record.key).order (t.definition.cell b Record.key) ≠ .eq

/-- A table as a store keeps it, whose rows are told apart by their identities. -/
structure Table.Keyed (t : Table) : Prop extends Table.Regular t, Table.Identified t

abbrev Condition.keyed (s : Scalar) : List Condition :=
  [.compare Record.key .equal s]

/-- A row whose record has an identity: it is not null, and in a column of the very name. -/
structure Definition.Identifies (d : Definition) (row : Row) : Prop where
  column : ∃ c ∈ d.columns, c.name = Record.key
  present : (d.cell row Record.key).isNull = false

theorem Table.Regular.selects_keyed {t : Table} {f : Frame} {r : Row} (regular : t.Regular)
    (hf : f.definition = t.definition) (hr : r ∈ t.rows) (identifies : t.definition.Identifies r)
    (row : Row) :
    Condition.selects f (Condition.keyed (t.definition.cell r Record.key)) row =
      ((t.definition.cell row Record.key).order (t.definition.cell r Record.key) == .eq) := by
  obtain ⟨⟨c, hc, hname⟩, hpresent⟩ := identifies
  obtain ⟨i, hi, hindex, -⟩ := regular.regular.exists_index hc
  rw [← hf, hname] at hindex
  have hscalar : f.scalar row Record.key = t.definition.cell row Record.key := by
    rw [← hf, Definition.cell_of_index? hindex, Frame.scalar_of_index? (Frame.constant?_key _) hindex]
  have hkept := Affinity.operand_of_store ((regular.fits r hr).kept c hc)
  have hoperand : (f.affinity Record.key).operand (t.definition.cell r Record.key) =
      t.definition.cell r Record.key := by
    rw [Frame.affinity_of_index? (Frame.constant?_key _) hindex, hf, hi, ← hname]
    exact hkept
  rw [Condition.selects, Condition.truths, Condition.truths, Truth.all_singleton, Condition.truth,
    hscalar, hoperand, Comparison.truth, hpresent, Bool.or_false]
  cases hnull : (t.definition.cell row Record.key).isNull with
  | false =>
    rw [if_neg Bool.false_ne_true, Comparison.accepts, Truth.holds]
    cases (t.definition.cell row Record.key).order (t.definition.cell r Record.key) <;> rfl
  | true =>
    -- Nothing is equal to null but null.
    rw [if_pos rfl]
    revert hnull hpresent
    cases t.definition.cell row Record.key <;> cases t.definition.cell r Record.key <;>
      simp [Scalar.isNull, Scalar.order, Scalar.rank, Truth.holds]

theorem Table.exists_perm (t : Table) {r : Row} (hr : r ∈ t.rows) :
    ∃ before after, t.rows = before ++ r :: after ∧ t.rows.Perm (r :: (before ++ after)) := by
  obtain ⟨before, after, hrows⟩ := List.append_of_mem hr
  refine ⟨before, after, hrows, ?_⟩
  rw [hrows]
  exact List.perm_middle

namespace Table.Keyed

variable {t : Table} {f : Frame} {r row : Row} {others : List Row}

theorem identifies (keyed : t.Keyed) (hr : r ∈ t.rows) : t.definition.Identifies r :=
  ⟨keyed.identity, keyed.present r hr⟩

theorem selects_eq (keyed : t.Keyed) (hf : f.definition = t.definition) (hr : r ∈ t.rows)
    (row : Row) :
    Condition.selects f (Condition.keyed (t.definition.cell r Record.key)) row =
      ((t.definition.cell row Record.key).order (t.definition.cell r Record.key) == .eq) :=
  keyed.selects_keyed hf hr (keyed.identifies hr) row

theorem selects_self (keyed : t.Keyed) (hf : f.definition = t.definition) (hr : r ∈ t.rows) :
    Condition.selects f (Condition.keyed (t.definition.cell r Record.key)) r = true := by
  rw [keyed.selects_eq hf hr, beq_iff_eq]
  exact ReflCmp.compare_self

theorem not_selects (keyed : t.Keyed) (hf : f.definition = t.definition)
    (hrows : t.rows.Perm (r :: others)) (hrow : row ∈ others) :
    Condition.selects f (Condition.keyed (t.definition.cell r Record.key)) row = false := by
  have hr : r ∈ t.rows := hrows.mem_iff.mpr List.mem_cons_self
  have hapart := keyed.apart
  rw [hrows.pairwise_iff fun h heq => h (OrientedCmp.eq_symm heq)] at hapart
  rw [keyed.selects_eq hf hr, beq_eq_false_iff_ne]
  exact fun heq => (List.pairwise_cons.mp hapart).1 row hrow (OrientedCmp.eq_symm heq)

theorem filter_eq (keyed : t.Keyed) (hf : f.definition = t.definition)
    (hrows : t.rows.Perm (r :: others)) {new : Row}
    (hnew : t.definition.cell new Record.key = t.definition.cell r Record.key) {rows : List Row}
    (h : rows.Perm (new :: others)) :
    rows.filter (Condition.selects f (Condition.keyed (t.definition.cell r Record.key))) =
      [new] := by
  have hr : r ∈ t.rows := hrows.mem_iff.mpr List.mem_cons_self
  have hself : Condition.selects f (Condition.keyed (t.definition.cell r Record.key)) new =
      true := by
    rw [keyed.selects_eq hf hr, hnew, beq_iff_eq]
    exact ReflCmp.compare_self
  have hothers : others.filter
      (Condition.selects f (Condition.keyed (t.definition.cell r Record.key))) = [] :=
    List.filter_eq_nil_iff.mpr fun row hrow => by
      rw [keyed.not_selects hf hrows hrow]
      exact Bool.false_ne_true
  have hperm := h.filter
    (Condition.selects f (Condition.keyed (t.definition.cell r Record.key)))
  rw [List.filter_cons_of_pos hself, hothers] at hperm
  exact hperm.eq_singleton

theorem filter_self (keyed : t.Keyed) (hf : f.definition = t.definition) (hr : r ∈ t.rows) :
    t.rows.filter (Condition.selects f (Condition.keyed (t.definition.cell r Record.key))) =
      [r] := by
  obtain ⟨before, after, -, hperm⟩ := t.exists_perm hr
  exact keyed.filter_eq hf hperm rfl hperm

end Table.Keyed

namespace Database

variable {db db' : Database} {table : String} {t : Table}

theorem table?_setRows (ht : db.table? table = some t) (rows : List Row) :
    (db.setRows table rows).table? table = some { t with rows } := by
  rw [table?] at ht ⊢
  rw [setRows]
  generalize db.tables = ts at ht
  induction ts with
  | nil => cases ht
  | cons u us ih =>
    rw [List.find?_cons] at ht
    rw [List.map_cons, List.find?_cons]
    cases hu : sameFolded u.definition.name table with
    | true =>
      rw [hu] at ht
      cases ht
      simp only [if_true, hu]
    | false =>
      rw [hu] at ht
      simp only [Bool.false_eq_true, if_false, hu]
      exact ih ht

theorem table_eq (ht : db.table? table = some t) : db.table table = .ok t := by
  rw [Database.table, ht]
  rfl

theorem writable_eq (ht : db.table? table = some t) : db.writable table = .ok t := by
  rw [writable, ht]

theorem update_row (ht : db.table? table = some t) (keyed : t.Keyed) {r : Row}
    (hr : r ∈ t.rows) {cells : List (String × Scalar)} {n : Nat}
    (h : db.update table cells (Condition.keyed (t.definition.cell r Record.key)) =
      .ok (db', n)) :
    ∃ number others rows, t.definition.changedNumber r cells = .ok number ∧
      t.rows.Perm (r :: others) ∧
      rows.Perm (t.definition.changedRow r number cells :: others) ∧ n = 1 ∧
      db' = db.setRows table rows := by
  obtain ⟨u, rows, hu, hchange, rfl⟩ := update_ok h
  cases (writable_eq ht).symm.trans hu
  obtain ⟨before, after, hrows, hperm⟩ := t.exists_perm hr
  have hothers : ∀ row ∈ before ++ after, _ := fun row hrow =>
    keyed.not_selects (f := db.frame t) rfl hperm hrow
  obtain ⟨hbefore, hafter⟩ := List.forall_mem_append.mp hothers
  rw [hrows] at hchange
  obtain ⟨number, hnumber, rfl, rfl⟩ := Definition.changeRows_single hbefore
    (keyed.selects_self rfl hr) hafter hchange
  refine ⟨number, before ++ after, _, hnumber, hperm, ?_, rfl, rfl⟩
  exact (List.mergeSort_perm _ _).trans List.perm_middle

def Uncascaded (db : Database) : Prop :=
  ∀ t ∈ db.tables, ∀ r ∈ t.definition.references, r.cascade = false

theorem cascade_eq (h : db.Uncascaded) (fuel : Nat) : db.cascade fuel = db := by
  cases fuel with
  | zero => rfl
  | succ fuel =>
    rw [cascade]
    refine if_pos (List.all_eq_true.mpr fun t ht => List.all_eq_true.mpr fun row _ => ?_)
    rw [Bool.not_eq_true', List.any_eq_false]
    intro r hr
    rw [h t ht r hr, Bool.false_and]
    exact Bool.false_ne_true

theorem Uncascaded.setRows (h : db.Uncascaded) (rows : List Row) :
    (db.setRows table rows).Uncascaded := by
  intro u hu
  obtain ⟨v, hv, rfl⟩ := List.mem_map.mp hu
  split
  · exact h v hv
  · exact h v hv

theorem delete_row (ht : db.table? table = some t) (keyed : t.Keyed) (uncascaded : db.Uncascaded)
    {r : Row} (hr : r ∈ t.rows) {n : Nat}
    (h : db.delete table (Condition.keyed (t.definition.cell r Record.key)) = .ok (db', n)) :
    ∃ others rows, t.rows.Perm (r :: others) ∧ rows.Perm others ∧ n = 1 ∧
      db' = db.setRows table rows := by
  obtain ⟨u, hu, rfl, rfl⟩ := delete_ok h
  cases (writable_eq ht).symm.trans hu
  obtain ⟨before, after, -, hperm⟩ := t.exists_perm hr
  have hself := keyed.selects_self (f := db.frame t) rfl hr
  have hothers (row : Row) (hrow : row ∈ before ++ after) :=
    keyed.not_selects (f := db.frame t) rfl hperm hrow
  have hrest := hperm.filter fun row =>
    !Condition.selects (db.frame t) (Condition.keyed (t.definition.cell r Record.key)) row
  have hkeep : (before ++ after).filter (fun row => !Condition.selects (db.frame t)
      (Condition.keyed (t.definition.cell r Record.key)) row) = before ++ after :=
    List.filter_eq_self.mpr fun row hrow => by rw [hothers row hrow, Bool.not_false]
  rw [List.filter_cons_of_neg (by rw [hself]; exact Bool.false_ne_true), hkeep] at hrest
  have hone : (t.rows.filter (Condition.selects (db.frame t)
      (Condition.keyed (t.definition.cell r Record.key)))).length = 1 := by
    rw [keyed.filter_self rfl hr]
    rfl
  refine ⟨before ++ after, _, hperm, hrest, hone, ?_⟩
  split
  · exact cascade_eq (uncascaded.setRows _) _
  · rfl

/-- What a query of whole rows shows is a page of the rows that its conditions select, in its
order. -/
theorem query_sorted_ok (ht : db.table? table = some t) {cs : List Condition} {order : Order}
    {page : Page} {records : List Record}
    (h : db.query .everything table cs order page = .ok records) :
    ∃ found, found.Perm (t.rows.filter (Condition.selects (db.frame t) cs)) ∧
      records = (page.cut (order.sort (db.frame t) found)).map t.definition.record := by
  obtain ⟨u, hu, hshown⟩ := bind_eq_ok.mp h
  cases (table_eq ht).symm.trans hu
  obtain ⟨_, -, htested⟩ := bind_eq_ok.mp hshown
  obtain ⟨_, -, hnames⟩ := bind_eq_ok.mp htested
  obtain ⟨_, -, huse⟩ := bind_eq_ok.mp hnames
  obtain ⟨_, -, hpatterns⟩ := bind_eq_ok.mp huse
  obtain ⟨_, -, hproject⟩ := bind_eq_ok.mp hpatterns
  exact ⟨_, Access.perm_arrange _ _ _, (Except.ok.inj hproject).symm⟩

theorem query_page_ok (ht : db.table? table = some t) {cs : List Condition} {order : Order}
    {page : Page} {records : List Record}
    (h : db.query .everything table cs order page = .ok records) :
    ∃ rows, rows.Perm (t.rows.filter (Condition.selects (db.frame t) cs)) ∧
      records = (page.cut rows).map t.definition.record := by
  obtain ⟨found, hperm, hrecords⟩ := query_sorted_ok ht h
  exact ⟨_, (List.mergeSort_perm _ _).trans hperm, hrecords⟩

theorem query_row (ht : db.table? table = some t) {cs : List Condition} {r : Row}
    (hfilter : t.rows.filter (Condition.selects (db.frame t) cs) = [r]) {records : List Record}
    (h : db.query .everything table cs [] { take := some 1 } = .ok records) :
    records = [t.definition.record r] := by
  obtain ⟨rows, hperm, rfl⟩ := query_page_ok ht h
  rw [hfilter] at hperm
  rw [hperm.eq_singleton]
  rfl

end Database

end Relata
