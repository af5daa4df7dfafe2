import Relata.Model.Related
import Relata.Proofs.Sql.Selections
import Relata.Proofs.Store.Rows

/-! # Pages in the store and in a list

The clause of a page says counts, and the store leaves those of its rows that the counts say: a
limit below zero is none. What it leaves are the rows that the page cuts from a list, whatever its
counts are, as long as the rows can be counted; so a page of a table and a page of related rows
are the same page.
-/

namespace Relata

open Sql Text

namespace Sql

def spelled (n : Int64) : String :=
  String.ofList (signed n.toInt)

variable {α : Type}

/-- The first rows, as many as a limit says; a limit below zero is none. -/
def limited (limit : Int64) (rows : List α) : List α :=
  if limit < 0 then rows else rows.take limit.toInt.toNat

def offsetPart : Option Int64 → String
  | none => ""
  | some m => " OFFSET " ++ spelled m

/-- What a clause leaves of rows: those behind as many as the offset says, up to the limit. -/
inductive Leaves (rows : List α) : String → List α → Prop
  | everything : Leaves rows "" rows
  | counts (n : Int64) (m : Option Int64) :
      Leaves rows ("LIMIT " ++ spelled n ++ offsetPart m)
        (limited n (rows.drop (m.elim 0 fun m => m.toInt.toNat)))

/-! ## What a clause says -/

theorem blank_not_mem_signed (n : Int) : ' ' ∉ signed n := by
  have digits : ' ' ∉ decimal n.natAbs := fun h => absurd (isDigit_of_mem_decimal h) (by decide)
  rw [signed]
  split
  · simp [digits]
  · exact digits

theorem signed_inj {n m : Int} (h : signed n = signed m) : n = m := by
  have hn := integer?_signed n
  rw [h, integer?_signed] at hn
  exact (Option.some.inj hn).symm

theorem head?_offsetPart {m : Option Int64} : ∀ c ∈ (offsetPart m).toList.head?, c = ' ' := by
  cases m with
  | none => simp [offsetPart]
  | some m =>
    rw [offsetPart, String.toList_append]
    rintro c ⟨⟩
    rfl

theorem offsetPart_inj {m m' : Option Int64} (h : offsetPart m = offsetPart m') : m = m' := by
  have chars := congrArg String.toList h
  cases m <;> cases m' <;>
    simp only [offsetPart, String.toList_append, String.toList_empty] at chars
  case none.none => rfl
  case none.some => cases chars
  case some.none => cases chars
  case some.some m m' =>
    simp only [spelled, String.toList_ofList] at chars
    rw [Int64.toInt_inj.mp (signed_inj (List.append_cancel_left chars))]

theorem counts_inj {n n' : Int64} {m m' : Option Int64}
    (h : "LIMIT " ++ spelled n ++ offsetPart m = "LIMIT " ++ spelled n' ++ offsetPart m') :
    n = n' ∧ m = m' := by
  have chars := congrArg String.toList h
  simp only [String.toList_append, List.append_assoc, spelled, String.toList_ofList] at chars
  have behind := List.append_cancel_left chars
  -- The limit ends at the first blank behind it.
  have word (n : Int64) : ∀ c ∈ signed n.toInt, (c != ' ') = true := fun c hc =>
    bne_iff_ne.mpr fun blank => blank_not_mem_signed _ (blank ▸ hc)
  have blank (m : Option Int64) : ∀ c ∈ (offsetPart m).toList.head?, (c != ' ') = false :=
    fun c hc => bne_eq_false_iff_eq.mpr (head?_offsetPart c hc)
  have limit := congrArg (List.takeWhile (· != ' ')) behind
  rw [takeWhile_append_of_head (word n) (blank m),
    takeWhile_append_of_head (word n') (blank m')] at limit
  rw [limit] at behind
  exact ⟨Int64.toInt_inj.mp (signed_inj limit),
    offsetPart_inj (String.toList_inj.mp (List.append_cancel_left behind))⟩

theorem counts_ne_empty (n : Int64) (m : Option Int64) :
    "LIMIT " ++ spelled n ++ offsetPart m ≠ "" := by
  intro h
  have chars := congrArg String.toList h
  rw [String.toList_append, String.toList_append] at chars
  cases chars

variable {rows kept : List α}

theorem leaves_empty_iff : Leaves rows "" kept ↔ kept = rows := by
  constructor
  · intro h
    generalize hclause : "" = clause at h
    cases h with
    | everything => rfl
    | counts n m => exact absurd hclause.symm (counts_ne_empty n m)
  · rintro rfl
    exact .everything

theorem leaves_counts_iff {n : Int64} {m : Option Int64} :
    Leaves rows ("LIMIT " ++ spelled n ++ offsetPart m) kept ↔
      kept = limited n (rows.drop (m.elim 0 fun m => m.toInt.toNat)) := by
  constructor
  · intro h
    generalize hclause : "LIMIT " ++ spelled n ++ offsetPart m = clause at h
    cases h with
    | everything => exact absurd hclause (counts_ne_empty n m)
    | counts n' m' =>
      obtain ⟨rfl, rfl⟩ := counts_inj hclause
      rfl
  · rintro rfl
    exact .counts n m

end Sql

namespace Page

def word (n : UInt64) : Int64 :=
  Int64.ofNat (clamp n)

theorem toInt_word (n : UInt64) : (word n).toInt = (clamp n : Int) := by
  refine Int64.toInt_ofNat_of_lt ?_
  have := Nat.min_le_right n.toNat largest
  rw [clamp]
  rw [largest] at this ⊢
  omega

theorem spelled_word (n : UInt64) : spelled (word n) = (clamp n).repr := by
  rw [← String.toList_inj, spelled, String.toList_ofList, toList_repr, toInt_word, signed,
    if_neg (by omega), Int.natAbs_natCast]

/-- The limit of a clause, which is below zero if nothing is to be left out at the end. -/
def limitWord (page : Page) : Int64 :=
  match page.take with
  | some n => word n
  | none => -1

theorem clause_eq (page : Page) (some : page.isEmpty = false) :
    page.clause = "LIMIT " ++ spelled page.limitWord ++ offsetPart (page.skip.map word) := by
  have unlimited : spelled (-1) = "-1" := by
    have minus : signed (-1) = ['-', '1'] := by
      rw [signed, if_pos (by omega)]
      exact congrArg _ (decimal_of_lt (by decide))
    exact congrArg String.ofList minus
  obtain ⟨take, skip⟩ := page
  cases take <;> cases skip <;>
    simp only [clause, limitWord, Option.map, offsetPart, spelled_word, unlimited,
      String.append_empty, String.append_assoc]
  case none.none => cases some
  case none.some => rfl

variable {α : Type} {rows : List α}

theorem limited_word (n : UInt64) : limited (word n) rows = rows.take (clamp n) := by
  have present : ¬word n < 0 := by
    rw [Int64.lt_iff_toInt_lt, toInt_word]
    exact Int.not_lt.mpr (Int.natCast_nonneg _)
  rw [limited, if_neg present, toInt_word, Int.toNat_natCast]

/-- What the store cuts from rows is what the clause leaves of them. -/
theorem leaves_clause_iff (page : Page) {kept : List α} :
    Leaves rows page.clause kept ↔ kept = page.cut rows := by
  obtain ⟨take, skip⟩ := page
  have offset : (skip.map word).elim 0 (fun m => m.toInt.toNat) = (skip.map clamp).getD 0 := by
    cases skip with
    | none => rfl
    | some m => exact congrArg Int.toNat (toInt_word m)
  have limit : limited (limitWord ⟨take, skip⟩) (rows.drop ((skip.map clamp).getD 0)) =
      cut ⟨take, skip⟩ rows := by
    cases take with
    | none => rfl
    | some n => exact limited_word n
  cases hempty : isEmpty ⟨take, skip⟩ with
  | false => rw [clause_eq _ hempty, leaves_counts_iff, offset, limit]
  | true =>
    cases take <;> cases skip <;> cases hempty
    exact leaves_empty_iff

theorem cut_eq_slice (page : Page) (bounded : rows.length ≤ largest) :
    page.cut rows = page.slice rows := by
  have drop (n : UInt64) : rows.drop (clamp n) = rows.drop n.toNat := by
    have read := drop_clamped bounded n
    rwa [toNat_clamped] at read
  have take {rest : List α} (hrest : rest.length ≤ largest) (n : UInt64) :
      rest.take (clamp n) = rest.take n.toNat := by
    have read := take_clamped hrest n
    rwa [toNat_clamped] at read
  have left (n : Nat) : (rows.drop n).length ≤ largest := by
    rw [List.length_drop]
    omega
  obtain ⟨t, s⟩ := page
  cases t <;> cases s <;>
    simp only [cut, slice, Option.map, Option.getD, drop, take (left _), take bounded,
      List.drop_zero]

theorem cut_map {β : Type} (page : Page) (f : α → β) :
    page.cut (rows.map f) = (page.cut rows).map f := by
  obtain ⟨take, skip⟩ := page
  cases take <;> simp only [cut, List.map_drop, List.map_take]

/-- What the clause of a page leaves of rows is the page of the list of them. So is what the store
cuts off when it has read the clause, what a query of whole rows shows of the rows that it found,
and what is attached of the related rows of a parent. -/
theorem pages_agree (page : Page) (bounded : rows.length ≤ largest) :
    (∀ kept, Leaves rows page.clause kept ↔ kept = page.slice rows) ∧
    (∃ read, Reader.pageClause ⟨tokens page.clause, []⟩ = .ok (read, ⟨[], []⟩) ∧
      read.cut rows = page.slice rows) ∧
    (∀ (db : Database) (table : String) (t : Table) (cs : List Condition) (order : Order)
        (records : List Record),
      db.table? table = some t → db.query .everything table cs order page = .ok records →
      ∃ found, found.Perm (t.rows.filter (Condition.selects (db.frame t) cs)) ∧
        Leaves ((order.sort (db.frame t) found).map t.definition.record) page.clause records) ∧
    ∀ (r : Relation) (select : Option Select) (group : List Record),
      r.cardinality = .oneToMany → group.length ≤ largest →
      ∃ kept, Leaves group page.clause kept ∧
        r.attached page select group = .array ((Select.narrowAll select kept).map .object) := by
  refine ⟨fun kept => ?_, ⟨page.asRead, ?_, ?_⟩, ?_, ?_⟩
  · rw [leaves_clause_iff, cut_eq_slice page bounded]
  · rw [tokens_eq, (spells_page page).lex_eq]
    exact Reader.pageClause_tokens page
  · rw [cut_eq_slice _ bounded, slice_asRead bounded]
  · intro db table t cs order records ht h
    obtain ⟨found, hperm, rfl⟩ := Database.query_sorted_ok ht h
    exact ⟨found, hperm, (leaves_clause_iff page).mpr (cut_map page _).symm⟩
  · intro r select group hmany hgroup
    refine ⟨page.slice group, ?_, ?_⟩
    · rw [leaves_clause_iff, cut_eq_slice page hgroup]
    · rw [Relation.attached, hmany]

/-- Of three rows, all but the first, with a limit that no clause can say. -/
theorem pages_agree_allButFirst :
    [1, 2, 3].length ≤ largest ∧
    Leaves [1, 2, 3] (clause ⟨some 18446744073709551615, some 1⟩) [2, 3] ∧
    slice ⟨some 18446744073709551615, some 1⟩ [1, 2, 3] = [2, 3] := by
  have bounded : [1, 2, 3].length ≤ largest := by decide
  obtain ⟨hleaves, -⟩ := pages_agree ⟨some 18446744073709551615, some 1⟩ bounded
  exact ⟨bounded, (hleaves [2, 3]).mpr rfl, rfl⟩

end Page

end Relata
