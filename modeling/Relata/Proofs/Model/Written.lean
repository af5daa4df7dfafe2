import Relata.Proofs.Model.Calls
import Relata.Proofs.Model.Faults
import Relata.Proofs.Sql.Commands
import Relata.Proofs.Store.Rows

/-! # What is written

The data of a call are written as the scalars of their values, under the same names. A
changed row holds what its column keeps of them, and is otherwise as before; a new row is
otherwise as the store has it by default.
-/

namespace Relata

open Text

namespace Command

variable {data : Record} {entries : List (String × Scalar)} {table : String} {k : Command}

theorem names_cells (h : cells data = .ok entries) :
    Entries.names entries = Entries.names data ∧
      ∀ cell ∈ entries, PlainName cell.1.toList := by
  induction data generalizing entries with
  | nil =>
    cases h
    simp [Entries.names]
  | cons e rest ih =>
    obtain ⟨plain, s, cs, -, hcs, rfl⟩ := cells_cons.mp h
    obtain ⟨hnames, hplain⟩ := ih hcs
    exact ⟨congrArg (e.1 :: ·) hnames, List.forall_mem_cons.mpr ⟨plain, hplain⟩⟩

theorem get?_cells (h : cells data = .ok entries) (name : String) :
    (Entries.get? data name = none → Entries.get? entries name = none) ∧
      ∀ v, Entries.get? data name = some v →
        ∃ s, v.toScalar name = .ok s ∧ Entries.get? entries name = some s := by
  induction data generalizing entries with
  | nil =>
    cases h
    exact ⟨fun _ => rfl, fun v hv => by cases hv⟩
  | cons e rest ih =>
    obtain ⟨-, s, cs, hs, hcs, rfl⟩ := cells_cons.mp h
    rw [Entries.get?_cons, Entries.get?_cons]
    by_cases hn : name = e.1
    · rw [if_pos hn, if_pos hn]
      constructor
      · intro hnone
        cases hnone
      · intro v hv
        cases hv
        exact ⟨s, hn ▸ hs, rfl⟩
    · rw [if_neg hn, if_neg hn]
      exact ih hcs

theorem insertion_definite {id : Value} (hid : Entries.get? data Record.key = some id)
    (h : insertion table data = .ok k) :
    ∃ entries, cells data = .ok entries ∧ k = .insert table entries ∧ k.Definite := by
  obtain ⟨name, entries, hname, hentries, rfl⟩ := insertion_ok h
  obtain ⟨rfl, plain⟩ := Filter.checkedName_eq_ok hname
  refine ⟨entries, hentries, rfl, .insert plain (names_cells hentries).2 ?_⟩
  obtain ⟨s, -, hs⟩ := (get?_cells hentries Record.key).2 id hid
  rintro rfl
  cases hs

theorem cells_ne_nil (hdata : data.hasAssignments = true)
    (h : cells (data.erase Record.key) = .ok entries) : entries ≠ [] := by
  obtain ⟨hnames, -⟩ := names_cells h
  obtain ⟨e, he, hne⟩ := List.any_eq_true.mp hdata
  have hmem : e.1 ∈ Entries.names (data.erase Record.key) :=
    List.mem_map_of_mem (List.mem_filter.mpr ⟨he, hne⟩)
  rintro rfl
  rw [← hnames] at hmem
  cases hmem

theorem assignment_cells {cs : List Condition} (h : assignment table data cs = .ok k) :
    ∃ entries, cells (data.erase Record.key) = .ok entries ∧ k = .update table entries cs ∧
      PlainName table.toList ∧ (∀ cell ∈ entries, PlainName cell.1.toList) ∧ entries ≠ [] := by
  obtain ⟨name, hname, hset⟩ := bind_eq_ok.mp h
  obtain ⟨rfl, plain⟩ := Filter.checkedName_eq_ok hname
  split at hset
  · next hdata =>
    obtain ⟨entries, hentries, hset⟩ := bind_eq_ok.mp hset
    cases hset
    exact ⟨entries, hentries, rfl, plain, (names_cells hentries).2, cells_ne_nil hdata hentries⟩
  · cases hset

theorem assignment_definite {s : Scalar} (h : assignment table data (Condition.keyed s) = .ok k) :
    ∃ entries, cells (data.erase Record.key) = .ok entries ∧
      k = .update table entries (Condition.keyed s) ∧ k.Definite := by
  obtain ⟨entries, hentries, rfl, plain, names, some⟩ := assignment_cells h
  exact ⟨entries, hentries, rfl, .update plain names some s⟩

end Command

theorem Value.isNull_of_toScalar {v : Value} {s : Scalar} {field : String}
    (h : v.toScalar field = .ok s) : s.isNull = v.isNull := by
  cases v with
  | real x =>
    rw [toScalar] at h
    split at h
    · cases h
      rfl
    · cases h
  | array | object => cases h
  | _ =>
    cases h
    rfl

namespace Record

variable {data : Record}

theorem identity_of_get? (fresh : String) {v : Value} (h : Entries.get? data key = some v)
    (hv : v.isNull = false) : (data.identified fresh).1 = v := by
  rw [identified, h]
  simp only [hv, Bool.false_eq_true, if_false]

theorem identity_of_null (fresh : String)
    (h : ∀ v, Entries.get? data key = some v → v.isNull = true) :
    (data.identified fresh).1 = .text fresh := by
  rw [identified]
  split
  · next v hv => rw [if_pos (h v hv)]
  · rfl

end Record

namespace Entries

variable {data : Record}

theorem get?_identified_of_ne (fresh : String) (data : Record) {name : String}
    (h : name ≠ Record.key) : get? (data.identified fresh).2 name = get? data name := by
  rw [Record.identified]
  split
  · split
    · exact get?_set_of_ne data _ h
    · rfl
  · rw [get?_cons, if_neg h]

theorem Distinct.identified (distinct : Distinct data) (fresh : String) :
    Distinct (data.identified fresh).2 := by
  rw [Record.identified]
  split
  · split
    · exact distinct.set _ _
    · exact distinct
  · next hnone =>
    refine List.nodup_cons.mpr ⟨fun hmem => ?_, distinct⟩
    obtain ⟨e, he, hname⟩ := List.mem_map.mp hmem
    obtain ⟨v, hv⟩ := exists_get?_of_mem he
    rw [hname, hnone] at hv
    cases hv

/-! The data of a row that is added where none is found: those that were given for it, the values
that it was looked up by, and its identity. -/

section

variable {create keys : Record} {fresh field : String} {v : Value}

theorem get?_identified_of_present (present : v.isNull = false) (h : get? data field = some v) :
    get? (data.identified fresh).2 field = some v := by
  by_cases hne : field = Record.key
  · rw [hne] at h ⊢
    rw [get?_identified, Record.identity_of_get? fresh h present]
  · rw [get?_identified_of_ne fresh data hne, h]

theorem get?_required (present : v.isNull = false) (h : get? keys.reverse field = some v) :
    get? (Record.identified fresh (extend create keys)).2 field = some v := by
  refine get?_identified_of_present present ?_
  rw [get?_extend, h, Option.some_or]

theorem get?_created (hnone : get? keys.reverse field = none) (h : get? create field = some v)
    (present : v.isNull = false ∨ field ≠ Record.key) :
    get? (Record.identified fresh (extend create keys)).2 field = some v := by
  have hget : get? (extend create keys) field = some v := by
    rw [get?_extend, hnone, h, Option.none_or]
  rcases present with present | hne
  · exact get?_identified_of_present present hget
  · exact (get?_identified_of_ne fresh _ hne).trans hget

theorem get?_generated (hnone : get? keys.reverse Record.key = none)
    (hnull : ∀ v, get? create Record.key = some v → v.isNull = true) :
    get? (Record.identified fresh (extend create keys)).2 Record.key = some (.text fresh) := by
  rw [get?_identified, Record.identity_of_null fresh fun v hv => hnull v ?_]
  rwa [get?_extend, hnone, Option.none_or] at hv

theorem get?_left_out (hne : field ≠ Record.key) (hkeys : get? keys.reverse field = none)
    (hcreate : get? create field = none) :
    get? (Record.identified fresh (extend create keys)).2 field = none := by
  rw [get?_identified_of_ne fresh _ hne, get?_extend, hkeys, hcreate, Option.none_or]

end

end Entries

theorem Filter.isNull_of_mem_equalities {f : Filter} {field : String} {v : Value}
    (h : (field, v) ∈ f.equalities) : v.isNull = false := by
  obtain ⟨node, -, hnode⟩ := List.mem_filterMap.mp h
  split at hnode
  · split at hnode
    · cases hnode
    · next hv =>
      cases hnode
      exact Bool.eq_false_iff.mpr hv
  · cases hnode

namespace Definition

/-- A cell of a row is what its column keeps of a value. -/
def Holds (d : Definition) (row : Row) (field : String) (v : Value) : Prop :=
  ∃ s, v.toScalar field = .ok s ∧ d.cell row field = (d.affinity field).store s

/-- A row with some data in the place of an old one. It keeps the identity, and every other
cell that the data do not speak of. -/
structure Updates (d : Definition) (data : Record) (old new : Row) : Prop where
  identity : d.cell new Record.key = d.cell old Record.key
  given : ∀ field v, field ≠ Record.key → Entries.get? data field = some v → d.Holds new field v
  kept : ∀ c ∈ d.columns, Entries.get? data c.name = none → d.cell new c.name = d.cell old c.name

/-- A new row with some data, and otherwise by default. A null for the column of the numbers
leaves the number to the store. -/
structure Fills (d : Definition) (now : String) (data : Record) (new : Row) : Prop where
  given : ∀ field v, Entries.get? data field = some v → v.isNull = false ∨ d.isKey field = false →
    d.Holds new field v
  default : ∀ c ∈ d.columns, Entries.get? data c.name = none → d.isKey c.name = false →
    d.cell new c.name = c.initially now

/-- The row that is added where none meets a filter: with the values that the filter requires,
else with those of some data, with a fresh identity if neither has one, and otherwise by
default. -/
structure Seeds (d : Definition) (now fresh : String) (f : Filter) (create : Record)
    (new : Row) : Prop where
  required : ∀ field v, Entries.get? f.equalities.reverse field = some v → d.Holds new field v
  created : ∀ field v, Entries.get? f.equalities.reverse field = none →
    Entries.get? create field = some v →
    v.isNull = false ∨ field ≠ Record.key ∧ d.isKey field = false → d.Holds new field v
  identity : Entries.get? f.equalities.reverse Record.key = none →
    (∀ v, Entries.get? create Record.key = some v → v.isNull = true) →
    d.Holds new Record.key (.text fresh)
  default : ∀ c ∈ d.columns, Entries.get? f.equalities.reverse c.name = none →
    Entries.get? create c.name = none → c.name ≠ Record.key → d.isKey c.name = false →
    d.cell new c.name = c.initially now

variable {d : Definition} {data : Record} {entries : List (String × Scalar)}

theorem covers_cells (declared : ∀ name ∈ Entries.names data, ∃ c ∈ d.columns, c.name = name)
    (distinct : Entries.Distinct data) (h : Command.cells data = .ok entries) :
    d.Covers entries := by
  obtain ⟨hnames, -⟩ := Command.names_cells h
  constructor
  · intro e he
    exact declared e.1 (hnames ▸ List.mem_map_of_mem he)
  · rw [Entries.Distinct, hnames]
    exact distinct

/-- The cells of changed rows in terms of the data. -/
theorem Puts.updates {old new : Row} (puts : d.Puts entries old new) (regular : d.Regular)
    (identity : ∃ c ∈ d.columns, c.name = Record.key)
    (declared : ∀ name ∈ Entries.names data, ∃ c ∈ d.columns, c.name = name)
    (h : Command.cells (data.erase Record.key) = .ok entries) : d.Updates data old new := by
  have hkey := (Command.get?_cells h Record.key).1 (Entries.get?_erase_self data Record.key)
  obtain ⟨k, hk, hname⟩ := identity
  constructor
  · rw [← hname]
    exact puts.kept k hk (hname ▸ hkey)
  · intro field v hne hv
    obtain ⟨c, hc, rfl⟩ := declared field (List.mem_map_of_mem (Entries.mem_of_get? hv))
    rw [← Entries.get?_erase_of_ne data hne] at hv
    obtain ⟨s, hs, hentry⟩ := (Command.get?_cells h c.name).2 v hv
    rw [Holds, regular.affinity_of_mem hc]
    exact ⟨s, hs, puts.given c hc s hentry⟩
  · intro c hc hnone
    refine puts.kept c hc ?_
    by_cases hkeyname : c.name = Record.key
    · rw [hkeyname]
      exact hkey
    · rw [← Entries.get?_erase_of_ne data hkeyname] at hnone
      exact (Command.get?_cells h c.name).1 hnone

/-- The cells of an added row in terms of what it was added for. -/
theorem Fills.seeds {now fresh : String} {f : Filter} {create : Record} {new : Row}
    (fills : d.Fills now (Record.identified fresh (Entries.extend create f.equalities)).2 new) :
    d.Seeds now fresh f create new := by
  constructor
  · intro field v hv
    have hnull := Filter.isNull_of_mem_equalities
      (List.mem_reverse.mp (Entries.mem_of_get? hv))
    exact fills.given field v (Entries.get?_required hnull hv) (.inl hnull)
  · intro field v hnone hv hnull
    refine fills.given field v (Entries.get?_created hnone hv (hnull.imp_right And.left)) ?_
    exact hnull.imp_right And.right
  · intro hnone hnull
    exact fills.given _ _ (Entries.get?_generated hnone hnull) (.inl rfl)
  · intro c hc hrequired hcreated hne hnumber
    exact fills.default c hc (Entries.get?_left_out hne hrequired hcreated) hnumber

theorem fills_newRow (regular : d.Regular)
    (declared : ∀ name ∈ Entries.names data, ∃ c ∈ d.columns, c.name = name)
    (distinct : Entries.Distinct data) (h : Command.cells data = .ok entries) {rows : List Row}
    {number : Int} (hnumber : d.newNumber rows entries = .ok number) (now : String) :
    d.Fills now data (d.newRow now number entries) := by
  have covers := covers_cells declared distinct h
  constructor
  · intro field v hv hnull
    obtain ⟨c, hc, rfl⟩ := declared field (List.mem_map_of_mem (Entries.mem_of_get? hv))
    obtain ⟨s, hs, hentry⟩ := (Command.get?_cells h c.name).2 v hv
    rw [← Value.isNull_of_toScalar hs] at hnull
    rw [Holds, regular.affinity_of_mem hc]
    exact ⟨s, hs, cell_newRow_given regular covers hnumber hc hentry hnull now⟩
  · intro c hc hnone hkey
    exact cell_newRow_default regular covers hc ((Command.get?_cells h c.name).1 hnone) hkey now
      number

end Definition

end Relata
