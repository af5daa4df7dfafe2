import Relata.Proofs.Model.Following
import Relata.Proofs.Model.SingleRow
import Relata.Proofs.Store.Located
import Relata.Proofs.Store.Places

/-! # Writing what was located

A table need not tell its rows apart. A removal or an update that located a row goes by the
identity of the row, and so to all rows that have it; where the row has none, it goes by the
filter again, and so to all rows that the filter holds of. What an update answers is read by the
same, after the write.
-/

namespace Relata

open Text

namespace Model

variable {m : Model} {c d : Connection} {s u : Session} {t : Table} {f : Filter} {r : Row}
  {cs : List Condition}

theorem mem_namesakes_of_record {old : Row} (regular : t.Regular)
    (identifies : t.definition.Identifies old) (hr : r ∈ t.namesakes old) {r' : Row}
    (hr' : r' ∈ t.rows) (h : t.definition.record r' = t.definition.record r) :
    r' ∈ t.namesakes old := by
  obtain ⟨c, hc, hname⟩ := identifies.column
  obtain ⟨hmem, heq⟩ := List.mem_filter.mp hr
  have hcell := regular.regular.cell_of_record hc (regular.fits r' hr') (regular.fits r hmem) h
  rw [hname] at hcell
  exact List.mem_filter.mpr ⟨hr', by rw [hcell]; exact heq⟩

/-- The conditions of a row that was located choose the rows that are meant. -/
theorem chosen_locator (db : Database) (regular : t.Regular) (hr : r ∈ t.rows)
    (hcs : Filter.conditions ((t.definition.record r).locator f) = .ok cs) :
    db.chosen t cs = db.meant t f r := by
  have fits := regular.fits r hr
  rw [Database.meant]
  split
  · next identifies =>
    rw [identifies.locator_record regular.regular fits] at hcs
    rw [Filter.conditions_keyed identifies.present hcs]
    exact db.chosen_keyed regular hr identifies
  · next anonymous =>
    rw [Definition.locator_record_of_not anonymous regular.regular fits] at hcs
    exact List.filter_congr fun row _ => Filter.selects_conditions hcs _ row

/-- A command by the conditions of a row that was located is carried out as it stands, if it is
by those of an identity, and if it is where no name of it is a keyword. -/
theorem literal_locator (regular : t.Regular) (hr : r ∈ t.rows)
    (hcs : Filter.conditions ((t.definition.record r).locator f) = .ok cs)
    {k : List Condition → Command} (definite : ∀ s, (k (Condition.keyed s)).Definite)
    (free : ¬ t.definition.Identifies r → (∀ name ∈ m.table :: Condition.columnsOfAll cs,
      Sql.isKeyword name.toList = false) → ∀ name ∈ (k cs).names, Sql.isKeyword name.toList = false)
    (clear : t.definition.Identifies r ∨ m.Unambiguous f) : (k cs).Literal := by
  have fits := regular.fits r hr
  by_cases identifies : t.definition.Identifies r
  · rw [identifies.locator_record regular.regular fits] at hcs
    rw [Filter.conditions_keyed identifies.present hcs]
    exact (definite _).literal
  · have names := clear.resolve_left identifies
    rw [Definition.locator_record_of_not identifies regular.regular fits] at hcs
    refine Command.literal_of_free (free identifies fun name hname => ?_)
    refine names.names hcs {} name ?_
    simpa [Command.names, Order.fields] using hname

theorem Finds.locates_row (finds : m.Finds s.site.connection f (some (t.definition.record r)))
    (reaches : s.Reaches m.handle) (ready : s.Ready) (hr : r ∈ t.rows)
    (holds : m.Unambiguous f →
      (Filter.truth (s.site.connection.database.frame t) r f).holds = true) :
    m.Locates s t f r :=
  ⟨hr, finds.run reaches ready.behind ready.isOpen, holds⟩

theorem Finds.locates_none (finds : m.Finds s.site.connection f none)
    (known : s.site.connection.database.table? m.table = some t) (reaches : s.Reaches m.handle)
    (ready : s.Ready) : m.LocatesNone s t f :=
  ⟨finds.run reaches ready.behind ready.isOpen, fun names _ hr => finds.holds_none known names hr⟩

/-- A connection finds one thing by a filter. -/
theorem Finds.unique {found found' : Option Record} (finds : m.Finds c f found)
    (finds' : m.Finds c f found') : found = found' := by
  obtain ⟨cs, a, hcs, ha, rfl⟩ := finds.answered
  obtain ⟨cs', a', hcs', ha', rfl⟩ := finds'.answered
  cases hcs.symm.trans hcs'
  cases ha.symm.trans ha'
  rfl

/-! ## Removals -/

inductive Removal (m : Model) (c : Connection) (t : Table) (f : Filter) :
    Option Record → Connection → Prop
  | missed (finds : m.Finds c f none) : Removal m c t f none c
  | removed {old : Row} {d : Connection} (mem : old ∈ t.rows)
      (finds : m.Finds c f (some (t.definition.record old)))
      (holds : m.Unambiguous f → (Filter.truth (c.database.frame t) old f).holds = true)
      (removes : t.definition.Identifies old ∨ m.Unambiguous f →
        c.database.Exchange t (c.database.meant t f old) [] d.database ∧
          d.changes = (c.database.meant t f old).length) :
      Removal m c t f (some (t.definition.record old)) d

theorem removal_of_deleteHeld {inner : Handle} (inside : inner.mode = .transaction)
    (regular : s.site.connection.database.Regular)
    (known : s.site.connection.database.table? m.table = some t)
    (uncascaded : s.site.connection.database.Uncascaded) (hb : s.behind = [])
    {result : Option Record}
    (hrun : s.run ((m.through inner).deleteHeld f).run = (.ok result, u)) :
    s.site.isOpen = true ∧ m.Removal s.site.connection t f result u.site.connection := by
  obtain ⟨found, v, hfind, hrest⟩ := Session.run_op_bind_ok hrun
  obtain ⟨finds, ⟨-, isOpen⟩, hv, -, hbv⟩ := findUnique_ok hb hfind
  refine ⟨isOpen, ?_⟩
  cases found with
  | none =>
    obtain ⟨rfl, rfl⟩ := Session.run_pure_ok hrest
    rw [hv]
    exact .missed finds.of_through
  | some record =>
    obtain ⟨old, hold, rfl, holds⟩ := finds.of_through.exists_row known
    obtain ⟨cs, hcs, hrest⟩ := Session.run_check_ok hrest
    obtain ⟨k, hk, hrest⟩ := Session.run_check_ok hrest
    obtain ⟨name, hname, rfl⟩ := Command.removal_ok hk
    obtain ⟨rfl, plain⟩ := Filter.checkedName_eq_ok hname
    obtain ⟨a, w, hperform, hdone⟩ := Session.run_op_bind_ok hrest
    obtain ⟨rfl, rfl⟩ := Session.run_pure_ok hdone
    obtain ⟨hanswer, hw, -, -⟩ := perform_ok inside hbv hperform
    rw [hv] at hanswer hw
    have htable := regular.tables t (Database.mem_of_table? known)
    refine .removed hold finds.of_through holds fun clear => ?_
    have literal := literal_locator htable hold hcs (k := Command.delete m.table) (.delete plain)
      (fun _ free => free) clear
    have hleft := Connection.remove_chosen literal known uncascaded hanswer
    have hchosen := chosen_locator s.site.connection.database htable hold hcs
    have hperm := s.site.connection.database.perm_chosen t cs
    rw [hchosen] at hleft hperm
    have hu : u.site.connection = _ := hw.trans hleft
    rw [hu]
    exact ⟨Database.exchange_setRows regular.distinct known hperm (.refl _), rfl⟩

theorem removal_of_delete (regular : s.site.connection.database.Regular)
    (known : s.site.connection.database.table? m.table = some t)
    (uncascaded : s.site.connection.database.Uncascaded) (hb : s.behind = [])
    {result : Option Record} (hrun : s.run (m.delete f).run = (.ok result, u)) :
    s.Reaches m.handle ∧ s.Ready ∧ m.Removal s.site.connection t f result u.site.connection := by
  rw [delete_eq] at hrun
  obtain ⟨_, -, hrun⟩ := Session.run_check_ok hrun
  obtain ⟨reaches, v, w, hv, hbv, hheld, hu, -⟩ := Session.run_hold_ok hrun
  rw [← hv] at regular known uncascaded
  obtain ⟨isOpen, removal⟩ :=
    removal_of_deleteHeld rfl regular known uncascaded (hbv.trans hb) hheld
  rw [hv, ← hu] at removal
  exact ⟨reaches, ⟨hv ▸ isOpen, hb⟩, removal⟩

def tagTable : Definition where
  name := "tags"
  columns := [{ name := "k", affinity := .text }, { name := "v", affinity := .integer }]

def threeTags : Table :=
  ⟨tagTable, [⟨1, [.text "a", .integer 1]⟩, ⟨2, [.text "a", .integer 2]⟩,
    ⟨3, [.text "b", .integer 3]⟩]⟩

def tagStore : Session :=
  .ofDatabase { tables := [threeTags] }

def tagModel : Model where
  table := "tags"
  handle := {}
  schema := .empty
  depthLimit := 3

def withKind (k : String) : Filter :=
  Filter.eq [] "k" (.text k)

def kindIs (k : String) : List Condition :=
  [.compare "k" .equal (.text k)]

theorem regular_tags : tagStore.site.connection.database.Regular where
  distinct := List.pairwise_singleton ..
  tables := List.forall_mem_singleton.mpr
    { regular :=
        { distinct := by decide
          integers := by decide
          defaults := List.forall_mem_cons.mpr
            ⟨fun _ => rfl, List.forall_mem_singleton.mpr fun _ => rfl⟩ }
      fits := by
        refine List.forall_mem_cons.mpr ⟨⟨rfl, by decide, by decide⟩, ?_⟩
        refine List.forall_mem_cons.mpr ⟨⟨rfl, by decide, by decide⟩, ?_⟩
        exact List.forall_mem_singleton.mpr ⟨rfl, by decide, by decide⟩ }

theorem uncascaded_tags : tagStore.site.connection.database.Uncascaded := by
  intro t ht r hr
  cases List.mem_singleton.mp ht
  cases hr

theorem anonymous_tags (row : Row) : ¬ tagTable.Identifies row := fun identifies => by
  have hnone : ¬ ∃ c ∈ tagTable.columns, c.name = Record.key := by decide
  exact hnone identifies.column

theorem unambiguous_kind (k : String) : tagModel.Unambiguous (withKind k) := by
  intro name hname
  have hname : name ∈ ["tags", "k"] := by
    rwa [withKind, Filter.fields_eq] at hname
  have free : ∀ name ∈ ["tags", "k"], Sql.isKeyword name.toList = false := by decide
  exact free name hname

theorem finds_kind {c : Connection} {k : String} {a : Answer}
    (h : (c.execute (.query .everything "tags" (kindIs k) [] { take := some 1 })).1 = .ok a) :
    tagModel.Finds c (withKind k) a.rows.head? :=
  ⟨checkFilter_eq rfl rfl, isPlainName_iff.mp rfl, _, a, rfl, h, rfl⟩

theorem findUnique_kind :
    ∃ r ∈ threeTags.rows, (tagStore.run (tagModel.findUnique { filter := withKind "a" }).run).1 =
      .ok (some (tagTable.record r)) := by
  let k := Command.query .everything "tags" (kindIs "a") [] { take := some 1 }
  obtain ⟨a, ha⟩ : ∃ a, (tagStore.site.connection.execute k).1 = .ok a := ⟨_, rfl⟩
  have literal : k.Literal := Command.literal_of_free
    (show ∀ name ∈ ["tags", "k"], Sql.isKeyword name.toList = false by decide)
  rcases Connection.head_chosen (t := threeTags) literal rfl ha with ⟨hnone, -⟩ | ⟨r, hr, hhead⟩
  · exact absurd (congrArg List.length hnone) (Nat.succ_ne_zero 1)
  · refine ⟨r, List.mem_of_mem_filter hr, ?_⟩
    rw [(finds_kind ha).run (.inr rfl) rfl rfl, hhead]
    rfl

theorem locator_kind (hr : r ∈ threeTags.rows) (k : String) :
    (tagTable.record r).locator (withKind k) = withKind k := by
  have regular := regular_tags.tables threeTags List.mem_cons_self
  exact Definition.locator_record_of_not (anonymous_tags r) regular.regular (regular.fits r hr) _

theorem conditions_kind (hr : r ∈ threeTags.rows) (k : String) :
    Filter.conditions ((tagTable.record r).locator (withKind k)) = .ok (kindIs k) := by
  rw [locator_kind hr]
  rfl

theorem run_delete_kind :
    ∃ r ∈ threeTags.rows, (tagStore.run (tagModel.delete (withKind "a")).run).1 =
      .ok (some (tagTable.record r)) := by
  obtain ⟨r, hr, hfound⟩ := findUnique_kind
  exact ⟨r, hr, delete_some rfl hfound (conditions_kind hr "a") rfl rfl⟩

/-- A removal answers the row that it located, and removes the rows that have the identity of
this row or, if it has none, all rows that the filter holds of. It answers none only if it
located none, and then it removes nothing. -/
theorem delete_removes_meant (regular : s.site.connection.database.Regular)
    (known : s.site.connection.database.table? m.table = some t)
    (uncascaded : s.site.connection.database.Uncascaded) (hb : s.behind = [])
    {result : Option Record} (hrun : s.run (m.delete f).run = (.ok result, u)) :
    (m.LocatesNone s t f ∧ result = none ∧ u.site.connection = s.site.connection) ∨
      ∃ old, m.Locates s t f old ∧ result = some (t.definition.record old) ∧
        (t.definition.Identifies old ∨ m.Unambiguous f →
          old ∈ s.site.connection.database.meant t f old ∧
          s.site.connection.database.Exchange t (s.site.connection.database.meant t f old) []
            u.site.connection.database ∧
          u.site.connection.changes = (s.site.connection.database.meant t f old).length) := by
  obtain ⟨reaches, ready, removal⟩ := removal_of_delete regular known uncascaded hb hrun
  generalize u.site.connection = d at removal
  cases removal with
  | missed finds => exact .inl ⟨finds.locates_none known reaches ready, rfl, rfl⟩
  | @removed old _ mem finds holds removes =>
    refine .inr ⟨old, finds.locates_row reaches ready mem holds, rfl, fun clear => ?_⟩
    refine ⟨Database.mem_meant mem fun anonymous => ?_, removes clear⟩
    exact holds (clear.resolve_left anonymous)

theorem delete_removes_meant_kind :
    ∃ old u, tagStore.run (tagModel.delete (withKind "a")).run =
        (.ok (some (tagTable.record old)), u) ∧
      old ∈ tagStore.site.connection.database.meant threeTags (withKind "a") old ∧
      tagStore.site.connection.database.Exchange threeTags
        (tagStore.site.connection.database.meant threeTags (withKind "a") old) []
        u.site.connection.database := by
  obtain ⟨r, -, hanswer⟩ := run_delete_kind
  have hrun : tagStore.run (tagModel.delete (withKind "a")).run = (_, _) := Prod.ext hanswer rfl
  rcases delete_removes_meant regular_tags (t := threeTags) rfl uncascaded_tags rfl hrun with
    ⟨-, hnone, -⟩ | ⟨old, -, hold, removes⟩
  · cases hnone
  · rw [hold] at hrun
    obtain ⟨hmem, exchange, -⟩ := removes (.inr (unambiguous_kind "a"))
    exact ⟨old, _, hrun, hmem, exchange⟩

/-- A removal that answers one row may have removed several. -/
theorem delete_removes_several :
    ∃ record u, tagStore.run (tagModel.delete (withKind "a")).run = (.ok (some record), u) ∧
      tagStore.site.connection.database.rowCount = 3 ∧ u.site.connection.database.rowCount = 1 := by
  obtain ⟨r, -, hanswer⟩ := run_delete_kind
  obtain ⟨u, hrun⟩ : ∃ u, tagStore.run (tagModel.delete (withKind "a")).run =
      (.ok (some (tagTable.record r)), u) := ⟨_, Prod.ext hanswer rfl⟩
  obtain ⟨-, -, removal⟩ := removal_of_delete regular_tags (t := threeTags) rfl uncascaded_tags rfl
    hrun
  refine ⟨_, _, hrun, rfl, ?_⟩
  generalize u.site.connection = d at removal ⊢
  generalize hresult : some (tagTable.record r) = result at removal
  cases removal with
  | missed finds => cases hresult
  | @removed old _ mem _ _ removes =>
    have hchosen := chosen_locator tagStore.site.connection.database
      (regular_tags.tables threeTags List.mem_cons_self) mem (conditions_kind mem "a")
    have hcount := (removes (.inr (unambiguous_kind "a"))).1.rowCount
    rw [← hchosen] at hcount
    exact Nat.add_right_cancel (m := 2) hcount

end Model

end Relata
