import Relata.Proofs.Model.Located
import Relata.Proofs.Model.Retained
import Relata.Proofs.Store.Sought

/-! # Rows that an upsert adds

Where an upsert finds no row with the values that a filter requires, it adds one that has them,
whatever else is said for their fields. If the store recalls the values, the row is found from then
on, so that no further upsert by the same filter adds another one as long as the values are left.
-/

namespace Relata

open Text

namespace Entries

variable {α : Type} {entries : Entries α} {name : String}

theorem get?_eq_none (h : name ∉ names entries) : get? entries name = none := by
  cases hget : get? entries name with
  | none => rfl
  | some a => exact absurd (List.mem_map_of_mem (mem_of_get? hget)) h

theorem get?_reverse_eq_none (h : name ∉ names entries) : get? entries.reverse name = none :=
  get?_eq_none (by rwa [names, List.map_reverse, List.mem_reverse])

theorem get?_reverse_of_mem (distinct : Distinct entries) {a : α} (h : (name, a) ∈ entries) :
    get? entries.reverse name = some a :=
  get?_of_mem (((List.reverse_perm entries).map Prod.fst).nodup_iff.mpr distinct)
    (List.mem_reverse.mpr h)

theorem mem_names_of_identified {fresh : String} {create keys : Record}
    (h : name ∈ names (Record.identified fresh (extend create keys)).2) :
    name ∈ Record.key :: (names keys ++ names create) := by
  by_contra hnone
  simp only [List.mem_cons, List.mem_append, not_or] at hnone
  obtain ⟨hkey, hkeys, hcreate⟩ := hnone
  obtain ⟨e, he, rfl⟩ := List.mem_map.mp h
  obtain ⟨v, hv⟩ := exists_get?_of_mem he
  rw [get?_left_out hkey (get?_reverse_eq_none hkeys) (get?_eq_none hcreate)] at hv
  cases hv

end Entries

namespace Command

theorem exists_of_mem_cells {data : Record} {cells : List (String × Scalar)}
    (h : Command.cells data = .ok cells) {cell : String × Scalar} (hcell : cell ∈ cells) :
    ∃ v, (cell.1, v) ∈ data ∧ v.toScalar cell.1 = .ok cell.2 := by
  induction data generalizing cells with
  | nil =>
    cases h
    cases hcell
  | cons e data ih =>
    obtain ⟨-, s, cs, hs, hcs, rfl⟩ := cells_cons.mp h
    rcases List.mem_cons.mp hcell with rfl | hcell
    · exact ⟨e.2, List.mem_cons_self, hs⟩
    · obtain ⟨v, hv, hscalar⟩ := ih hcs hcell
      exact ⟨v, List.mem_cons_of_mem _ hv, hscalar⟩

end Command

namespace Filter

def requiring (keys : Record) : Filter :=
  keys.map fun e => .test e.1 (.compare .equal e.2)

variable {keys : Record}

theorem equalities_requiring (present : ∀ e ∈ keys, e.2.isNull = false) :
    (requiring keys).equalities = keys := by
  induction keys with
  | nil => rfl
  | cons e keys ih =>
    obtain ⟨he, hkeys⟩ := List.forall_mem_cons.mp present
    have hrest := ih hkeys
    rw [requiring, equalities] at hrest ⊢
    rw [List.map_cons, List.filterMap_cons]
    simp only [he, Bool.false_eq_true, if_false, hrest]

theorem conditions_requiring (present : ∀ e ∈ keys, e.2.isNull = false) {cs : List Condition}
    (h : conditions (requiring keys) = .ok cs) :
    ∃ cells, Command.cells keys = .ok cells ∧ cs = Condition.equals cells := by
  induction keys generalizing cs with
  | nil =>
    cases h
    exact ⟨[], rfl, rfl⟩
  | cons e keys ih =>
    obtain ⟨he, hkeys⟩ := List.forall_mem_cons.mp present
    obtain ⟨plain, c, ds, hc, hds, rfl⟩ := conditions_test h
    obtain ⟨cells, hcells, rfl⟩ := ih hkeys hds
    obtain ⟨s, hs, rfl⟩ := Test.condition_equal he hc
    exact ⟨(e.1, s) :: cells, Command.cells_cons.mpr ⟨plain, s, cells, hs, hcells, rfl⟩, rfl⟩

end Filter

/-! ## What the row has -/

namespace Definition

variable {d : Definition} {keys create : Record} {fresh now : String} {new : Row}
  {cells : List (String × Scalar)}

/-- Whether a row has in the place of a field what the place keeps of a value. -/
def Keeps (d : Definition) (row : Row) (field : String) (v : Value) : Prop :=
  ∃ s, v.toScalar field = .ok s ∧ d.inPlace row field = (d.affinityIn field).store s

/-- The row that is added where none has some required values: it keeps them, else some other data,
with a fresh identity if neither has one, and otherwise it is by default. A null for the number
of the row leaves the number to the store. -/
structure Supplies (d : Definition) (now fresh : String) (keys create : Record) (new : Row) :
    Prop where
  required : ∀ field v, (field, v) ∈ keys → d.Keeps new field v
  created : ∀ field v, field ∉ Entries.names keys → (field, v) ∈ create →
    v.isNull = false ∨ field ≠ Record.key ∧ d.isNumber field = false → d.Keeps new field v
  identity : Record.key ∉ Entries.names keys →
    (∀ v, (Record.key, v) ∈ create → v.isNull = true) → d.Keeps new Record.key (.text fresh)
  default : ∀ c ∈ d.columns,
    (∀ name ∈ Record.key :: (Entries.names keys ++ Entries.names create),
      ¬ d.SamePlace name c.name) →
    d.isKey c.name = false → d.cell new c.name = c.initially now

/-- Values that a row is looked up by, and data for a row that has them. No two names stand for
the same place, and where the store compares a field with the value that was just stored in it,
the two are equal. -/
structure Recalls (d : Definition) (keys create : Record) : Prop where
  distinct : Entries.Distinct keys
  present : ∀ e ∈ keys, e.2.isNull = false
  created : Entries.Distinct create
  apart : d.Apart (Record.key :: (Entries.names keys ++ Entries.names create))
  recalled : ∀ field v s, (field, v) ∈ keys → v.toScalar field = .ok s → d.IsRecalled field s

namespace Recalls

variable (recalls : d.Recalls keys create)

include recalls

theorem scatters
    (hcells : Command.cells (Record.identified fresh (Entries.extend create keys)).2 = .ok cells)
    (held : ∀ e ∈ cells, d.holds e.1 = true) : d.Scatters cells := by
  obtain ⟨hnames, -⟩ := Command.names_cells hcells
  have distinct := (recalls.created.extend keys).identified fresh
  refine ⟨by rwa [Entries.Distinct, hnames], ?_, held⟩
  rw [hnames]
  exact fun a ha b hb => recalls.apart a (Entries.mem_names_of_identified ha) b
    (Entries.mem_names_of_identified hb)

theorem supplies (regular : d.Regular)
    (hcells : Command.cells (Record.identified fresh (Entries.extend create keys)).2 = .ok cells)
    (held : ∀ e ∈ cells, d.holds e.1 = true) {rows : List Row} {number : Int}
    (hnumber : d.newNumber rows cells = .ok number) (now : String) :
    d.Supplies now fresh keys create (d.newRow now number cells) := by
  have scatters := recalls.scatters hcells held
  have keeps {field : String} {v : Value}
      (hv : Entries.get? (Record.identified fresh (Entries.extend create keys)).2 field = some v)
      (present : v.isNull = false ∨ d.isNumber field = false) :
      d.Keeps (d.newRow now number cells) field v := by
    obtain ⟨s, hs, hget⟩ := (Command.get?_cells hcells field).2 v hv
    rw [← Value.isNull_of_toScalar hs] at present
    exact ⟨s, hs, scatters.inPlace_newRow (Entries.mem_of_get? hget) regular hnumber present now⟩
  constructor
  · intro field v hmem
    have hget := Entries.get?_reverse_of_mem recalls.distinct hmem
    have hv := recalls.present _ hmem
    exact keeps (Entries.get?_required hv hget) (.inl hv)
  · intro field v hfield hmem present
    have hget := Entries.get?_of_mem recalls.created hmem
    refine keeps (Entries.get?_created (Entries.get?_reverse_eq_none hfield) hget ?_) ?_
    · exact present.imp_right And.left
    · exact present.imp_right And.right
  · intro hfield hnull
    exact keeps (Entries.get?_generated (Entries.get?_reverse_eq_none hfield)
      fun v hv => hnull v (Entries.mem_of_get? hv)) (.inl rfl)
  · intro c hc apart hkey
    refine cell_newRow_initially regular hc (fun e he => apart e.1 ?_) hkey now number
    apply Entries.mem_names_of_identified
    rw [← (Command.names_cells hcells).1]
    exact List.mem_map_of_mem he

theorem selects (supplies : d.Supplies now fresh keys create new)
    (hcells : Command.cells keys = .ok cells) {f : Frame} (hf : f.definition = d) {row : Row}
    (same : ∀ field ∈ Entries.names keys, f.scalar row field = f.scalar new field) :
    Condition.selects f (Condition.equals cells) row = true := by
  refine Condition.selects_equals.mpr fun cell hcell => ?_
  obtain ⟨v, hv, hscalar⟩ := Command.exists_of_mem_cells hcells hcell
  obtain ⟨s, hs, hkept⟩ := supplies.required _ v hv
  cases hscalar.symm.trans hs
  rw [same _ (List.mem_map_of_mem hv)]
  exact recalls.recalled _ v _ hv hscalar f new hf hkept

end Recalls

end Definition

namespace Model

variable {m : Model} {c d : Connection} {s u : Session} {t : Table} {f : Filter}
  {keys create update record : Record} {fresh : String} {cells sought : List (String × Scalar)}
  {number : Int}

section

variable {data : Record} (inserts : m.Inserts c d t data cells number)
  (known : c.database.table? m.table = some t)

include inserts known

theorem Inserts.table? : d.database.table? m.table = some { t with
    rows := Definition.place t.rows (t.definition.newRow c.database.now number cells) } := by
  rw [inserts.left]
  exact Database.table?_setRows known _

theorem Inserts.regular (regular : c.database.Regular) : d.database.Regular := by
  have htable := regular.tables t (Database.mem_of_table? known)
  rw [inserts.left]
  refine regular.setRows known fun row hrow => ?_
  rcases List.mem_cons.mp ((Database.perm_place _ _).mem_iff.mp hrow) with rfl | hrow
  · exact Definition.fits_newRow htable.regular _ number
  · exact htable.fits row hrow

end

/-! ## How the row is found -/

theorem Inserts.only
    (inserts : m.Inserts c d t (Record.identified fresh (Entries.extend create keys)).2 cells
      number)
    (recalls : t.definition.Recalls keys create) (named : PlainName m.table.toList)
    (hsought : Command.cells keys = .ok sought) {k : Command}
    (h : Sql.read (Command.seek m.table sought).statement = .ok (some k)) :
    k = .seek m.table sought := by
  obtain ⟨a, hexecuted⟩ := inserts.executed
  have free := Connection.free_of_execute_insert inserts.definite (congrArg Prod.fst hexecuted)
  refine Command.seek_of_read named (Command.names_cells hsought).2 (fun cell hcell => ?_) h
  obtain ⟨v, hv, -⟩ := Command.exists_of_mem_cells hsought hcell
  have hget := Entries.get?_reverse_of_mem recalls.distinct hv
  have hwritten : Entries.get? (Record.identified fresh (Entries.extend create keys)).2 cell.1 =
      some v := Entries.get?_required (recalls.present _ hv) hget
  obtain ⟨s, -, hs⟩ := (Command.get?_cells inserts.given cell.1).2 v hwritten
  exact free _ (List.mem_cons_of_mem _ (List.mem_map.mpr ⟨_, Entries.mem_of_get? hs, rfl⟩))

/-- Where nothing is found by some values, the row that is inserted for them is found by them. -/
theorem Inserts.finds
    (inserts : m.Inserts c d t (Record.identified fresh (Entries.extend create keys)).2 cells
      number)
    (regular : t.definition.Regular) (recalls : t.definition.Recalls keys create)
    (known : c.database.table? m.table = some t)
    (finds : m.Finds c (Filter.requiring keys) none) :
    m.Finds d (Filter.requiring keys)
      (some (t.definition.record (t.definition.newRow c.database.now number cells))) := by
  obtain ⟨cs, a, hcs, hanswer, hnone⟩ := finds.answered
  obtain ⟨sought, hsought, rfl⟩ := Filter.conditions_requiring recalls.present hcs
  have only (k : Command) := inserts.only (k := k) recalls finds.plain hsought
  have literal := Command.literal_of_only rfl only
  have supplies := recalls.supplies regular inserts.given inserts.held inserts.numbered
    c.database.now
  let new := t.definition.newRow c.database.now number cells
  let rows := Definition.place t.rows new
  have hold : t.rows.filter (Condition.selects (c.database.frame t) (Condition.equals sought)) =
      [] := by
    rcases Connection.head_chosen literal known hanswer with ⟨hchosen, -⟩ | ⟨r, -, hr⟩
    · exact hchosen
    · cases hnone.trans hr
  have hnew : rows.filter (Condition.selects ((c.database.setRows m.table rows).frame
      { t with rows }) (Condition.equals sought)) = [new] := by
    have hselects : Condition.selects (c.database.frame t) (Condition.equals sought) new = true :=
      recalls.selects supplies hsought rfl fun _ _ => rfl
    have hperm := (Database.perm_place t.rows new).filter
      (Condition.selects (c.database.frame t) (Condition.equals sought))
    rw [List.filter_cons_of_pos hselects, hold] at hperm
    exact hperm.eq_singleton
  obtain ⟨records, hrecords⟩ :=
    Database.query_setRows known (Connection.query_of_run? (literal c a hanswer)) rows
  have hfound := Database.query_row (Database.table?_setRows known rows) hnew hrecords
  have hleft : d.database = c.database.setRows m.table rows :=
    congrArg Connection.database inserts.left
  rw [← hleft] at hrecords
  refine ⟨finds.checked, finds.plain, _, _, hcs, Connection.exists_answer only hanswer hrecords, ?_⟩
  rw [hfound]
  rfl

theorem upsert_inserts (known : s.site.connection.database.table? m.table = some t)
    (hb : s.behind = []) (missed : (s.run (m.findUnique { filter := f }).run).1 = .ok none)
    (hrun : s.run (m.upsert fresh f create update).run = (.ok record, u)) :
    ∃ cells number, m.Inserts s.site.connection u.site.connection t
      (Record.identified fresh (Entries.extend create f.equalities)).2 cells number := by
  obtain ⟨finds, -⟩ := findUnique_ok hb (Prod.ext missed rfl)
  rw [upsert_eq] at hrun
  obtain ⟨-, v, w, hv, hbv, hheld, hu, -⟩ := Session.run_hold_ok hrun
  obtain ⟨found, v', hfind, hrest⟩ := Session.run_op_bind_ok hheld
  obtain ⟨finds', -, hv', -, hbv'⟩ := findUnique_ok (hbv.trans hb) hfind
  rw [hv] at finds' hv'
  obtain rfl := finds'.of_through.unique finds
  rw [← hv'] at known
  obtain ⟨cells, number, inserts, -⟩ :=
    create_inserts (m := m.through m.handle.inside) known rfl hbv' hrest
  rw [hv', ← hu] at inserts
  exact ⟨cells, number, inserts.checked, inserts.given, inserts.definite, inserts.executed,
    inserts.held, inserts.numbered, inserts.left⟩

/-! ## Further upserts -/

/-- What an upsert is given besides its filter, and the identity that is fresh for it. -/
structure Provision where
  fresh : String
  create : Record
  update : Record

def upserts (m : Model) (f : Filter) (s : Session) (calls : List Provision) : Session :=
  calls.foldl (fun s p => (s.run (m.upsert p.fresh f p.create p.update).run).2) s

theorem follows_upserts {R : Connection → Connection → Prop} (hR : ∀ c, R c c)
    (trans : ∀ {c d e}, R c d → R d e → R c e) {calls : List Provision}
    (each : ∀ p ∈ calls, ∀ job, m.Assigns p.update job → ∀ c : Connection,
      R c (c.perform job).2)
    (hb : s.behind = [])
    (found : ∀ u, s.Follows R u → (u.run (m.findUnique { filter := f }).run).1 ≠ .ok none) :
    s.Follows R (m.upserts f s calls) := by
  induction calls generalizing s with
  | nil => exact .refl hR hb
  | cons p calls ih =>
    obtain ⟨hp, hcalls⟩ := List.forall_mem_cons.mp each
    have first : s.Follows R (s.run (m.upsert p.fresh f p.create p.update).run).2 :=
      follows_upsert hR trans hp hb p.fresh (found s (.refl hR hb))
    exact first.trans trans (ih hcalls first.behind fun u hu => found u (first.trans trans hu))

/-- A row that was added for some values is found by them for as long as they are left. -/
theorem found_of_retains (recalls : t.definition.Recalls keys create) {now : String} {new : Row}
    (supplies : t.definition.Supplies now fresh keys create new) (hnew : new ∈ t.rows)
    (regular : s.site.connection.database.Regular)
    (known : s.site.connection.database.table? m.table = some t)
    (literal : ∀ sought, Command.cells keys = .ok sought → (Command.seek m.table sought).Literal)
    (follows : s.Follows (Connection.Retains m.table t.definition (· ∈ Entries.names keys)) u) :
    (u.run (m.findUnique { filter := Filter.requiring keys }).run).1 ≠ .ok none := by
  intro hnone
  obtain ⟨-, rows, hrows, g, hperm, hg⟩ := follows.connection regular t known rfl
  obtain ⟨finds, -⟩ := findUnique_ok follows.behind (Prod.ext hnone rfl)
  obtain ⟨cs, a, hcs, hanswer, hhead⟩ := finds.answered
  obtain ⟨sought, hsought, rfl⟩ := Filter.conditions_requiring recalls.present hcs
  rcases Connection.head_chosen (literal sought hsought) hrows hanswer with
    ⟨hchosen, -⟩ | ⟨r, -, hr⟩
  · refine absurd ?_ (List.filter_eq_nil_iff.mp hchosen (g new) ?_)
    · exact recalls.selects supplies hsought rfl fun field hfield => hg new hnew field hfield _ rfl
    · exact hperm.mem_iff.mpr (List.mem_map_of_mem hnew)
  · cases hhead.trans hr

/-- Where an upsert finds no row with some values and has a result, it adds exactly one row, which
keeps them and otherwise the data that were given for it. The row is found by the values, and no
further upserts by them add another one as long as their updates leave the values. -/
theorem upsert_keeps_keys (regular : s.site.connection.database.Regular)
    (known : s.site.connection.database.table? m.table = some t) (hb : s.behind = [])
    (recalls : t.definition.Recalls keys create)
    (missed : (s.run (m.findUnique { filter := Filter.requiring keys }).run).1 = .ok none)
    (hrun : s.run (m.upsert fresh (Filter.requiring keys) create update).run = (.ok record, u)) :
    ∃ new, t.Adds s.site.connection u.site.connection new ∧
      t.definition.Supplies s.site.connection.database.now fresh keys create new ∧
      (u.run (m.findUnique { filter := Filter.requiring keys }).run).1 =
        .ok (some (t.definition.record new)) ∧
      ∀ calls : List Provision,
        (∀ p ∈ calls, ∀ field ∈ Entries.names keys, t.definition.Spares p.update field) →
        ∃ rows, (m.upserts (Filter.requiring keys) u calls).site.connection.database.table?
            m.table = some { t with rows } ∧
          rows.length = t.rows.length + 1 := by
  obtain ⟨finds, ⟨reaches, isOpen⟩, -⟩ := findUnique_ok hb (Prod.ext missed rfl)
  have goesOn := m.goesOn_upsert hb fresh (Filter.requiring keys) create update
  obtain ⟨cells, number, inserts⟩ := upsert_inserts known hb missed hrun
  rw [Filter.equalities_requiring recalls.present] at inserts
  rw [hrun] at goesOn
  have htable := regular.tables t (Database.mem_of_table? known)
  have supplies := recalls.supplies htable.regular inserts.given inserts.held inserts.numbered
    s.site.connection.database.now
  have hnext := inserts.finds htable.regular recalls known finds
  let new := t.definition.newRow s.site.connection.database.now number cells
  let rows := Definition.place t.rows new
  have hplace : rows.Perm (new :: t.rows) := Database.perm_place t.rows new
  refine ⟨new, inserts.adds known regular.distinct, supplies, ?_, fun calls spares => ?_⟩
  · exact hnext.run (goesOn.reaches reaches) goesOn.behind (goesOn.isOpen.trans isOpen)
  have literal (sought : List (String × Scalar)) (hsought : Command.cells keys = .ok sought) :
      (Command.seek m.table sought).Literal :=
    Command.literal_of_only rfl fun _ hread => inserts.only recalls finds.plain hsought hread
  have found (v : Session) (hv : u.Follows (Connection.Retains m.table t.definition
      (· ∈ Entries.names keys)) v) :=
    found_of_retains (t := { t with rows }) recalls supplies
      (hplace.mem_iff.mpr List.mem_cons_self) (inserts.regular known regular)
      (inserts.table? known) literal hv
  have follows := follows_upserts .refl .trans (fun p hp _ assigns c =>
    assigns.retains (fun _ field hfield => spares p hp field hfield) c) goesOn.behind found
  obtain ⟨-, rows', hrows', retains⟩ := follows.connection (inserts.regular known regular) _
    (inserts.table? known) rfl
  exact ⟨rows', hrows', retains.length_eq.trans hplace.length_eq⟩

theorem upsert_keeps_keys_orders :
    let create : Record := [("id", .text "o3"), ("status", .text "B")]
    ∃ record u new, orderStore.run (declaredOrders.upsert "fresh" (withStatus "C") create []).run =
        (.ok record, u) ∧
      twoOrders.Adds orderStore.site.connection u.site.connection new ∧
      orderTable.Keeps new "status" (.text "C") ∧
      (u.run (declaredOrders.findUnique { filter := withStatus "C" }).run).1 =
        .ok (some (orderTable.record new)) ∧
      ∃ rows, (declaredOrders.upserts (withStatus "C") u
          [⟨"other", [], [("id", .text "o4")]⟩]).site.connection.database.table? "orders" =
            some ⟨orderTable, rows⟩ ∧ rows.length = 3 := by
  intro create
  obtain ⟨record, hrecord⟩ := run_upsert_orders create rfl
  have recalls : orderTable.Recalls [("status", .text "C")] create :=
    { distinct := by decide
      present := by decide
      created := by decide
      apart := by decide
      recalled := by
        intro field v s hmem hs
        cases List.mem_singleton.mp hmem
        cases hs
        exact Definition.isRecalled_of_recalls (fun _ => rfl) rfl
          (Affinity.recalls_of_store rfl rfl) }
  obtain ⟨new, adds, supplies, found, further⟩ := upsert_keeps_keys keyed_orders.regular
    keyed_orders.known rfl recalls findUnique_statusC (Prod.ext hrecord rfl)
  obtain ⟨rows, hrows, hlength⟩ := further [⟨"other", [], [("id", .text "o4")]⟩]
    (List.forall_mem_singleton.mpr (List.forall_mem_singleton.mpr (by decide)))
  refine ⟨record, _, new, Prod.ext hrecord rfl, adds, ?_, found, rows, hrows, hlength⟩
  exact supplies.required "status" (.text "C") List.mem_cons_self

/-- An order that an upsert adds stands after the others. -/
theorem upsert_added_orders {data : Record} {id : Value} {row : Row} (hm : m.table = "orders")
    (missed : (orderStore.run (m.findUnique { filter := f }).run).1 = .ok none)
    (hdata : Record.identified "fresh" (Entries.extend create f.equalities) = (id, data))
    (hk : Command.insertion "orders" data = .ok (.insert "orders" cells))
    (hexecuted : orderStore.site.connection.execute (.insert "orders" cells) =
      (.ok { count := 1 }, leftWith (twoOrders.rows ++ [row]) row.number))
    (hnumber : orderTable.newNumber twoOrders.rows cells = .ok number)
    (hrow : orderTable.newRow "" number cells = row)
    (hrun : orderStore.run (m.upsert "fresh" f create update).run = (.ok record, u)) :
    twoOrders.Adds orderStore.site.connection u.site.connection row ∧
      u.site.connection = leftWith (twoOrders.rows ++ [row]) row.number := by
  have known : orderStore.site.connection.database.table? m.table = some twoOrders := by
    rw [hm]
    rfl
  obtain ⟨cells', number', inserts⟩ := upsert_inserts known rfl missed hrun
  obtain ⟨_, _, -, hcells, hinsert⟩ := Command.insertion_ok hk
  cases hinsert
  have hgiven := inserts.given
  rw [hdata] at hgiven
  cases hcells.symm.trans hgiven
  cases hnumber.symm.trans inserts.numbered
  obtain ⟨b, hleft⟩ := inserts.executed
  rw [hm, hexecuted] at hleft
  exact ⟨hrow ▸ inserts.adds known keyed_orders.regular.distinct, (congrArg Prod.snd hleft).symm⟩

def byNumbers : Filter :=
  Filter.requiring [("rowid", .integer 5), ("oid", .integer 6)]

/-- The cells of an order that is given two numbers and no third one, and an identity under another
spelling of its column. -/
def crowdedCells : List (String × Scalar) :=
  [("id", .text "fresh"), ("ID", .text "o3"), ("_rowid_", .null), ("rowid", .integer 5),
    ("oid", .integer 6)]

def crowdedOrder : Row :=
  ⟨6, [.text "fresh", .null]⟩

theorem execute_crowded : orderStore.site.connection.execute (.insert "orders" crowdedCells) =
    (.ok { count := 1 }, leftWith (twoOrders.rows ++ [crowdedOrder]) crowdedOrder.number) := by
  have free : ∀ name ∈ (Command.insert "orders" crowdedCells).names,
      Sql.isKeyword name.toList = false :=
    show ∀ name ∈ ["orders", "id", "ID", "_rowid_", "rowid", "oid"],
      Sql.isKeyword name.toList = false by decide
  rw [Connection.execute_of_free free]
  rfl

theorem finds_byNumbers {rows : List Row} {a : Answer}
    (known : c.database.table? "orders" = some ⟨orderTable, rows⟩)
    (h : (c.execute (.seek "orders" [("rowid", .integer 5), ("oid", .integer 6)])).1 = .ok a)
    (hnone : rows.filter (Condition.selects (c.database.frame ⟨orderTable, rows⟩)
      (Condition.equals [("rowid", .integer 5), ("oid", .integer 6)])) = []) :
    orderModel.Finds c byNumbers none := by
  have names : ∀ name ∈ (Command.seek "orders"
      [("rowid", .integer 5), ("oid", .integer 6)]).names, Sql.isKeyword name.toList = false :=
    show ∀ name ∈ ["orders", "rowid", "oid"], Sql.isKeyword name.toList = false by decide
  have checked : orderModel.checkFilter byNumbers = .ok () := by
    simp only [checkFilter, byNumbers, Filter.requiring, List.map_cons, List.map_nil,
      Filter.fields]
    rfl
  show orderModel.Finds c byNumbers ((none : Option Row).map orderTable.record)
  exact Finds.of_filter checked (isPlainName_iff.mp rfl) rfl known names h hnone

/-- Where two names stand for the same place, the row has one value of the two. Neither the
identity, given under another spelling, nor the number, left out by a null, nor the first of two
numbers is kept, and the row is not found by the values that it was added for. -/
theorem upsert_loses_keys :
    let create : Record := [("ID", .text "o3"), ("_rowid_", .null)]
    ∃ record u new, orderStore.run (orderModel.upsert "fresh" byNumbers create []).run =
        (.ok record, u) ∧
      (orderStore.run (orderModel.findUnique { filter := byNumbers }).run).1 = .ok none ∧
      twoOrders.Adds orderStore.site.connection u.site.connection new ∧
      ¬ orderTable.Keeps new "ID" (.text "o3") ∧ ¬ orderTable.Keeps new "_rowid_" .null ∧
      ¬ orderTable.Keeps new "rowid" (.integer 5) ∧
      (u.run (orderModel.findUnique { filter := byNumbers }).run).1 = .ok none := by
  intro create
  let left := leftWith (twoOrders.rows ++ [crowdedOrder]) crowdedOrder.number
  have loses {field : String} {v : Value} {kept : Scalar} (hv : v.toScalar field = .ok kept)
      (hkept : orderTable.inPlace crowdedOrder field ≠ (orderTable.affinityIn field).store kept) :
      ¬ orderTable.Keeps crowdedOrder field v := by
    rintro ⟨s, hs, h⟩
    cases hv.symm.trans hs
    exact hkept h
  obtain ⟨a, ha⟩ : ∃ a, (orderStore.site.connection.execute
      (.seek "orders" [("rowid", .integer 5), ("oid", .integer 6)])).1 = .ok a := ⟨_, rfl⟩
  obtain ⟨b, hb⟩ : ∃ b, (left.execute
      (.seek "orders" [("rowid", .integer 5), ("oid", .integer 6)])).1 = .ok b := ⟨_, rfl⟩
  obtain ⟨answer, hanswer⟩ : ∃ answer, (left.execute (.query .everything "orders"
      (Condition.keyed (.text "fresh")) [] { take := some 1 })).1 = .ok answer := ⟨_, rfl⟩
  have missed :=
    (finds_byNumbers (c := orderStore.site.connection) rfl ha rfl).run (.inr rfl) rfl rfl
  obtain ⟨u, hrun⟩ : ∃ u, orderStore.run (orderModel.upsert "fresh" byNumbers create []).run =
      (.ok (orderTable.record crowdedOrder), u) :=
    ⟨_, Prod.ext (run_upsert_added rfl missed rfl rfl (checkFilter_key rfl) rfl execute_crowded
      hanswer rfl) rfl⟩
  obtain ⟨adds, hleft⟩ := upsert_added_orders rfl missed rfl rfl execute_crowded rfl rfl hrun
  have goesOn := orderModel.goesOn_upsert (s := orderStore) rfl "fresh" byNumbers create []
  rw [hrun] at goesOn
  have finds : orderModel.Finds u.site.connection byNumbers none := by
    rw [hleft]
    exact finds_byNumbers rfl hb rfl
  refine ⟨_, u, crowdedOrder, hrun, missed, adds, loses rfl (by decide), loses rfl (by decide),
    loses rfl (by decide), ?_⟩
  exact finds.run (goesOn.reaches (.inr rfl)) goesOn.behind (goesOn.isOpen.trans rfl)

end Model

end Relata
