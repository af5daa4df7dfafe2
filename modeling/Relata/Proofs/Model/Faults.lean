import Relata.Proofs.Model.Calls
import Relata.Proofs.Script.Results

/-! # Faults

A fault of a query leaves the data as they are, whichever operation it ends. Operations that
need no row of the store for their checks find it before they ask for anything; the others
may have read.
-/

namespace Relata

namespace Session

variable {s : Session}

theorem connection_perform_of_selects {job : Job} (reads : job.Selects) (hb : s.behind = []) :
    (s.perform job).2.site.connection = s.site.connection ∧ (s.perform job).2.behind = [] := by
  obtain ⟨k, rfl, hk⟩ := reads
  rw [perform_of_behind hb]
  refine ⟨?_, hb⟩
  cases h : s.site.isOpen with
  | false => rw [Site.perform_of_shut h (by simp)]
  | true =>
    rw [Site.perform_of_isOpen h (by simp)]
    exact Connection.snd_execute_of_select hk

/-- What holds the gate does to a store what it does behind the gate, or nothing in a body. -/
theorem run_hold_cases {α : Type} (s : Session) (h : Handle) (x : Handle → Op α) :
    (h.mode = .transaction ∧ s.run (h.hold x).run = s.run (x h).run) ∨
    (h.mode = .autocommit ∧ s.bodies = 0 ∧
      s.run (h.hold x).run = (({ s with holds := true }.run (x h.inside).run).1,
        { ({ s with holds := true }.run (x h.inside).run).2 with holds := false })) ∨
    s.run (h.hold x).run = (.error busyFailure, s) := by
  cases hm : h.mode with
  | transaction => exact .inl ⟨rfl, by rw [Handle.run_hold_inside hm]⟩
  | autocommit =>
    rw [Handle.run_hold_outside hm]
    by_cases hb : s.bodies = 0
    · exact .inr (.inl ⟨rfl, hb, run_gated hb ..⟩)
    · exact .inr (.inr (run_gated_busy hb ..))

end Session

theorem Handle.Asks.connection_run {α : Type} {h : Handle} {x : Op α}
    (asks : h.Asks Job.Selects x) {s : Session} (hb : s.behind = []) :
    (s.run x.run).2.site.connection = s.site.connection ∧ (s.run x.run).2.behind = [] := by
  induction asks generalizing s with
  | decided result => exact ⟨rfl, hb⟩
  | bind _ _ ihx ihf =>
    have hx := ihx hb
    rw [Session.run_op_bind]
    cases hrun : s.run _ with | mk result u =>
    rw [hrun] at hx
    obtain ⟨hconnection, hbehind⟩ := hx
    cases result with
    | error e => exact ⟨hconnection, hbehind⟩
    | ok a =>
      obtain ⟨hconnection', hbehind'⟩ := ihf a hbehind
      exact ⟨hconnection'.trans hconnection, hbehind'⟩
  | @perform job reads =>
    have held := Session.connection_perform_of_selects (s := { s with holds := true }) reads hb
    rw [Handle.perform]
    rcases s.run_hold_cases h fun inner => .mk (inner.ask job) with
      ⟨-, hrun⟩ | ⟨-, -, hrun⟩ | hrun
    · rw [hrun]
      exact Session.connection_perform_of_selects reads hb
    · rw [hrun]
      exact held
    · rw [hrun]
      exact ⟨rfl, hb⟩

namespace Op

variable {α β : Type} {x : Op α} {f : α → Op β}

/-- An operation that leaves the connection of the store if it ends with a fault. -/
def Harmless (x : Op α) : Prop :=
  ∀ (s : Session) (f : Fault), s.behind = [] → (s.run x.run).1 = .error (.fault f) →
    (s.run x.run).2.site.connection = s.site.connection

theorem Faultless.harmless (faultless : Faultless x) : Harmless x :=
  fun s f _ h => absurd h (s.run_ends faultless f)

theorem ChecksFirst.run_fault (checks : ChecksFirst x) {s : Session} {f : Fault}
    (h : (s.run x.run).1 = .error (.fault f)) : (s.run x.run).2 = s := by
  rcases checks with ⟨f', hx⟩ | faultless
  · rw [hx]
    rfl
  · exact absurd h (s.run_ends faultless f)

theorem ChecksFirst.harmless (checks : ChecksFirst x) : Harmless x :=
  fun s f _ h => by rw [checks.run_fault h]

theorem ChecksFirst.check {e : Except Fault α} (rest : ∀ a, e = .ok a → ChecksFirst (f a)) :
    ChecksFirst (liftM e >>= f) := by
  cases e with
  | error fault => exact .inl ⟨fault, rfl⟩
  | ok a => exact rest a rfl

theorem ChecksFirst.bind (first : ChecksFirst x) (rest : ∀ a, Faultless (f a)) :
    ChecksFirst (x >>= f) := by
  rcases first with ⟨fault, hx⟩ | faultless
  · refine .inl ⟨fault, ?_⟩
    have hbind : (x >>= f).run = x.run >>= ExceptT.bindCont f := rfl
    rw [hbind, hx]
    rfl
  · exact .inr (faultless.bind rest)

theorem Faultless.check {e : Except Fault α} {a : α} (passed : e = .ok a)
    (rest : Faultless (f a)) : Faultless (liftM e >>= f) := by
  rw [passed]
  exact rest

theorem Faultless.map (faultless : Faultless x) (g : α → β) :
    Faultless (x >>= fun a => pure (g a)) :=
  faultless.bind fun _ => faultless_pure _

theorem Harmless.check {e : Except Fault α} (rest : ∀ a, e = .ok a → Harmless (f a)) :
    Harmless (liftM e >>= f) := by
  cases e with
  | error fault => exact fun _ _ _ _ => rfl
  | ok a => exact rest a rfl

theorem Harmless.bind {h : Handle} (first : h.Asks Job.Selects x) (rest : ∀ a, Harmless (f a)) :
    Harmless (x >>= f) := by
  intro s fault hb hfault
  obtain ⟨hconnection, hbehind⟩ := first.connection_run hb
  rw [Session.run_op_bind] at hfault ⊢
  cases hrun : s.run x.run with | mk result u =>
  rw [hrun] at hfault hconnection hbehind
  cases result with
  | error e => exact hconnection
  | ok a => exact (rest a u fault hbehind hfault).trans hconnection

theorem Harmless.map (harmless : Harmless x) (g : α → β) :
    Harmless (x >>= fun a => pure (g a)) := by
  intro s fault hb hfault
  rw [Session.run_op_map] at hfault ⊢
  refine harmless s fault hb ?_
  cases h : (s.run x.run).1 with
  | error e =>
    rw [h] at hfault
    exact congrArg _ (Except.error.inj hfault)
  | ok a =>
    rw [h] at hfault
    cases hfault

theorem Harmless.hold {h : Handle} {x : Handle → Op α} (outside : Harmless (x h.inside))
    (inside : Harmless (x h)) : Harmless (h.hold x) := by
  intro s fault hb hfault
  rcases s.run_hold_cases h x with ⟨-, hrun⟩ | ⟨-, -, hrun⟩ | hrun
  · rw [hrun] at hfault ⊢
    exact inside s fault hb hfault
  · rw [hrun] at hfault ⊢
    exact outside { s with holds := true } fault hb hfault
  · rw [hrun]

end Op

namespace Entries

theorem get?_identified (fresh : String) (data : Record) :
    get? (data.identified fresh).2 Record.key = some (data.identified fresh).1 := by
  rw [Record.identified]
  cases h : get? data Record.key with
  | none => simp [get?_cons]
  | some v =>
    cases hv : v.isNull with
    | true => simp [get?_set_self, hv]
    | false => simp [hv, h]

end Entries

theorem Record.isNull_identified (fresh : String) (data : Record) :
    (data.identified fresh).1.isNull = false := by
  rw [identified]
  split
  · split
    · rfl
    · next hv => exact Bool.eq_false_iff.mpr hv
  · rfl

namespace Schema

variable {s : Schema} {table : String}

theorem checkField_of_checkFields {fields : List String} (h : s.checkFields table fields = .ok ())
    {field : String} (hf : field ∈ fields) : s.checkField table field = .ok () := by
  induction fields with
  | nil => cases hf
  | cons f rest ih =>
    obtain ⟨_, hfirst, hrest⟩ := bind_eq_ok.mp h
    rcases List.mem_cons.mp hf with rfl | hf
    · exact hfirst
    · exact ih hrest hf

theorem admits_of_checkField {field : String} (h : s.checkField table field = .ok ()) :
    s.admits table field = true := by
  obtain ⟨name, hname, hadmits⟩ := bind_eq_ok.mp h
  obtain ⟨rfl, -⟩ := Filter.checkedName_eq_ok hname
  by_contra hnot
  rw [if_neg hnot] at hadmits
  cases hadmits

end Schema

theorem Command.cells_cons {e : String × Value} {rest : Record}
    {entries : List (String × Scalar)} :
    cells (e :: rest) = .ok entries ↔ Text.PlainName e.1.toList ∧
      ∃ s cs, e.2.toScalar e.1 = .ok s ∧ cells rest = .ok cs ∧ entries = (e.1, s) :: cs := by
  constructor
  · intro h
    obtain ⟨field, hname, h⟩ := bind_eq_ok.mp h
    obtain ⟨rfl, plain⟩ := Filter.checkedName_eq_ok hname
    obtain ⟨s, hs, h⟩ := bind_eq_ok.mp h
    obtain ⟨cs, hcs, h⟩ := bind_eq_ok.mp h
    cases h
    exact ⟨plain, s, cs, hs, hcs, rfl⟩
  · rintro ⟨plain, s, cs, hs, hcs, rfl⟩
    exact bind_eq_ok.mpr ⟨e.1, Filter.checkedName_of_plain plain,
      bind_eq_ok.mpr ⟨s, hs, bind_eq_ok.mpr ⟨cs, hcs, rfl⟩⟩⟩

theorem Command.toScalar_of_cells {data : Record} {cs : List (String × Scalar)}
    (h : cells data = .ok cs) {e : String × Value} (he : e ∈ data) :
    ∃ s, e.2.toScalar e.1 = .ok s := by
  induction data generalizing cs with
  | nil => cases he
  | cons d rest ih =>
    obtain ⟨-, s, rest', hs, hrest, -⟩ := cells_cons.mp h
    rcases List.mem_cons.mp he with rfl | he
    · exact ⟨s, hs⟩
    · exact ih hrest he

theorem Filter.conditions_key {v : Value} {s : Scalar} (hv : v.isNull = false)
    (h : v.toScalar Record.key = .ok s) :
    conditions (eq [] Record.key v) = .ok [.compare Record.key .equal s] := by
  have hname : checkedName Record.key = .ok Record.key := rfl
  have hcondition : Test.condition Record.key (.compare .equal v) =
      .ok (.compare Record.key .equal s) := by
    cases v with
    | null => cases hv
    | _ => exact congrArg (Except.map _) h
  rw [eq, test, List.nil_append, conditions, nodeCondition?, hname]
  exact congrArg (fun c : Except Fault Condition => do
    let c ← (do let c ← c; return some c : Except Fault (Option Condition))
    let cs ← conditions []
    return c.toList ++ cs) hcondition

theorem Filter.fields_eq (name : String) (v : Value) : fields (eq [] name v) = [name] := by
  rw [eq, test, List.nil_append, fields, fields]

namespace Model

open Op

variable {m : Model}

theorem checkFind_of_checkFilter {f : Filter} (h : m.checkFilter f = .ok ()) :
    m.checkFind { filter := f } = .ok () := by
  have hdepth : Include.checkDepth [] m.depthLimit = .ok () :=
    if_neg (Nat.not_lt_zero _)
  rw [checkFind, hdepth, h]
  rfl

theorem checkFilter_eq {name : String} {v : Value} (named : checkedName name = .ok name)
    (admits : m.schema.admits m.table name = true) :
    m.checkFilter (Filter.eq [] name v) = .ok () := by
  rw [checkFilter, Filter.fields_eq, Schema.checkFields, Schema.checkField, named]
  simp only [bind, Except.bind, admits, if_true]
  rfl

theorem checkFilter_key {v : Value} (admits : m.schema.admits m.table Record.key = true) :
    m.checkFilter (Filter.eq [] Record.key v) = .ok () :=
  checkFilter_eq rfl admits

theorem faultless_complete {find : Find} (attach : find.attach = []) (rows : List Record) :
    Faultless (m.complete find rows) := by
  rw [complete, attach, Model.attach]
  exact faultless_pure _

theorem checksFirst_select (f : Filter) (order : Order) (page : Page) :
    ChecksFirst (m.select f order page) :=
  .check fun _ _ => .check fun _ _ => .inr (.map (faultless_perform _ _) _)

theorem checksFirst_findMany {find : Find} (attach : find.attach = []) :
    ChecksFirst (m.findMany find) :=
  .check fun _ _ => (checksFirst_select ..).bind fun _ => faultless_complete attach _

theorem checksFirst_findFirst {find : Find} (attach : find.attach = []) :
    ChecksFirst (m.findFirst find) :=
  (@checksFirst_findMany m { find with page := { find.page with take := some 1 } } attach).bind
    fun _ => faultless_pure _

theorem checksFirst_findUnique {find : Find} (attach : find.attach = []) :
    ChecksFirst (m.findUnique find) :=
  .check fun _ _ => (checksFirst_select ..).bind fun _ => .map (faultless_complete attach _) _

theorem faultless_select {f : Filter} {cs : List Condition} {table : String}
    (hcs : Filter.conditions f = .ok cs) (htable : checkedName m.table = .ok table) (page : Page) :
    Faultless (m.select f [] page) := by
  have hcommand : Command.select m.table cs [] page =
      .ok (.query .everything table cs [] page) := by
    rw [Command.select, htable]
    rfl
  exact .check hcs (.check hcommand (.map (faultless_perform _ _) _))

theorem faultless_findUnique {f : Filter} {cs : List Condition} {table : String}
    (check : m.checkFilter f = .ok ()) (hcs : Filter.conditions f = .ok cs)
    (htable : checkedName m.table = .ok table) : Faultless (m.findUnique { filter := f }) :=
  .check (checkFind_of_checkFilter check) <|
    .bind (faultless_select hcs htable _) fun _ => .map (faultless_complete rfl _) _

theorem checksFirst_count (f : Filter) : ChecksFirst (m.count f) :=
  .check fun _ _ => .check fun _ _ => .check fun _ _ => .inr (.map (faultless_perform _ _) _)

theorem checksFirst_aggregate (a : Aggregate) : ChecksFirst (m.aggregate a) :=
  .check fun _ _ => .check fun _ _ => .check fun _ _ => .inr (.map (faultless_perform _ _) _)

theorem checksFirst_create (fresh : String) (data : Record) :
    ChecksFirst (m.create fresh data) := by
  have hid := Entries.mem_of_get? (Entries.get?_identified fresh data)
  refine .check fun _ hdata => .check fun k hk => .inr ?_
  refine .bind (faultless_perform _ _) fun _ => .bind ?_ fun row => ?_
  · obtain ⟨table, cells, htable, hcells, -⟩ := Command.insertion_ok hk
    obtain ⟨s, hs⟩ := Command.toScalar_of_cells hcells hid
    have admits := Schema.admits_of_checkField
      (Schema.checkField_of_checkFields hdata (List.mem_map_of_mem hid))
    exact faultless_findUnique (checkFilter_key admits)
      (Filter.conditions_key (Record.isNull_identified fresh data) hs) htable
  · cases row with
    | some row => exact faultless_pure row
    | none =>
      intro f hf
      cases hf

theorem checksFirst_createMany (rows : List (String × Record)) :
    ChecksFirst (m.createMany rows) := by
  rw [createMany]
  split
  · exact .inr (faultless_pure 0)
  · exact .check fun ks _ => .inr (.map (faultless_batch _ _) _)

theorem checksFirst_updateMany (f : Filter) (data : Record) :
    ChecksFirst (m.updateMany f data) := by
  rw [updateMany]
  split
  · exact .check fun _ _ => .check fun _ _ => .check fun _ _ => .check fun _ _ =>
      .inr (.map (faultless_perform _ _) _)
  · exact .inr (faultless_pure 0)

theorem checksFirst_deleteMany (f : Filter) : ChecksFirst (m.deleteMany f) :=
  .check fun _ _ => .check fun _ _ => .check fun _ _ => .inr (.map (faultless_perform _ _) _)

/-- The filter of a row that was found can be checked as the filter that it was found by. -/
theorem checkFilter_locator {f : Filter} (admits : m.schema.admits m.table Record.key = true)
    (check : m.checkFilter f = .ok ()) (found : Record) :
    m.checkFilter (found.locator f) = .ok () := by
  rw [Record.locator]
  split
  · split
    · exact check
    · exact checkFilter_key admits
  · exact check

theorem harmless_update (admits : m.schema.admits m.table Record.key = true) (f : Filter)
    (data : Record) : Harmless (m.update f data) := by
  have held {m : Model} (admits : m.schema.admits m.table Record.key = true)
      (hf : m.checkFilter f = .ok ()) : Harmless (m.updateHeld f data) := by
    refine .bind (m.reads_findUnique _) fun found => ?_
    cases found with
    | none => exact (faultless_pure none).harmless
    | some found =>
      refine .check fun cs hcs => .check fun k hk => Faultless.harmless ?_
      obtain ⟨table, htable, -⟩ := bind_eq_ok.mp hk
      exact .bind (faultless_perform _ _) fun _ =>
        faultless_findUnique (checkFilter_locator admits hf found) hcs htable
  rw [update_eq]
  split
  · exact .check fun _ hf => .check fun _ _ => .hold (held admits hf) (held admits hf)
  · exact fun s _ _ _ => rfl

theorem harmless_delete (f : Filter) : Harmless (m.delete f) := by
  have held (m : Model) : Harmless (m.deleteHeld f) := by
    refine .bind (m.reads_findUnique _) fun found => ?_
    cases found with
    | none => exact (faultless_pure none).harmless
    | some found =>
      exact .check fun _ _ => .check fun _ _ => (Faultless.map (faultless_perform _ _) _).harmless
  rw [delete_eq]
  exact .check fun _ _ => .hold (held _) (held _)

theorem harmless_upsert (admits : m.schema.admits m.table Record.key = true) (fresh : String)
    (f : Filter) (create update : Record) : Harmless (m.upsert fresh f create update) := by
  have held {m : Model} (admits : m.schema.admits m.table Record.key = true) :
      Harmless (m.upsertHeld fresh f create update) := by
    refine .bind (m.reads_findUnique _) fun found => ?_
    cases found with
    | none => exact (checksFirst_create fresh _).harmless
    | some found =>
      by_cases hupdate : update.hasAssignments = true
      · simp only [if_pos hupdate]
        exact .map (harmless_update admits _ _) _
      · simp only [if_neg hupdate]
        exact (faultless_pure found).harmless
  rw [upsert_eq]
  exact .hold (held admits) (held admits)

def Operation.ChecksFirst {α : Type} : Operation α → Prop
  | .findMany find => find.attach = []
  | .findFirst find => find.attach = []
  | .findUnique find => find.attach = []
  | .update .. => False
  | .delete _ => False
  | .upsert .. => False
  | _ => True

theorem checksFirst_ask {α : Type} {o : Operation α} (h : o.ChecksFirst) :
    ChecksFirst (m.ask o) := by
  cases o with
  | findMany find => exact checksFirst_findMany h
  | findFirst find => exact checksFirst_findFirst h
  | findUnique find => exact checksFirst_findUnique h
  | count f => exact checksFirst_count f
  | aggregate a => exact checksFirst_aggregate a
  | create fresh data => exact checksFirst_create fresh data
  | createMany rows => exact checksFirst_createMany rows
  | updateMany f data => exact checksFirst_updateMany f data
  | deleteMany f => exact checksFirst_deleteMany f
  | update | delete | upsert => exact h.elim

theorem harmless_reads {α : Type} {x : Op α} (reads : m.handle.Asks Job.Selects x) : Harmless x :=
  fun _ _ hb _ => (reads.connection_run hb).1

theorem harmless_ask {α : Type} (admits : m.schema.admits m.table Record.key = true)
    (o : Operation α) : Harmless (m.ask o) := by
  by_cases hfirst : o.ChecksFirst
  · exact (checksFirst_ask hfirst).harmless
  · cases o with
    | findMany find => exact harmless_reads (m.reads_findMany find)
    | findFirst find => exact harmless_reads (m.reads_findFirst find)
    | findUnique find => exact harmless_reads (m.reads_findUnique find)
    | update f data => exact harmless_update admits f data
    | delete f => exact harmless_delete f
    | upsert fresh f create update => exact harmless_upsert admits fresh f create update
    | count | aggregate | create | createMany | updateMany | deleteMany =>
      exact absurd trivial hfirst

/-- A fault of a query leaves the data as they are, whatever was asked; if the checks need
no row of the store, nothing at all was asked of it. -/
theorem fault_unchanged {α : Type} (admits : m.schema.admits m.table Record.key = true)
    (o : Operation α) {s t : Session} {f : Fault} (hb : s.behind = [])
    (h : s.run (m.ask o).run = (.error (.fault f), t)) :
    t.site.connection = s.site.connection ∧ (o.ChecksFirst → t = s) := by
  have hfault : (s.run (m.ask o).run).1 = .error (.fault f) := congrArg Prod.fst h
  have hleft : (s.run (m.ask o).run).2 = t := congrArg Prod.snd h
  refine ⟨?_, fun hfirst => ?_⟩
  · rw [← hleft]
    exact harmless_ask admits o s f hb hfault
  · rw [← hleft]
    exact (checksFirst_ask hfirst).run_fault hfault

def orderTable : Definition where
  name := "orders"
  columns := [{ name := "id" }, { name := "status", affinity := .text }]

def oneOrder : Session :=
  .ofDatabase { tables := [⟨orderTable, [⟨1, [.text "o1", .text "A"]⟩]⟩] }

def orderModel : Model where
  table := "orders"
  handle := {}
  schema := .empty
  depthLimit := 3

def listAsStatus : Operation (Option Record) :=
  .update [] [("status", .array [.text "x"])]

def orderRecord : Record :=
  [("id", .text "o1"), ("status", .text "A")]

theorem query_oneOrder :
    oneOrder.site.connection.database.query .everything "orders" [] [] { take := some 1 } =
      .ok [orderRecord] := by
  have single (f : Frame) (access : Access) (row : Row) :
      Order.sort f [] (access.arrange f [row]) = [row] := by
    rw [(access.perm_arrange f [row]).eq_singleton]
    exact List.mergeSort_singleton row
  -- How the row is come by is left open, since estimates would have to be computed for it.
  obtain ⟨access, h⟩ : ∃ access : Access,
      oneOrder.site.connection.database.query .everything "orders" [] [] { take := some 1 } =
        .ok (((Order.sort { definition := orderTable } [] (access.arrange
          { definition := orderTable } [⟨1, [.text "o1", .text "A"]⟩])).take 1).map
            orderTable.record) := ⟨_, rfl⟩
  rw [h, single]
  rfl

theorem execute_oneOrder :
    oneOrder.site.connection.execute (.query .everything "orders" [] [] { take := some 1 }) =
      (.ok { rows := [orderRecord] }, oneOrder.site.connection) := by
  let k := Command.query .everything "orders" [] [] { take := some 1 }
  have hexecute : oneOrder.site.connection.execute k = oneOrder.site.connection.run k := rfl
  have hrun : oneOrder.site.connection.run? k =
      .ok ({ rows := [orderRecord] }, oneOrder.site.connection) := by
    rw [Connection.run?, query_oneOrder]
    rfl
  rw [hexecute, Connection.run, hrun]

theorem run_listAsStatus :
    oneOrder.run (orderModel.ask listAsStatus).run =
      (.error (.fault (.unbindable "status" (.kind .array))),
        { oneOrder with site := { oneOrder.site with executed := 1 } }) := by
  have hfilter (m : Model) : m.checkFilter [] = .ok () := by
    rw [checkFilter, Filter.fields]
    rfl
  have hperform : { oneOrder with holds := true }.perform
        (.command (.query .everything "orders" [] [] { take := some 1 })) =
      (.ok { rows := [orderRecord] },
        { oneOrder with holds := true, site := { oneOrder.site with executed := 1 } }) := by
    rw [Session.perform_of_behind rfl, Site.perform_of_isOpen rfl (by simp), Connection.perform,
      execute_oneOrder]
    rfl
  have hselect : { oneOrder with holds := true }.run
      ((orderModel.through orderModel.handle.inside).select [] [] { take := some 1 }).run =
        (.ok [orderRecord],
          { oneOrder with holds := true, site := { oneOrder.site with executed := 1 } }) := by
    change Session.run _
      ((orderModel.handle.inside.perform (.command (.query .everything "orders" [] [] _))) >>=
        _).run = _
    rw [Session.run_op_bind, Session.run_perform_inside rfl, hperform]
    rfl
  have hfind : { oneOrder with holds := true }.run
      ((orderModel.through orderModel.handle.inside).findUnique { filter := [] }).run =
        (.ok (some orderRecord),
          { oneOrder with holds := true, site := { oneOrder.site with executed := 1 } }) := by
    rw [findUnique, checkFind_of_checkFilter (hfilter _)]
    change Session.run _
      ((orderModel.through orderModel.handle.inside).select [] [] _ >>= _).run = _
    rw [Session.run_op_bind, hselect]
    rfl
  change oneOrder.run (orderModel.update _ _).run = _
  rw [update_eq, if_pos (by decide), hfilter]
  change oneOrder.run
    (orderModel.handle.hold fun inner => (orderModel.through inner).updateHeld _ _).run = _
  rw [Handle.run_hold_outside rfl, Session.run_gated rfl, updateHeld, Session.run_op_bind, hfind]
  rfl

theorem fault_unchanged_orders :
    ∃ t, oneOrder.run (orderModel.ask listAsStatus).run =
        (.error (.fault (.unbindable "status" (.kind .array))), t) ∧
      t.site.connection = oneOrder.site.connection :=
  ⟨_, run_listAsStatus, (fault_unchanged rfl listAsStatus rfl run_listAsStatus).1⟩

/-- Not every fault is found before the store is asked for anything. -/
theorem fault_after_selection :
    ∃ t, oneOrder.run (orderModel.ask listAsStatus).run =
        (.error (.fault (.unbindable "status" (.kind .array))), t) ∧
      t.site.executed ≠ oneOrder.site.executed :=
  ⟨_, run_listAsStatus, by decide⟩

end Model

end Relata
