import Relata.Client
import Relata.Proofs.Model.Attach
import Relata.Proofs.Script.Task

/-! # Operations of models and clients

Whatever a model or a client is asked, it reaches the store by calls through its own
handle, and by commands on data only.
-/

namespace Relata

def Job.Selects (job : Job) : Prop :=
  ∃ k, job = .command k ∧ k.verb? = some "SELECT"

namespace Handle

variable {h : Handle} {α β : Type}

namespace Asks

variable {allowed : Job → Prop}

theorem pure (a : α) : h.Asks allowed (Pure.pure a : Op α) :=
  .decided (.ok a)

theorem throw (f : Failure) : h.Asks allowed (MonadExcept.throw f : Op α) :=
  .decided (.error f)

theorem check {e : Except Fault α} {f : α → Op β} (rest : ∀ a, e = .ok a → h.Asks allowed (f a)) :
    h.Asks allowed (liftM e >>= f) := by
  cases e with
  | error fault => exact .decided (.error (.fault fault))
  | ok a => exact rest a rfl

theorem plain {x : Op α} (asks : h.Asks Job.Selects x) : h.Asks Job.IsPlain x := by
  refine asks.mono ?_
  rintro _ ⟨k, rfl, hk⟩
  exact Option.isSome_of_eq_some hk

end Asks

namespace Uses

theorem pure (a : α) : h.Uses (Pure.pure a : Op α) :=
  .asks (.pure a)

theorem throw (f : Failure) : h.Uses (MonadExcept.throw f : Op α) :=
  .asks (.throw f)

theorem check {e : Except Fault α} {f : α → Op β} (rest : ∀ a, e = .ok a → h.Uses (f a)) :
    h.Uses (liftM e >>= f) := by
  cases e with
  | error fault => exact .asks (.decided (.error (.fault fault)))
  | ok a => exact rest a rfl

end Uses

end Handle

namespace Command

variable {table : String} {cs : List Condition} {k : Command}

theorem verb_select {order : Order} {page : Page} (h : select table cs order page = .ok k) :
    k.verb? = some "SELECT" := by
  obtain ⟨_, _, h⟩ := bind_eq_ok.mp h
  obtain ⟨_, _, h⟩ := bind_eq_ok.mp h
  cases h
  rfl

theorem insertion_ok {data : Record} (h : insertion table data = .ok k) :
    ∃ name entries, checkedName table = .ok name ∧ cells data = .ok entries ∧
      k = .insert name entries := by
  obtain ⟨name, hname, h⟩ := bind_eq_ok.mp h
  split at h
  · cases h
  · obtain ⟨entries, hentries, h⟩ := bind_eq_ok.mp h
    cases h
    exact ⟨name, entries, hname, hentries, rfl⟩

theorem assignment_ok {data : Record} (h : assignment table data cs = .ok k) :
    ∃ name entries, checkedName table = .ok name ∧
      cells (data.filter fun e => e.1 ≠ Record.key) = .ok entries ∧
      k = .update name entries cs := by
  obtain ⟨name, hname, h⟩ := bind_eq_ok.mp h
  split at h
  · obtain ⟨entries, hentries, h⟩ := bind_eq_ok.mp h
    cases h
    exact ⟨name, entries, hname, hentries, rfl⟩
  · cases h

theorem removal_ok (h : removal table cs = .ok k) :
    ∃ name, checkedName table = .ok name ∧ k = .delete name cs := by
  obtain ⟨name, hname, h⟩ := bind_eq_ok.mp h
  cases h
  exact ⟨name, hname, rfl⟩

theorem verb_insertion {data : Record} (h : insertion table data = .ok k) :
    k.verb? = some "INSERT" := by
  obtain ⟨_, _, -, -, rfl⟩ := insertion_ok h
  rfl

theorem verb_assignment {data : Record} (h : assignment table data cs = .ok k) :
    k.verb? = some "UPDATE" := by
  obtain ⟨_, _, -, -, rfl⟩ := assignment_ok h
  rfl

theorem verb_removal (h : removal table cs = .ok k) : k.verb? = some "DELETE" := by
  obtain ⟨_, -, rfl⟩ := removal_ok h
  rfl

theorem verb_counting (h : counting table cs = .ok k) : k.verb? = some "SELECT" := by
  obtain ⟨_, _, h⟩ := bind_eq_ok.mp h
  cases h
  rfl

theorem verb_aggregation {a : Aggregate} (h : aggregation table a = .ok k) :
    k.verb? = some "SELECT" := by
  obtain ⟨_, _, h⟩ := bind_eq_ok.mp h
  obtain ⟨_, _, h⟩ := bind_eq_ok.mp h
  split at h
  · cases h
  · obtain ⟨_, _, h⟩ := bind_eq_ok.mp h
    cases h
    rfl

end Command

namespace Model

open Handle

variable (m : Model)

def updateHeld (f : Filter) (data : Record) : Op (Option Record) := do
  match ← m.findUnique { filter := f } with
  | none => return none
  | some found =>
    let target := found.locator f
    let cs ← Filter.conditions target
    let command ← Command.assignment m.table data cs
    let _ ← m.perform command
    m.findUnique { filter := target }

theorem update_eq (f : Filter) (data : Record) :
    m.update f data =
      if data.hasAssignments then do
        m.checkFilter f
        m.checkData data
        m.handle.hold fun inner => (m.through inner).updateHeld f data
      else throw (.fault (.nothingToSet m.table)) :=
  rfl

def deleteHeld (f : Filter) : Op (Option Record) := do
  match ← m.findUnique { filter := f } with
  | none => return none
  | some found =>
    let cs ← Filter.conditions (found.locator f)
    let command ← Command.removal m.table cs
    let _ ← m.perform command
    return some found

theorem delete_eq (f : Filter) :
    m.delete f = (do
      m.checkFilter f
      m.handle.hold fun inner => (m.through inner).deleteHeld f) :=
  rfl

def upsertHeld (fresh : String) (f : Filter) (create update : Record) : Op Record := do
  match ← m.findUnique { filter := f } with
  | some found =>
    if update.hasAssignments then
      return (← m.update (found.locator f) update).getD found
    else return found
  | none => m.create fresh (Entries.extend create f.equalities)

theorem upsert_eq (fresh : String) (f : Filter) (create update : Record) :
    m.upsert fresh f create update =
      m.handle.hold fun inner => (m.through inner).upsertHeld fresh f create update :=
  rfl

theorem asks_perform {k : Command} {verb : String} (hk : k.verb? = some verb) :
    m.handle.Asks Job.IsPlain (m.perform k) :=
  .perform (Option.isSome_of_eq_some hk)

theorem reads_perform {k : Command} (hk : k.verb? = some "SELECT") :
    m.handle.Asks Job.Selects (m.perform k) :=
  .perform ⟨k, rfl, hk⟩

theorem reads_select (f : Filter) (order : Order) (page : Page) :
    m.handle.Asks Job.Selects (m.select f order page) := by
  refine .check fun cs _ => .check fun k hk => ?_
  exact .bind (m.reads_perform (Command.verb_select hk)) fun _ => .pure _

theorem reads_attach (tree : Include) (rows : List Record) :
    m.handle.Asks Job.Selects (m.attach tree rows) := by
  induction tree using Include.induction generalizing m rows with
  | nil => exact .pure rows
  | cons field scope rest ihscope ihrest =>
    rw [attach]
    split
    · exact ihrest m rows
    · next r _ =>
      refine .bind ?_ fun rows => ihrest m rows
      obtain ⟨filter, order, page, select, nested⟩ := scope
      rw [attachScope]
      split
      · exact .pure _
      · refine .check fun _ _ => .bind ((m.related r.target).reads_select ..) fun rows => ?_
        exact .bind (ihscope (m.related r.target) rows) fun _ => .pure _

theorem reads_complete (find : Find) (rows : List Record) :
    m.handle.Asks Job.Selects (m.complete find rows) :=
  .bind (m.reads_attach find.attach rows) fun _ => .pure _

theorem reads_findMany (find : Find) : m.handle.Asks Job.Selects (m.findMany find) :=
  .check fun _ _ => .bind (m.reads_select ..) fun rows => m.reads_complete find rows

theorem reads_findFirst (find : Find) : m.handle.Asks Job.Selects (m.findFirst find) :=
  .bind (m.reads_findMany _) fun _ => .pure _

theorem reads_findUnique (find : Find) : m.handle.Asks Job.Selects (m.findUnique find) :=
  .check fun _ _ => .bind (m.reads_select ..) fun _ =>
    .bind (m.reads_complete ..) fun _ => .pure _

theorem reads_count (f : Filter) : m.handle.Asks Job.Selects (m.count f) :=
  .check fun _ _ => .check fun _ _ => .check fun _ hk =>
    .bind (m.reads_perform (Command.verb_counting hk)) fun _ => .pure _

theorem reads_aggregate (a : Aggregate) : m.handle.Asks Job.Selects (m.aggregate a) :=
  .check fun _ _ => .check fun _ _ => .check fun _ hk =>
    .bind (m.reads_perform (Command.verb_aggregation hk)) fun _ => .pure _

theorem asks_create (fresh : String) (data : Record) :
    m.handle.Asks Job.IsPlain (m.create fresh data) := by
  refine .check fun _ _ => .check fun k hk => ?_
  refine .bind (m.asks_perform (Command.verb_insertion hk)) fun _ => ?_
  refine .bind (m.reads_findUnique _).plain fun row => ?_
  cases row with
  | some row => exact .pure row
  | none => exact .throw _

theorem insertions_ok {rows : List (String × Record)} {ks : List Command}
    (h : m.insertions rows = .ok ks) :
    ks.length = rows.length ∧ ∀ k ∈ ks, k.verb? = some "INSERT" := by
  induction rows generalizing ks with
  | nil =>
    cases h
    exact ⟨rfl, fun k hk => nomatch hk⟩
  | cons row rows ih =>
    obtain ⟨_, _, h⟩ := bind_eq_ok.mp h
    obtain ⟨k, hk, h⟩ := bind_eq_ok.mp h
    obtain ⟨rest, hrest, h⟩ := bind_eq_ok.mp h
    cases h
    obtain ⟨hlength, hks⟩ := ih hrest
    exact ⟨congrArg Nat.succ hlength,
      List.forall_mem_cons.mpr ⟨Command.verb_insertion hk, hks⟩⟩

theorem isPlain_insertions {rows : List (String × Record)} {ks : List Command}
    (h : m.insertions rows = .ok ks) : ∀ job ∈ ks.map Job.command, job.IsPlain := by
  intro job hjob
  obtain ⟨k, hk, rfl⟩ := List.mem_map.mp hjob
  exact Option.isSome_of_eq_some ((m.insertions_ok h).2 k hk)

theorem uses_createMany (rows : List (String × Record)) :
    m.handle.Uses (m.createMany rows) := by
  rw [createMany]
  split
  · exact .pure 0
  · exact .check fun ks hks => .bind (.batch (m.isPlain_insertions hks)) fun _ => .pure _

theorem asks_updateHeld (f : Filter) (data : Record) :
    m.handle.Asks Job.IsPlain (m.updateHeld f data) := by
  refine .bind (m.reads_findUnique _).plain fun found => ?_
  cases found with
  | none => exact .pure none
  | some found =>
    refine .check fun _ _ => .check fun k hk => ?_
    exact .bind (m.asks_perform (Command.verb_assignment hk)) fun _ =>
      (m.reads_findUnique _).plain

theorem uses_update (f : Filter) (data : Record) : m.handle.Uses (m.update f data) := by
  rw [update_eq]
  split
  · exact .check fun _ _ => .check fun _ _ =>
      .hold ((m.through m.handle.inside).asks_updateHeld f data)
  · exact .throw _

theorem asks_update (inside : m.handle.mode = .transaction) (f : Filter) (data : Record) :
    m.handle.Asks Job.IsPlain (m.update f data) := by
  rw [update_eq]
  split
  · exact .check fun _ _ => .check fun _ _ => .hold inside (m.asks_updateHeld f data)
  · exact .throw _

theorem asks_updateMany (f : Filter) (data : Record) :
    m.handle.Asks Job.IsPlain (m.updateMany f data) := by
  rw [updateMany]
  split
  · refine .check fun _ _ => .check fun _ _ => .check fun _ _ => .check fun k hk => ?_
    exact .bind (m.asks_perform (Command.verb_assignment hk)) fun _ => .pure _
  · exact .pure 0

theorem asks_deleteHeld (f : Filter) : m.handle.Asks Job.IsPlain (m.deleteHeld f) := by
  refine .bind (m.reads_findUnique _).plain fun found => ?_
  cases found with
  | none => exact .pure none
  | some found =>
    refine .check fun _ _ => .check fun k hk => ?_
    exact .bind (m.asks_perform (Command.verb_removal hk)) fun _ => .pure _

theorem uses_delete (f : Filter) : m.handle.Uses (m.delete f) := by
  rw [delete_eq]
  exact .check fun _ _ => .hold ((m.through m.handle.inside).asks_deleteHeld f)

theorem asks_deleteMany (f : Filter) : m.handle.Asks Job.IsPlain (m.deleteMany f) :=
  .check fun _ _ => .check fun _ _ => .check fun _ hk =>
    .bind (m.asks_perform (Command.verb_removal hk)) fun _ => .pure _

theorem asks_upsertHeld (inside : m.handle.mode = .transaction) (fresh : String) (f : Filter)
    (create update : Record) :
    m.handle.Asks Job.IsPlain (m.upsertHeld fresh f create update) := by
  refine .bind (m.reads_findUnique _).plain fun found => ?_
  cases found with
  | none => exact m.asks_create _ _
  | some found =>
    by_cases hdata : update.hasAssignments = true
    · simp only [if_pos hdata]
      exact .bind (m.asks_update inside _ _) fun _ => .pure _
    · simp only [if_neg hdata]
      exact .pure found

theorem uses_upsert (fresh : String) (f : Filter) (create update : Record) :
    m.handle.Uses (m.upsert fresh f create update) := by
  rw [upsert_eq]
  exact .hold ((m.through m.handle.inside).asks_upsertHeld rfl fresh f create update)

/-- What a model may be asked, by the type of the answers. New identities are given. -/
inductive Operation : Type → Type
  | findMany (find : Find) : Operation (List Record)
  | findFirst (find : Find) : Operation (Option Record)
  | findUnique (find : Find) : Operation (Option Record)
  | count (f : Filter) : Operation Nat
  | aggregate (a : Aggregate) : Operation Record
  | create (fresh : String) (data : Record) : Operation Record
  | createMany (rows : List (String × Record)) : Operation Nat
  | update (f : Filter) (data : Record) : Operation (Option Record)
  | updateMany (f : Filter) (data : Record) : Operation Nat
  | delete (f : Filter) : Operation (Option Record)
  | deleteMany (f : Filter) : Operation Nat
  | upsert (fresh : String) (f : Filter) (create update : Record) : Operation Record

def ask (m : Model) {α : Type} : Operation α → Op α
  | .findMany find => m.findMany find
  | .findFirst find => m.findFirst find
  | .findUnique find => m.findUnique find
  | .count f => m.count f
  | .aggregate a => m.aggregate a
  | .create fresh data => m.create fresh data
  | .createMany rows => m.createMany rows
  | .update f data => m.update f data
  | .updateMany f data => m.updateMany f data
  | .delete f => m.delete f
  | .deleteMany f => m.deleteMany f
  | .upsert fresh f create update => m.upsert fresh f create update

/-- Whatever it is asked, a model reaches the store by calls through its handle. -/
theorem uses_ask {α : Type} (o : Operation α) : m.handle.Uses (m.ask o) := by
  cases o with
  | findMany find => exact .asks (m.reads_findMany find).plain
  | findFirst find => exact .asks (m.reads_findFirst find).plain
  | findUnique find => exact .asks (m.reads_findUnique find).plain
  | count f => exact .asks (m.reads_count f).plain
  | aggregate a => exact .asks (m.reads_aggregate a).plain
  | create fresh data => exact .asks (m.asks_create fresh data)
  | createMany rows => exact m.uses_createMany rows
  | update f data => exact m.uses_update f data
  | updateMany f data => exact .asks (m.asks_updateMany f data)
  | delete f => exact m.uses_delete f
  | deleteMany f => exact .asks (m.asks_deleteMany f)
  | upsert fresh f create update => exact m.uses_upsert fresh f create update

theorem calls_ask {α : Type} (o : Operation α) : m.handle.Calls (m.ask o) :=
  (m.uses_ask o).calls

end Model

namespace Client

variable (c : Client)

theorem handle_model {table : String} {m : Model} (h : c.model table = .ok m) :
    m.handle = c.handle := by
  obtain ⟨_, _, h⟩ := bind_eq_ok.mp h
  cases h
  rfl

theorem calls_model {α : Type} {table : String} {f : Model → Op α}
    (rest : ∀ m : Model, m.handle.Calls (f m)) :
    c.handle.Calls (liftM (c.model table) >>= f) := by
  cases hm : c.model table with
  | error fault => exact .decided (.error (.fault fault))
  | ok m =>
    rw [← c.handle_model hm]
    exact rest m

theorem calls_execute {sql : String} {values : List Value}
    (plain : ∀ s, Statement.raw sql values = .ok s → (Job.raw s).IsPlain) :
    c.handle.Calls (c.execute sql values) :=
  Handle.Asks.calls (.check fun s hs => .bind (.perform (plain s hs)) fun _ => .pure _)

end Client

end Relata
