import Relata.Proofs.Batch
import Relata.Proofs.Model.Columns

/-! # Writes that fail

An operation that fails because the store refused a statement that writes leaves every table
and the open transaction as they were. The statement is the only one of its operation that
writes, or it is taken back together with those of its batch; what was asked before it only
reads.
-/

namespace Relata

/-! ## What a store refuses -/

namespace Connection

variable {c d e : Connection} {k : Command} {r : Refusal}

/-- The same rows in every table, and the same transaction open, or none. -/
structure SameData (c d : Connection) : Prop where
  database : d.database = c.database
  opened : d.opened = c.opened

namespace SameData

theorem refl (c : Connection) : c.SameData c :=
  ⟨rfl, rfl⟩

theorem of_eq (h : d = c) : c.SameData d := by
  subst h
  exact refl d

theorem trans (hcd : c.SameData d) (hde : d.SameData e) : c.SameData e :=
  ⟨hde.database.trans hcd.database, hde.opened.trans hcd.opened⟩

theorem run (h : (c.run k).1 = .error r) : c.SameData (c.run k).2 :=
  ⟨database_run_error h, opened_run_error h⟩

theorem runLimited (h : (c.runLimited k).1 = .error r) : c.SameData (c.runLimited k).2 := by
  unfold Connection.runLimited at h ⊢
  split
  · next limits =>
    rw [limits] at h
    exact run h
  · exact refl c

theorem runText {s : Statement} (h : (c.runText s).1 = .error r) :
    c.SameData (c.runText s).2 := by
  unfold Connection.runText at h ⊢
  split
  · next k hread =>
    rw [hread] at h
    exact runLimited h
  · exact refl c
  · exact refl c

theorem execute (h : (c.execute k).1 = .error r) : c.SameData (c.execute k).2 := by
  unfold Connection.execute at h ⊢
  split
  · next named =>
    rw [if_pos named] at h
    exact runText h
  · next named =>
    rw [if_neg named] at h
    exact runLimited h

theorem whole {jobs : List Job} (closed : c.opened = none)
    (h : (c.whole jobs).1 = .error r) : c.SameData (c.whole jobs).2 := by
  cases hall : c.begun.performAll jobs with | mk result d =>
  cases result with
  | error _ =>
    rw [whole_error hall]
    exact ⟨rfl, closed.symm⟩
  | ok counts =>
    rw [whole_ok hall] at h ⊢
    split at h
    · next broken =>
      rw [if_pos broken]
      exact ⟨rfl, closed.symm⟩
    · cases h

theorem part {jobs : List Job} {t : Transaction} (opened : c.opened = some t)
    (h : (c.part t jobs).1 = .error r) : c.SameData (c.part t jobs).2 := by
  cases hall : { c with
    opened := some (t.marked Handle.batchName c.database) }.performAll jobs with | mk result d =>
  cases result with
  | error _ =>
    rw [part_error hall]
    exact ⟨rfl, opened.symm⟩
  | ok counts =>
    rw [part_ok hall] at h
    cases h

end SameData

end Connection

/-- A job that writes, or that begins or ends what is written together. -/
def Job.Writes : Job → Prop
  | .command k => Connection.writes k = true
  | .control _ => True
  | _ => False

theorem Job.Selects.not_writes {job : Job} (reads : job.Selects) : ¬ job.Writes := by
  obtain ⟨k, rfl, hk⟩ := reads
  cases k with
  | query | values => simp [Job.Writes, Connection.writes]
  | insert | update | delete | control => simp [Command.verb?] at hk

def Action.refused (reply : Reply) : Action → List (Job × Failure)
  | .perform job =>
    match reply with
    | .error f => [(job, f)]
    | .ok _ => []
  | _ => []

namespace Session

variable {α β : Type} {s : Session}

/-- The jobs that the store refuses a script, each with the failure that it raises. -/
def raised (s : Session) : Script α → List (Job × Failure)
  | .done _ => []
  | .step r _ next =>
    r.action.refused (s.serve r).1 ++ raised (s.serve r).2 (next (s.serve r).1)

theorem raised_bind (x : Script α) (f : α → Script β) :
    s.raised (x >>= f) = s.raised x ++ (s.run x).2.raised (f (s.run x).1) := by
  induction x generalizing s with
  | done a => rfl
  | step r instead next ih =>
    change _ ++ raised _ (next _ >>= f) = _
    rw [ih, ← List.append_assoc]
    rfl

theorem raised_guarded (undo : List Request) (x : Script α) :
    s.raised (x.guarded undo) = s.raised x := by
  induction x generalizing s with
  | done a => rfl
  | step r instead next ih => simp only [Script.guarded, raised, ih]

theorem raised_op_bind (x : Op α) (f : α → Op β) :
    s.raised (x >>= f).run =
      s.raised x.run ++
        match s.run x.run with
        | (.ok a, t) => t.raised (f a).run
        | (.error _, _) => [] := by
  have hbind : (x >>= f).run = x.run >>= ExceptT.bindCont f := rfl
  rw [hbind, raised_bind]
  rcases s.run x.run with ⟨_ | _, t⟩ <;> rfl

/-- Behind the gate the store refuses what it refuses the script itself. -/
theorem raised_gated (outside : s.bodies = 0) (h : Handle) (refused : Failure → α)
    (x : Script α) : s.raised (h.gated refused x) = { s with holds := true }.raised x := by
  rw [Handle.gated, raised_bind, run_ask]
  simp only [serve, Handle.request, if_pos outside]
  rw [raised_bind, raised_guarded]
  simp [raised, Script.ask, Script.surely, Action.refused, Bind.bind, Script.andThen, pure]

theorem raised_gated_busy (inside : s.bodies ≠ 0) (h : Handle) (refused : Failure → α)
    (x : Script α) : s.raised (h.gated refused x) = [] := by
  rw [Handle.gated, raised_bind, run_ask]
  simp [serve, Handle.request, if_neg inside, raised, Script.ask, Action.refused, pure]

theorem raised_hold_cases (s : Session) (h : Handle) (x : Handle → Op α) :
    (s.run (h.hold x).run = s.run (x h).run ∧ s.raised (h.hold x).run = s.raised (x h).run) ∨
    (s.run (h.hold x).run = (({ s with holds := true }.run (x h.inside).run).1,
        { ({ s with holds := true }.run (x h.inside).run).2 with holds := false }) ∧
      s.raised (h.hold x).run = { s with holds := true }.raised (x h.inside).run) ∨
    (s.run (h.hold x).run = (.error busyFailure, s) ∧ s.raised (h.hold x).run = []) := by
  cases hm : h.mode with
  | transaction =>
    rw [Handle.run_hold_inside hm]
    exact .inl ⟨rfl, rfl⟩
  | autocommit =>
    rw [Handle.run_hold_outside hm]
    by_cases hbodies : s.bodies = 0
    · exact .inr (.inl ⟨run_gated hbodies .., raised_gated hbodies ..⟩)
    · exact .inr (.inr ⟨run_gated_busy hbodies .., raised_gated_busy hbodies ..⟩)

theorem raised_ask (h : Handle) (job : Job) :
    s.raised (h.ask job) =
      match (s.perform job).1 with
      | .error f => [(job, f)]
      | .ok _ => [] :=
  List.append_nil _

theorem raised_perform {h : Handle} {job : Job} {a : Answer}
    (ok : (s.run (h.perform job).run).1 = .ok a) : s.raised (h.perform job).run = [] := by
  rw [Handle.perform] at ok ⊢
  rcases s.raised_hold_cases h fun inner => .mk (inner.ask job) with
    ⟨hrun, hraised⟩ | ⟨hrun, hraised⟩ | ⟨hrun, -⟩
  · rw [hrun] at ok
    have hanswer : (s.perform job).1 = .ok a := ok
    exact hraised.trans ((raised_ask h job).trans (by rw [hanswer]))
  · rw [hrun] at ok
    have hanswer : ({ s with holds := true }.perform job).1 = .ok a := ok
    exact hraised.trans ((raised_ask h.inside job).trans (by rw [hanswer]))
  · rw [hrun] at ok
    cases ok

theorem allowed_of_raised {h : Handle} {allowed : Job → Prop} {x : Op α}
    (asks : h.Asks allowed x) {job : Job} {f : Failure} (hf : (job, f) ∈ s.raised x.run) :
    allowed job := by
  induction asks generalizing s with
  | decided result => cases hf
  | bind _ _ ihx ihg =>
    rw [raised_op_bind, List.mem_append] at hf
    rcases hf with hf | hf
    · exact ihx hf
    · split at hf
      · exact ihg _ hf
      · cases hf
  | @perform job' hjob =>
    have asked (u : Session) (inner : Handle) (hf : (job, f) ∈ u.raised (inner.ask job')) :
        allowed job := by
      rw [raised_ask] at hf
      split at hf
      · cases List.mem_singleton.mp hf
        exact hjob
      · cases hf
    rw [Handle.perform] at hf
    rcases s.raised_hold_cases h fun inner => .mk (inner.ask job') with
      ⟨-, hraised⟩ | ⟨-, hraised⟩ | ⟨-, hraised⟩
    · rw [hraised] at hf
      exact asked _ _ hf
    · rw [hraised] at hf
      exact asked _ _ hf
    · rw [hraised] at hf
      cases hf

/-- A command that the store refuses a task has changed nothing. -/
theorem sameData_perform (hb : s.behind = []) {k : Command} {f : Failure}
    (h : (s.perform (.command k)).1 = .error f) :
    s.site.connection.SameData (s.perform (.command k)).2.site.connection := by
  rw [perform_of_behind hb] at h ⊢
  cases hopen : s.site.isOpen with
  | false =>
    rw [Site.perform_of_shut hopen (by simp)]
    exact .refl _
  | true =>
    rw [Site.perform_of_isOpen hopen (by simp)] at h ⊢
    cases hexecute : (s.site.connection.execute k).1 with
    | error r => exact .execute hexecute
    | ok a =>
      rw [Connection.perform, hexecute] at h
      cases h

end Session

/-! ## Operations with one write -/

namespace Op

variable {α β : Type} {x : Op α} {f : α → Op β}

/-- An operation that leaves the data if it ends with a failure that a job which writes has
raised. -/
def LeavesData (x : Op α) : Prop :=
  ∀ (s : Session) (e : Failure) (job : Job), s.behind = [] → (s.run x.run).1 = .error e →
    job.Writes → (job, e) ∈ s.raised x.run →
      s.site.connection.SameData (s.run x.run).2.site.connection

theorem LeavesData.reads {h : Handle} (reads : h.Asks Job.Selects x) : LeavesData x :=
  fun _ _ _ hb _ _ _ => .of_eq (reads.connection_run hb).1

theorem LeavesData.pure (a : α) : LeavesData (Pure.pure a : Op α) :=
  fun _ _ _ _ h _ _ => by cases h

theorem LeavesData.throw (f : Failure) : LeavesData (MonadExcept.throw f : Op α) :=
  fun s _ _ _ _ _ _ => .refl s.site.connection

theorem LeavesData.check {e : Except Fault α} (rest : ∀ a, e = .ok a → LeavesData (f a)) :
    LeavesData (liftM e >>= f) := by
  cases e with
  | error fault => exact fun s _ _ _ _ _ _ => .refl s.site.connection
  | ok a => exact rest a rfl

theorem LeavesData.after {h : Handle} (first : h.Asks Job.Selects x) (rest : ∀ a, LeavesData (f a)) :
    LeavesData (x >>= f) := by
  intro s e job hb hrun writes hraised
  obtain ⟨hconnection, hbehind⟩ := first.connection_run hb
  rw [Session.run_op_bind] at hrun ⊢
  rw [Session.raised_op_bind, List.mem_append] at hraised
  cases hx : s.run x.run with | mk result u =>
  rw [hx] at hrun hraised hconnection hbehind
  cases result with
  | error _ => exact .of_eq hconnection
  | ok a =>
    rcases hraised with hfirst | hrest
    · exact absurd writes (Session.allowed_of_raised first hfirst).not_writes
    · exact (Connection.SameData.of_eq hconnection).trans (rest a u e job hbehind hrun writes hrest)

theorem LeavesData.perform {h : Handle} {k : Command} {f : Answer → Op β}
    (rest : ∀ a, h.Asks Job.Selects (f a)) : LeavesData (h.perform (.command k) >>= f) := by
  intro s e job hb hrun writes hraised
  rw [Session.run_op_bind] at hrun ⊢
  rw [Session.raised_op_bind, List.mem_append] at hraised
  cases hx : s.run (h.perform (.command k)).run with | mk result u =>
  rw [hx] at hrun hraised
  cases result with
  | ok a =>
    rw [Session.raised_perform (congrArg Prod.fst hx)] at hraised
    rcases hraised with hfirst | hrest
    · cases hfirst
    · exact absurd writes (Session.allowed_of_raised (rest a) hrest).not_writes
  | error e' =>
    rw [Handle.perform] at hx
    rcases s.raised_hold_cases h fun inner => .mk (inner.ask (.command k)) with
      ⟨hheld, -⟩ | ⟨hheld, -⟩ | ⟨hheld, -⟩
    · obtain ⟨hfailed, rfl⟩ := Prod.mk.inj (hheld.symm.trans hx)
      exact Session.sameData_perform hb hfailed
    · obtain ⟨hfailed, rfl⟩ := Prod.mk.inj (hheld.symm.trans hx)
      exact Session.sameData_perform (s := { s with holds := true }) hb hfailed
    · obtain ⟨-, rfl⟩ := Prod.mk.inj (hheld.symm.trans hx)
      exact .refl _

theorem LeavesData.map (leavesData : LeavesData x) (g : α → β) : LeavesData (x >>= fun a => Pure.pure (g a)) := by
  intro s e job hb hrun writes hraised
  rw [Session.run_op_map] at hrun ⊢
  rw [Session.raised_op_bind, List.mem_append] at hraised
  have hx : (s.run x.run).1 = .error e := by
    cases hresult : (s.run x.run).1 with
    | error _ =>
      rw [hresult] at hrun
      exact congrArg _ (Except.error.inj hrun)
    | ok a =>
      rw [hresult] at hrun
      cases hrun
  rcases hraised with hraised | hraised
  · exact leavesData s e job hb hx writes hraised
  · split at hraised <;> cases hraised

theorem LeavesData.hold {h : Handle} {x : Handle → Op α} (leavesData : ∀ inner, LeavesData (x inner)) :
    LeavesData (h.hold x) := by
  intro s e job hb hrun writes hraised
  rcases s.raised_hold_cases h x with ⟨hheld, hjobs⟩ | ⟨hheld, hjobs⟩ | ⟨hheld, -⟩
  · rw [hheld] at hrun ⊢
    rw [hjobs] at hraised
    exact leavesData h s e job hb hrun writes hraised
  · rw [hheld] at hrun ⊢
    rw [hjobs] at hraised
    exact leavesData h.inside { s with holds := true } e job hb hrun writes hraised
  · rw [hheld]
    exact .refl _

end Op

/-! ## Batches -/

namespace Session

variable {s t : Session} {h : Handle} {jobs : List Job}

/-- A session in which a handle is used as it has to be: nothing is left to be done behind
the next job, and the handle of a transaction is used while that transaction is open. -/
structure Usable (s : Session) (h : Handle) : Prop where
  behind : s.behind = []
  apart : s.inBatch = false
  inside : h.mode = .transaction →
    ∃ t, s.site.connection.opened = some t ∧ t.implicit = false

theorem run_wholeBatch_shut (hb : s.behind = []) (shut : s.site.isOpen = false) (h : Handle)
    (jobs : List Job) :
    (s.run (h.wholeBatch jobs)).2.site.connection = s.site.connection := by
  rw [Handle.wholeBatch, run_bind, run_handle_ask, perform_of_behind hb,
    Site.perform_of_shut shut (by simp)]
  rfl

theorem run_partialBatch_shut (hb : s.behind = []) (shut : s.site.isOpen = false) (h : Handle)
    (jobs : List Job) :
    (s.run (h.partialBatch jobs)).2.site.connection = s.site.connection := by
  rw [Handle.partialBatch, run_bind, run_handle_control, perform_of_behind hb,
    Site.perform_of_shut shut (by simp)]
  rfl

theorem sameData_wholeBatch (usable : s.Usable h) (plain : ∀ job ∈ jobs, job.IsPlain)
    (inner : Handle) {e : Failure} (hrun : (s.run (inner.wholeBatch jobs)).1 = .error e) :
    s.site.connection.SameData (s.run (inner.wholeBatch jobs)).2.site.connection := by
  cases hopen : s.site.isOpen with
  | false => exact .of_eq (run_wholeBatch_shut usable.behind hopen inner jobs)
  | true =>
    have ready : s.Ready := ⟨hopen, usable.behind⟩
    cases hopened : s.site.connection.opened with
    | some t =>
      rw [Handle.wholeBatch, run_bind, run_handle_ask, perform_begin_again ready hopened]
      exact .refl _
    | none =>
      obtain ⟨n, hn⟩ := run_wholeBatch ready inner plain hopened
      rw [hn] at hrun ⊢
      cases hwhole : (s.site.connection.whole jobs).1 with
      | error r => exact .whole hopened hwhole
      | ok counts =>
        rw [hwhole] at hrun
        cases hrun

theorem sameData_partialBatch (usable : s.Usable h) (inside : h.mode = .transaction)
    (plain : ∀ job ∈ jobs, job.IsPlain) {e : Failure}
    (hrun : (s.run (h.partialBatch jobs)).1 = .error e) :
    s.site.connection.SameData (s.run (h.partialBatch jobs)).2.site.connection := by
  cases hopen : s.site.isOpen with
  | false => exact .of_eq (run_partialBatch_shut usable.behind hopen h jobs)
  | true =>
    obtain ⟨t, hopened, explicit⟩ := usable.inside inside
    obtain ⟨n, hn⟩ := run_partialBatch ⟨hopen, usable.behind⟩ usable.apart h plain hopened explicit
    rw [hn] at hrun ⊢
    cases hpart : (s.site.connection.part t jobs).1 with
    | error r => exact .part hopened hpart
    | ok counts =>
      rw [hpart] at hrun
      cases hrun

theorem sameData_batch (usable : s.Usable h) (plain : ∀ job ∈ jobs, job.IsPlain) {e : Failure}
    (hrun : (s.run (h.batch jobs).run).1 = .error e) :
    s.site.connection.SameData (s.run (h.batch jobs).run).2.site.connection := by
  rcases h.run_batch_cases jobs with hx | ⟨-, hx⟩ | ⟨inside, hx⟩
  · rw [hx] at hrun
    cases hrun
  · rw [hx] at hrun ⊢
    by_cases hbodies : s.bodies = 0
    · rw [run_gated hbodies] at hrun ⊢
      have usable' : { s with holds := true }.Usable h :=
        ⟨usable.behind, usable.apart, usable.inside⟩
      exact sameData_wholeBatch usable' plain h hrun
    · rw [run_gated_busy hbodies]
      exact .refl _
  · rw [hx] at hrun ⊢
    exact sameData_partialBatch usable inside plain hrun

end Session

/-! ## Operations of a model -/

namespace Model

open Op

variable {m : Model}

theorem leavesData_create (fresh : String) (data : Record) : LeavesData (m.create fresh data) := by
  refine .check fun _ _ => .check fun k _ => .perform fun _ => ?_
  refine .bind (m.reads_findUnique _) fun row => ?_
  cases row with
  | some row => exact .pure row
  | none => exact .throw _

theorem leavesData_updateHeld (f : Filter) (data : Record) : LeavesData (m.updateHeld f data) := by
  refine .after (m.reads_findUnique _) fun found => ?_
  cases found with
  | none => exact .pure none
  | some found =>
    exact .check fun _ _ => .check fun _ _ => .perform fun _ => m.reads_findUnique _

theorem leavesData_update (f : Filter) (data : Record) : LeavesData (m.update f data) := by
  rw [update_eq]
  split
  · exact .check fun _ _ => .check fun _ _ => .hold fun inner => leavesData_updateHeld f data
  · exact .throw _

theorem leavesData_updateMany (f : Filter) (data : Record) : LeavesData (m.updateMany f data) := by
  unfold updateMany
  split
  · exact .check fun _ _ => .check fun _ _ => .check fun _ _ => .check fun _ _ =>
      .perform fun _ => .pure _
  · exact .pure 0

theorem leavesData_delete (f : Filter) : LeavesData (m.delete f) := by
  rw [delete_eq]
  refine .check fun _ _ => .hold fun inner => .after (reads_findUnique _ _) fun found => ?_
  cases found with
  | none => exact .pure none
  | some found => exact .check fun _ _ => .check fun _ _ => .perform fun _ => .pure _

theorem leavesData_deleteMany (f : Filter) : LeavesData (m.deleteMany f) :=
  .check fun _ _ => .check fun _ _ => .check fun _ _ => .perform fun _ => .pure _

theorem leavesData_upsert (fresh : String) (f : Filter) (create update : Record) :
    LeavesData (m.upsert fresh f create update) := by
  rw [upsert_eq]
  refine .hold fun inner => .after (reads_findUnique _ _) fun found => ?_
  cases found with
  | none => exact leavesData_create _ _
  | some found =>
    by_cases hdata : update.hasAssignments = true
    · simp only [if_pos hdata]
      exact .map (leavesData_update _ _) _
    · simp only [if_neg hdata]
      exact .pure found

/-- Rows that cannot all be added are not added. -/
theorem sameData_createMany {s : Session} (usable : s.Usable m.handle)
    (rows : List (String × Record)) {e : Failure}
    (hrun : (s.run (m.createMany rows).run).1 = .error e) :
    s.site.connection.SameData (s.run (m.createMany rows).run).2.site.connection := by
  unfold createMany at hrun ⊢
  by_cases hempty : rows.isEmpty = true
  · rw [if_pos hempty] at hrun
    cases hrun
  · rw [if_neg hempty] at hrun ⊢
    cases hks : m.insertions rows with
    | error fault => exact .refl _
    | ok ks =>
      rw [hks] at hrun
      change (s.run (m.handle.batch (ks.map .command) >>= fun counts =>
        Pure.pure (counts.foldl (· + ·) 0)).run).1 = _ at hrun
      change s.site.connection.SameData (s.run (m.handle.batch (ks.map .command) >>= fun counts =>
        Pure.pure (counts.foldl (· + ·) 0)).run).2.site.connection
      rw [Session.run_op_map] at hrun ⊢
      cases hbatch : (s.run (m.handle.batch (ks.map .command)).run).1 with
      | error _ => exact Session.sameData_batch usable (m.isPlain_insertions hks) hbatch
      | ok counts =>
        rw [hbatch] at hrun
        cases hrun

/-- Every operation that fails because a statement that writes was refused. -/
theorem sameData_of_raised {α : Type} (o : Operation α) {s : Session} (usable : s.Usable m.handle)
    {e : Failure} (hrun : (s.run (m.ask o).run).1 = .error e) {job : Job} (writes : job.Writes)
    (raised : (job, e) ∈ s.raised (m.ask o).run) :
    s.site.connection.SameData (s.run (m.ask o).run).2.site.connection := by
  have spared (leavesData : LeavesData (m.ask o)) :
      s.site.connection.SameData (s.run (m.ask o).run).2.site.connection :=
    leavesData s e job usable.behind hrun writes raised
  cases o with
  | findMany find => exact spared (.reads (m.reads_findMany find))
  | findFirst find => exact spared (.reads (m.reads_findFirst find))
  | findUnique find => exact spared (.reads (m.reads_findUnique find))
  | count f => exact spared (.reads (m.reads_count f))
  | aggregate a => exact spared (.reads (m.reads_aggregate a))
  | create fresh data => exact spared (leavesData_create fresh data)
  | createMany rows => exact sameData_createMany usable rows hrun
  | update f data => exact spared (leavesData_update f data)
  | updateMany f data => exact spared (leavesData_updateMany f data)
  | delete f => exact spared (leavesData_delete f)
  | deleteMany f => exact spared (leavesData_deleteMany f)
  | upsert fresh f create update => exact spared (leavesData_upsert fresh f create update)

/-- An operation that ends with a fault of the query, or with a failure that the store raised
for a statement that writes, leaves every table as it was, and the transaction open in which
it was asked. -/
theorem failedWrite_leaves {α : Type} {d : Declaration} (built : d.build = .ok m.schema)
    (o : Operation α) {s t : Session} (usable : s.Usable m.handle) {e : Failure}
    (h : s.run (m.ask o).run = (.error e, t))
    (failed : (∃ f, e = .fault f) ∨
      ∃ job, job.Writes ∧ (job, e) ∈ s.raised (m.ask o).run) :
    t.site.connection.database = s.site.connection.database ∧
      t.site.connection.opened = s.site.connection.opened := by
  have hrun : (s.run (m.ask o).run).1 = .error e := congrArg Prod.fst h
  have hsame : s.site.connection.SameData (s.run (m.ask o).run).2.site.connection := by
    rcases failed with ⟨f, rfl⟩ | ⟨job, writes, raised⟩
    · have admits : m.schema.admits m.table Record.key = true :=
        Schema.admits_iff.mpr (Declaration.declaresKeys_build built m.table)
      exact .of_eq (harmless_ask admits o s f usable.behind hrun)
    · exact sameData_of_raised o usable hrun writes raised
  rw [h] at hsame
  exact ⟨hsame.database, hsame.opened⟩

def ordersInside : Model :=
  orderModel.through orderModel.handle.inside

def twoOrdersAlike : Operation Nat :=
  .createMany [("x", [("id", .text "b")]), ("y", [("id", .text "b")])]

theorem failedWrite_leaves_orders :
    ∃ t, Client.keyedSession.begun.run (ordersInside.ask twoOrdersAlike).run =
        (.error (.duplicate "orders.id" "unknown"), t) ∧
      t.site.connection.database = Client.keyedSession.begun.site.connection.database ∧
      t.site.connection.opened = Client.keyedSession.begun.site.connection.opened := by
  have built : Declaration.build {} = .ok ordersInside.schema := rfl
  have usable : Client.keyedSession.begun.Usable ordersInside.handle :=
    ⟨rfl, rfl, fun _ => ⟨_, rfl, rfl⟩⟩
  obtain ⟨t, ht⟩ : ∃ t, Client.keyedSession.begun.run (ordersInside.ask twoOrdersAlike).run =
      (.error (.duplicate "orders.id" "unknown"), t) := ⟨_, rfl⟩
  have raised : (Client.insertKeyed "b", .duplicate "orders.id" "unknown") ∈
      Client.keyedSession.begun.raised (ordersInside.ask twoOrdersAlike).run :=
    List.mem_singleton_self _
  exact ⟨t, ht, failedWrite_leaves built twoOrdersAlike usable ht
    (.inr ⟨Client.insertKeyed "b", rfl, raised⟩)⟩

end Model

end Relata
