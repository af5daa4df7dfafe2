import Relata.Proofs.Model.Calls
import Relata.Proofs.Script.Alike
import Relata.Proofs.Script.Transaction

/-! # Batches

A batch is all or nothing, in a transaction of its own as well as inside of one. If it
succeeds, it is as if its statements had been carried out one after another. If it fails,
it is as if it had never been asked for, except for what the store and its connection count.
Jobs that do not look at those counters do not see that it was asked for.
-/

namespace Relata

namespace Connection

variable {c : Connection} {t : Transaction} {jobs : List Job}

/-- All of the jobs in a row, or the first refusal and the database as it was. -/
def batch (c : Connection) (jobs : List Job) : Except Refusal (List Nat) × Connection :=
  match c.performAll jobs with
  | (.ok counts, d) => (.ok counts, d)
  | (.error r, d) => (.error r, { d with database := c.database })

theorem part_eq_batch (plain : ∀ job ∈ jobs, job.IsPlain) (opened : c.opened = some t) :
    c.part t jobs = c.batch jobs := by
  let marked := some (t.marked Handle.batchName c.database)
  have hall : (c.under marked).performAll jobs =
      ((c.performAll jobs).1, (c.performAll jobs).2.under marked) :=
    performAll_under plain (.inl (by rw [opened]; rfl))
  have hopened : (c.performAll jobs).2.opened = some t := (opened_performAll plain).trans opened
  rw [batch]
  cases hr : c.performAll jobs with | mk result d =>
  rw [hr] at hall hopened
  cases result with
  | ok counts =>
    rw [part_ok hall]
    simp only [under, ← hopened]
  | error r =>
    rw [part_error hall]
    simp only [under, ← hopened]

theorem whole_eq_batch (plain : ∀ job ∈ jobs, job.IsPlain) (closed : c.opened = none)
    (unbroken : c.begun.Unbroken jobs) : c.whole jobs = c.batch jobs := by
  have hall : c.begun.performAll jobs =
      ((c.performAll jobs).1, (c.performAll jobs).2.under (some { before := c.database })) :=
    performAll_under plain (.inr ⟨rfl, unbroken⟩)
  have hopened : (c.performAll jobs).2.opened = none := (opened_performAll plain).trans closed
  rw [batch]
  cases hr : c.performAll jobs with | mk result d =>
  rw [hr] at hall hopened
  cases result with
  | ok counts =>
    have kept : d.database.broken true = false := by
      have := unbroken jobs.length
      rwa [List.take_length, hall] at this
    rw [whole_ok hall]
    simp only [under, kept, ← hopened, Bool.false_eq_true, if_false]
  | error r =>
    rw [whole_error hall]
    simp only [under, ← hopened]

end Connection

namespace Session

variable {s : Session} {h : Handle} {jobs : List Job}

/-- A session in which a batch may be asked for: its store answers, and it is outside of
transactions, or in one that has begun, as the handle says. Outside, no statement may
leave a reference broken until the end of a transaction. -/
structure Admits (s : Session) (h : Handle) (jobs : List Job) : Prop extends s.Ready where
  apart : s.inBatch = false
  outside : h.mode = .autocommit →
    s.bodies = 0 ∧ s.site.connection.opened = none ∧ s.site.connection.begun.Unbroken jobs
  inside : h.mode = .transaction →
    ∃ t, s.site.connection.opened = some t ∧ t.implicit = false

theorem Admits.run_batch (admits : s.Admits h jobs) (plain : ∀ job ∈ jobs, job.IsPlain) :
    ∃ u, s.run (h.batch jobs).run =
        ((s.site.connection.batch jobs).1.mapError Refusal.failure, u) ∧
      u.site.connection = (s.site.connection.batch jobs).2 ∧ u.site.isOpen = s.site.isOpen ∧
      u.bodies = s.bodies ∧ u.behind = s.behind ∧ u.inBatch = s.inBatch := by
  rw [Handle.batch]
  by_cases empty : jobs.isEmpty = true
  · rw [if_pos empty, List.isEmpty_iff.mp empty]
    exact ⟨s, rfl, rfl, rfl, rfl, rfl, rfl⟩
  · rw [if_neg empty]
    cases hm : h.mode with
    | autocommit =>
      obtain ⟨hbodies, closed, unbroken⟩ := admits.outside hm
      have ready : { s with holds := true }.Ready := ⟨admits.isOpen, admits.behind⟩
      obtain ⟨n, hn⟩ := run_wholeBatch ready h plain closed
      rw [Connection.whole_eq_batch plain closed unbroken] at hn
      refine ⟨_, (run_gated hbodies h _ _).trans (by rw [hn]), ?_⟩
      exact ⟨rfl, rfl, rfl, rfl, rfl⟩
    | transaction =>
      obtain ⟨t, opened, explicit⟩ := admits.inside hm
      obtain ⟨n, hn⟩ := run_partialBatch admits.toReady admits.apart h plain opened explicit
      rw [Connection.part_eq_batch plain opened] at hn
      exact ⟨_, hn, rfl, rfl, rfl, rfl, rfl⟩

/-- A session in which nothing that comes later shows a difference, unless it looks at
counters: whatever else is asked, the store tells the same, and in the end the database and
the open transaction are the same. -/
def AsBefore (s u : Session) : Prop :=
  ∀ (h : Handle) (later : List FollowUp),
    let dialect := s.site.connection.dialect
    let v := s.followUp dialect h later
    let w := u.followUp dialect h later
    (∀ m ∈ later, ∀ job ∈ m.jobs, job.Blind dialect) →
    w.1 = v.1 ∧ w.2.site.connection.database = v.2.site.connection.database ∧
      w.2.site.connection.opened = v.2.site.connection.opened

/-- The result of a batch, and what it leaves. -/
inductive AllOrNothing (s : Session) (jobs : List Job) :
    Except Failure (List Nat) → Session → Prop
  /-- As if the jobs had been carried out one after another, with one count for each. -/
  | all {counts : List Nat} {u : Session}
      (performed : s.site.connection.performAll jobs = (.ok counts, u.site.connection))
      (length : counts.length = jobs.length)
      (opened : u.site.connection.opened = s.site.connection.opened) :
      AllOrNothing s jobs (.ok counts) u
  /-- The failure of the first job that is refused, and as if nothing had been asked. -/
  | nothing {f : Failure} {r : Refusal} {d : Connection} {u : Session}
      (refused : s.site.connection.performAll jobs = (.error r, d)) (failure : f = r.failure)
      (database : u.site.connection.database = s.site.connection.database)
      (opened : u.site.connection.opened = s.site.connection.opened)
      (later : s.AsBefore u) : AllOrNothing s jobs (.error f) u

theorem Admits.allOrNothing (admits : s.Admits h jobs) (plain : ∀ job ∈ jobs, job.IsPlain) :
    s.AllOrNothing jobs (s.run (h.batch jobs).run).1 (s.run (h.batch jobs).run).2 := by
  obtain ⟨u, hrun, hconnection, hisOpen, hbodies, hbehind, hinBatch⟩ := admits.run_batch plain
  have hopened := Connection.opened_performAll (c := s.site.connection) plain
  rw [hrun]
  rw [Connection.batch] at hconnection ⊢
  cases hall : s.site.connection.performAll jobs with | mk result d =>
  rw [hall] at hconnection hopened
  cases result with
  | ok counts =>
    cases hconnection
    exact .all hall (Connection.length_performAll (congrArg Prod.fst hall)) hopened
  | error r =>
    have hdialect := Connection.dialect_performAll s.site.connection jobs
    rw [hall] at hdialect
    have alike : Alike s.site.connection.dialect u s := by
      refine ⟨⟨?_, hisOpen⟩, hbodies, hbehind, ?_, hinBatch⟩
      · rw [hconnection]
        exact ⟨rfl, hopened, hdialect, rfl⟩
      · rw [hbehind, admits.behind]
        rintro job ⟨⟩
    refine .nothing hall rfl alike.site.connection.database alike.site.connection.opened ?_
    intro h later _ _ _ blind
    obtain ⟨htold, hafter⟩ := alike.followUp h blind
    exact ⟨htold, hafter.site.connection.database, hafter.site.connection.opened⟩

/-- The result of adding many rows, and what it leaves. -/
inductive AllAdded (s : Session) (m : Model) (rows : List (String × Record)) :
    Except Failure Nat → Session → Prop
  /-- As many as there are; each was added by an insertion of its own. -/
  | all {ks : List Command} {u : Session} (insertions : m.insertions rows = .ok ks)
      (length : ks.length = rows.length)
      (performed : s.site.connection.performAll (ks.map .command) =
        (.ok (List.replicate rows.length 1), u.site.connection))
      (added : s.site.connection.database.Distinct →
        u.site.connection.database.rowCount =
          s.site.connection.database.rowCount + rows.length) :
      AllAdded s m rows (.ok rows.length) u
  /-- None of them, as if nothing had been asked. -/
  | nothing {f : Failure} {u : Session}
      (database : u.site.connection.database = s.site.connection.database)
      (opened : u.site.connection.opened = s.site.connection.opened)
      (later : s.AsBefore u) : AllAdded s m rows (.error f) u

theorem asBefore_refl (s : Session) : s.AsBefore s :=
  fun _ _ _ => ⟨rfl, rfl, rfl⟩

theorem allAdded_createMany {m : Model} {rows : List (String × Record)}
    (admits : ∀ ks, m.insertions rows = .ok ks → s.Admits m.handle (ks.map .command)) :
    s.AllAdded m rows (s.run (m.createMany rows).run).1 (s.run (m.createMany rows).run).2 := by
  rw [Model.createMany]
  by_cases empty : rows.isEmpty = true
  · rw [if_pos empty, List.isEmpty_iff.mp empty]
    exact .all rfl rfl rfl fun _ => rfl
  · rw [if_neg empty]
    cases hks : m.insertions rows with
    | error fault => exact .nothing rfl rfl s.asBefore_refl
    | ok ks =>
      obtain ⟨hlength, hverb⟩ := m.insertions_ok hks
      have hbatch := (admits ks hks).allOrNothing (m.isPlain_insertions hks)
      have hrun := run_op_map (s := s) (m.handle.batch (ks.map .command)) (List.foldl (· + ·) 0)
      change s.AllAdded m rows (s.run (m.handle.batch (ks.map .command) >>= fun counts =>
        pure (counts.foldl (· + ·) 0)).run).1 (s.run (m.handle.batch (ks.map .command) >>=
          fun counts => pure (counts.foldl (· + ·) 0)).run).2
      rw [hrun]
      generalize s.run (m.handle.batch (ks.map .command)).run = r at hbatch ⊢
      obtain ⟨result, u⟩ := r
      cases hbatch with
      | nothing refused failure database opened later => exact .nothing database opened later
      | @all counts _ performed length opened =>
        obtain ⟨rfl, hadded⟩ := Connection.performAll_insertions hverb
          (congrArg Prod.fst performed)
        have hsum : (List.replicate ks.length 1).foldl (· + ·) 0 = rows.length := by
          rw [hlength, ← List.sum_eq_foldl_nat, List.sum_replicate_nat, Nat.mul_one]
        rw [performed, hlength] at hadded
        rw [hlength] at performed
        simp only [Except.map, hsum]
        exact .all hks hlength performed hadded

end Session

namespace Client

/-- Batches of a client, and the rows that are added by one of its models, are all or
nothing, outside of transactions and inside. -/
theorem batch_all_or_nothing (c : Client) (s : Session) :
    (∀ jobs : List Job, (∀ job ∈ jobs, job.IsPlain) → s.Admits c.handle jobs →
      s.AllOrNothing jobs (s.run (c.batch jobs).run).1 (s.run (c.batch jobs).run).2) ∧
    ∀ (m : Model) (rows : List (String × Record)),
      (∀ ks, m.insertions rows = .ok ks → s.Admits m.handle (ks.map .command)) →
      s.AllAdded m rows (s.run (m.createMany rows).run).1 (s.run (m.createMany rows).run).2 :=
  ⟨fun _ plain admits => admits.allOrNothing plain, fun _ _ => Session.allAdded_createMany⟩

def keyedSession : Session :=
  .ofDatabase
    { tables :=
        [⟨{ name := "orders", columns := [{ name := "id" }], indexes := [⟨"id", true⟩] }, []⟩] }

def insertKeyed (id : String) : Job :=
  .command (.insert "orders" [("id", .text id)])

theorem batch_all_or_nothing_orders :
    ∃ u, keyedSession.run (batch { depthLimit := 5 } [insertKeyed "b", insertKeyed "b"]).run =
        (.error (.duplicate "orders.id" "unknown"), u) ∧
      u.site.connection.database = keyedSession.site.connection.database := by
  have plain : ∀ job ∈ [insertKeyed "b", insertKeyed "b"], job.IsPlain := by
    simp [insertKeyed, Job.IsPlain, Command.verb?]
  have unbroken : keyedSession.site.connection.begun.Unbroken [insertKeyed "b", insertKeyed "b"] :=
    Connection.unbroken_of_prompt plain (by simp [insertKeyed, Job.IsPrompt])
      (by rintro _ _ ⟨⟩) (by
        intro t ht r hr
        cases List.mem_singleton.mp ht
        cases hr)
  have h := (batch_all_or_nothing { depthLimit := 5 } keyedSession).1 _ plain
    ⟨⟨rfl, rfl⟩, rfl, fun _ => ⟨rfl, rfl, unbroken⟩, fun inside => by cases inside⟩
  obtain ⟨u, hu⟩ : ∃ u,
      keyedSession.run (batch { depthLimit := 5 } [insertKeyed "b", insertKeyed "b"]).run =
        (.error (.duplicate "orders.id" "unknown"), u) := ⟨_, rfl⟩
  rw [hu] at h
  cases h with
  | nothing _ _ database => exact ⟨u, hu, database⟩

def countersText : String :=
  "SELECT changes() AS changes, total_changes() AS total, last_insert_rowid() AS number"

/-- A dialect in which there is a statement that asks for all that a connection counts. -/
def counterDialect : Dialect := fun s =>
  if s.sql = countersText then some
    { writes := false
      run := fun db n =>
        { rows := .ok [[("changes", .integer (Int64.ofNat n.changes)),
            ("total", .integer (Int64.ofNat n.total)),
            ("number", .integer (Int64.ofInt n.lastRow))]]
          database := db
          counters := n } }
  else none

/-- A batch that fails is seen by a statement that writes nothing: it answers with the
rows that the last writing command changed, which is one before the batch and none after. None
of the counters is taken back, and so a statement that asks for them sees the batch, too. -/
theorem execute_after_batch :
    let c : Client := { handle := { mode := .transaction }, depthLimit := 5 }
    let start : Session :=
      { site := { connection := { keyedSession.site.connection with dialect := counterDialect } } }
    ∃ s u, start.begun.run (c.batch [insertKeyed "a"]).run = (.ok [1], s) ∧
      s.run (c.batch [insertKeyed "b", insertKeyed "b"]).run =
        (.error (.duplicate "orders.id" "unknown"), u) ∧
      (s.run (c.execute "SELECT ? AS a" [.integer 1]).run).1 = .ok 1 ∧
      (u.run (c.execute "SELECT ? AS a" [.integer 1]).run).1 = .ok 0 ∧
      (s.run (c.query countersText []).run).1 =
        .ok [[("changes", .integer 1), ("total", .integer 1), ("number", .integer 1)]] ∧
      (u.run (c.query countersText []).run).1 =
        .ok [[("changes", .integer 0), ("total", .integer 2), ("number", .integer 2)]] :=
  ⟨_, _, rfl, rfl, rfl, rfl, rfl, rfl⟩

end Client

end Relata
