import Relata.Proofs.Script.Batch

/-! # Calls

A call is an operation that reaches a store through one handle only: jobs on data, batches
of them, what holds the gate for a while, and what is made of their results. In the body
of a transaction a call from outside gets no further than the gate, and one from inside
leaves the transaction as it is.
-/

namespace Relata

/-- An operation through a handle. -/
inductive Handle.Calls : Handle → {α : Type} → Op α → Prop
  /-- What needs no store. -/
  | decided {h : Handle} {α : Type} (result : Except Failure α) : Calls h (.mk (.done result))
  | bind {h : Handle} {α β : Type} {x : Op α} {f : α → Op β} (first : Calls h x)
      (rest : ∀ a, Calls h (f a)) : Calls h (x >>= f)
  | perform {h : Handle} {job : Job} (plain : job.IsPlain) : Calls h (h.perform job)
  | batch {h : Handle} {jobs : List Job} (plain : ∀ job ∈ jobs, job.IsPlain) :
      Calls h (h.batch jobs)
  | hold {h : Handle} {α : Type} {x : Handle → Op α} (held : Calls h.inside (x h.inside)) :
      Calls h (h.hold x)

theorem Handle.inside_of_mode {h : Handle} (hm : h.mode = .transaction) : h.inside = h := by
  obtain ⟨store, mode⟩ := h
  cases hm
  rfl

namespace Session

/-- The task is in the body of a transaction that began with a database. -/
structure InBody (before : Database) (s : Session) : Prop extends s.Ready where
  opened : s.site.connection.opened = some { before }
  bodies : s.bodies = 1
  holds : s.holds = true
  apart : s.inBatch = false

variable {α : Type} {s : Session} {before : Database} {h : Handle}

theorem InBody.moved (body : s.InBody before) {c : Connection}
    (hc : c.opened = some { before }) (n : Nat) : (s.moved c n).InBody before :=
  ⟨⟨body.isOpen, body.behind⟩, hc, body.bodies, body.holds, body.apart⟩

theorem InBody.perform_plain (body : s.InBody before) {job : Job} (hj : job.IsPlain) :
    (s.perform job).2.InBody before := by
  obtain ⟨n, hn⟩ := Session.perform_plain body.toReady hj
  rw [hn]
  exact body.moved ((Connection.opened_perform_of_plain hj).trans body.opened) n

theorem InBody.partialBatch (body : s.InBody before) (h : Handle) {jobs : List Job}
    (plain : ∀ job ∈ jobs, job.IsPlain) :
    (s.run (h.partialBatch jobs)).2.InBody before := by
  obtain ⟨n, hn⟩ := run_partialBatch body.toReady body.apart h plain body.opened rfl
  rw [hn]
  refine body.moved ?_ n
  rw [Connection.part]
  split <;> rfl

theorem run_of_outside {x : Op α} (calls : h.Calls x) (outside : h.mode = .autocommit) :
    (∃ result, x.run = .done result) ∨
      ∀ s : Session, s.bodies ≠ 0 → s.run x.run = (.error busyFailure, s) := by
  induction calls with
  | decided result => exact .inl ⟨result, rfl⟩
  | @bind h α β x f first rest ihx ihf =>
    have hbind : (x >>= f).run = x.run >>= ExceptT.bindCont f := rfl
    rcases ihx outside with ⟨result, hx⟩ | hx
    · rw [hbind, hx]
      cases result with
      | error e => exact .inl ⟨.error e, rfl⟩
      | ok a => exact ihf a outside
    · refine .inr fun s inside => ?_
      rw [run_op_bind, hx s inside]
  | perform plain =>
    refine .inr fun s inside => ?_
    rw [run_perform_outside outside, if_neg inside]
  | @batch h jobs plain =>
    rw [Handle.batch]
    by_cases empty : jobs.isEmpty = true
    · rw [if_pos empty]
      exact .inl ⟨_, rfl⟩
    · rw [if_neg empty, outside]
      exact .inr fun s inside => run_gated_busy inside _ _ _
  | hold held =>
    rw [Handle.hold, outside]
    exact .inr fun s inside => run_gated_busy inside _ _ _

theorem InBody.outside (body : s.InBody before) {x : Op α} (calls : h.Calls x)
    (outside : h.mode = .autocommit) : (s.run x.run).2 = s := by
  have inside : s.bodies ≠ 0 := by
    rw [body.bodies]
    decide
  rcases run_of_outside calls outside with ⟨result, hx⟩ | hx
  · rw [hx, run_done]
  · rw [hx s inside]

theorem InBody.call (body : s.InBody before) {x : Op α} (calls : h.Calls x) :
    (s.run x.run).2.InBody before := by
  cases hm : h.mode with
  | autocommit =>
    rw [body.outside calls hm]
    exact body
  | transaction =>
    induction calls generalizing s with
    | decided result => exact body
    | @bind h α β x f first rest ihx ihf =>
      have hx := ihx body hm
      rw [run_op_bind]
      cases hrun : s.run x.run with | mk result u =>
      rw [hrun] at hx
      cases result with
      | error e => exact hx
      | ok a => exact ihf a hx hm
    | perform plain =>
      rw [run_perform_inside hm]
      exact body.perform_plain plain
    | @batch h jobs plain =>
      rw [Handle.batch]
      by_cases empty : jobs.isEmpty = true
      · rw [if_pos empty]
        exact body
      · rw [if_neg empty, hm]
        exact body.partialBatch h plain
    | @hold h α x held ih =>
      rw [Handle.inside_of_mode hm] at ih
      rw [Handle.hold, hm]
      exact ih body hm

end Session

end Relata
