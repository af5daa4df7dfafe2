import Relata.Proofs.Script.Call
import Relata.Client

/-! # Transactions in sessions

The body of a transaction may call the store through any handle and may try transactions
of its own. Whatever it does, it stays between the beginning of its transaction and the
end, so that either all of it is kept or nothing.
-/

namespace Relata

/-- What may run in the body of a transaction: calls through any handles, transactions that
are tried, and what is made of their results and failures. -/
inductive Script.IsBody : {α : Type} → Script α → Prop
  | done {α : Type} (a : α) : IsBody (.done a)
  | bind {α β : Type} {x : Script α} {f : α → Script β} (first : IsBody x)
      (rest : ∀ a, IsBody (f a)) : IsBody (x >>= f)
  | call {α : Type} {h : Handle} {x : Op α} (calls : h.Calls x) : IsBody x.run
  | transaction {ε α : Type} (h : Handle) (body : Handle → Script (Except ε α)) :
      IsBody (h.transaction body)
  | tally (h : Handle) : IsBody h.tally

def Failure.nested : Failure :=
  .transaction "cannot start a transaction within a transaction"

theorem Refusal.failure_alreadyOpen : Refusal.alreadyOpen.failure = .nested := by
  rfl

namespace Session

variable {α ε : Type} {s : Session} {before : Database} {h : Handle}

theorem InBody.run_transaction_inside (body : s.InBody before) (inside : h.mode = .transaction)
    (nested : Handle → Script (Except ε α)) :
    s.run (h.transaction nested) = (.refused .nested, s) := by
  rw [Handle.transaction, Handle.passing, inside]
  simp only [Handle.bracket]
  rw [run_bind, run_handle_control, perform_begin_again body.toReady body.opened,
    Refusal.failure_alreadyOpen]
  rfl

theorem InBody.run_transaction_outside (body : s.InBody before)
    (outside : h.mode = .autocommit) (nested : Handle → Script (Except ε α)) :
    s.run (h.transaction nested) = (.refused busyFailure, s) := by
  rw [Handle.transaction, Handle.passing, outside]
  exact run_gated_busy (by simp [body.bodies]) _ _ _

/-- Whatever a body does, the task is still in the body afterwards. -/
theorem InBody.run (body : s.InBody before) {x : Script α} (hx : x.IsBody) :
    (s.run x).2.InBody before := by
  induction hx generalizing s with
  | done a => exact body
  | bind first rest ihx ihf =>
    rw [run_bind]
    exact ihf _ (ihx body)
  | call calls => exact body.call calls
  | transaction h nested =>
    cases hm : h.mode with
    | autocommit =>
      rw [body.run_transaction_outside hm]
      exact body
    | transaction =>
      rw [body.run_transaction_inside hm]
      exact body
  | tally h => exact body

/-- The task is in no body, no transaction is open, and nothing is to be done. -/
structure Idle (s : Session) : Prop where
  behind : s.behind = []
  closed : s.site.connection.opened = none
  bodies : s.bodies = 0
  apart : s.inBatch = false

def begun (s : Session) : Session :=
  { s.moved s.site.connection.begun s.site.executed with
    holds := true
    bodies := 1 }

def ended (s : Session) (db : Database) : Session :=
  { s.moved { s.site.connection with database := db, opened := none } s.site.executed with
    holds := false
    bodies := 0 }

theorem Idle.begun (idle : s.Idle) (isOpen : s.site.isOpen = true) :
    s.begun.InBody s.site.connection.database :=
  ⟨⟨isOpen, idle.behind⟩, rfl, rfl, rfl, idle.apart⟩

theorem InBody.ended (body : s.InBody before) (db : Database) : (s.ended db).Idle :=
  ⟨body.behind, rfl, rfl, body.apart⟩

theorem Idle.run_transaction_shut (idle : s.Idle) (shut : s.site.isOpen = false)
    (outside : h.mode = .autocommit) (body : Handle → Script (Except ε α)) :
    s.run (h.transaction body) = (.refused Site.shutFailure, { s with holds := false }) := by
  have hbegin : { s with holds := true }.perform (.control .begin) =
      (.error Site.shutFailure, { s with holds := true }) := by
    rw [perform_of_behind (s := { s with holds := true }) idle.behind]
    simp only [Site.perform, shut]
    rfl
  rw [Handle.transaction, Handle.passing, outside]
  simp only [run_gated idle.bodies, Handle.bracket]
  rw [run_bind, run_handle_control, hbegin]
  rfl

/-- How a transaction ends after a body with a result, and what is left. -/
def outcome (before : Database) : Except ε α × Session → Ending ε α × Session
  | (.error e, u) => (.failed e, u.ended before)
  | (.ok a, u) =>
    if u.site.connection.database.broken true then
      (.undone a (.ofControl Refusal.brokenReference.failure), u.ended before)
    else (.committed a, u.ended u.site.connection.database)

def left (s : Session) : Session :=
  { s with bodies := 0 }

theorem InBody.ready_left (body : s.InBody before) : s.left.Ready :=
  ⟨body.isOpen, body.behind⟩

theorem InBody.run_leave (body : s.InBody before) (h : Handle) :
    s.run (.surely (h.request .leave)) = ((), s.left) := by
  have : s.bodies - 1 = 0 := by rw [body.bodies]
  rw [left, ← this]
  rfl

theorem InBody.run_undo (body : s.InBody before) (h : Handle) :
    s.left.run (.ask h.undo) =
      (.ok { count := s.site.connection.changes },
        { s.ended before with holds := s.holds }) :=
  perform_rollback body.ready_left body.opened

theorem Idle.run_begin (idle : s.Idle) (isOpen : s.site.isOpen = true) (h : Handle) :
    { s with holds := true }.run (h.control .begin) =
      (.ok { count := s.site.connection.changes }, s.begun.left) := by
  have ready : { s with holds := true }.Ready := ⟨isOpen, idle.behind⟩
  rw [run_handle_control, perform_begin ready idle.closed, left, ← idle.bodies]
  rfl

theorem run_enter (h : Handle) :
    s.begun.left.run (.ask (h.request .enter)) = (.ok {}, s.begun) :=
  rfl

/-- A transaction is its body, and then its end. -/
theorem Idle.run_transaction (idle : s.Idle) (isOpen : s.site.isOpen = true)
    (outside : h.mode = .autocommit) {body : Handle → Script (Except ε α)}
    (hbody : (body h.inside).IsBody) :
    s.run (h.transaction body) =
      outcome s.site.connection.database (s.begun.run (body h.inside)) := by
  have inBody : (s.begun.run (body h.inside)).2.InBody s.site.connection.database :=
    (idle.begun isOpen).run hbody
  rw [Handle.transaction, Handle.passing, outside]
  simp only [run_gated idle.bodies, Handle.bracket]
  rw [run_bind, idle.run_begin isOpen]
  simp only []
  rw [run_guarded, run_bind, run_enter, run_bind, run_guarded]
  cases hrun : s.begun.run (body h.inside) with | mk result u =>
  rw [hrun] at inBody
  simp only [run_bind, inBody.run_leave]
  cases result with
  | error e =>
    simp only [run_bind, inBody.run_undo]
    rfl
  | ok a =>
    simp only [run_bind, run_handle_control, outcome]
    by_cases broken : u.site.connection.database.broken true = true
    · rw [perform_commit_broken inBody.ready_left inBody.opened broken, if_pos broken]
      simp only [Except.mapError, run_bind, inBody.run_undo]
      rfl
    · rw [perform_commit inBody.ready_left inBody.opened broken, if_neg broken]
      rfl

end Session

end Relata
