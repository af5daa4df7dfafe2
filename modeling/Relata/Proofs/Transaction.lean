import Relata.Proofs.Model.Calls
import Relata.Proofs.Script.Transaction

/-! # All or nothing

A transaction of a client either keeps what its body left or leaves the database as it was
before. Nothing of it stays behind in the session, whichever way it ends, and its body is
kept from opening another one or from waiting for itself.
-/

namespace Relata

variable {α ε : Type}

/-- All or nothing: which result of the body an ending goes with, and which database is
left. The body is given by its result and the session at its end. -/
def Ending.Keeps (before : Session) (left : Except ε α × Session) (after : Database) :
    Ending ε α → Prop
  | committed a =>
    before.site.isOpen = true ∧ left.1 = .ok a ∧
      left.2.site.connection.database.broken true = false ∧
      after = left.2.site.connection.database
  | refused _ => before.site.isOpen = false ∧ after = before.site.connection.database
  | failed e =>
    before.site.isOpen = true ∧ left.1 = .error e ∧ after = before.site.connection.database
  | undone a _ =>
    before.site.isOpen = true ∧ left.1 = .ok a ∧
      left.2.site.connection.database.broken true = true ∧
      after = before.site.connection.database

/-- What a task cannot do in the body of a transaction: begin another one, or get through a
handle from outside to the store. It is refused at once, and nothing changes. -/
structure Session.Confined (s : Session) : Prop where
  nested {α ε : Type} {h : Handle} (inside : h.mode = .transaction)
    (body : Handle → Script (Except ε α)) : s.run (h.transaction body) = (.refused .nested, s)
  apart {α ε : Type} {h : Handle} (outside : h.mode = .autocommit)
    (body : Handle → Script (Except ε α)) :
    s.run (h.transaction body) = (.refused Session.busyFailure, s)
  busy {α : Type} {h : Handle} {x : Op α} (outside : h.mode = .autocommit) (calls : h.Calls x) :
    (∃ result, x.run = .done result) ∨ s.run x.run = (.error Session.busyFailure, s)

theorem Session.InBody.confined {s : Session} {before : Database} (body : s.InBody before) :
    s.Confined where
  nested inside nested := body.run_transaction_inside inside nested
  apart outside nested := body.run_transaction_outside outside nested
  busy outside calls := by
    have inside : s.bodies ≠ 0 := by
      rw [body.bodies]
      decide
    exact (run_of_outside calls outside).imp_right fun refused => refused s inside

def Client.inside (c : Client) : Client :=
  { c with handle := c.handle.inside }

/-- A transaction of a client is all or nothing. Whatever its body does and however it ends,
no transaction is open afterwards and the gate is free; and at every point of the body the
task is confined to it. -/
theorem Client.transaction_all_or_nothing {c : Client} (outside : c.handle.mode = .autocommit)
    {body : Client → Script (Except ε α)} (hbody : (body c.inside).IsBody) {s : Session}
    (idle : s.Idle) :
    ((s.run (c.transaction body)).1.Keeps s (s.begun.run (body c.inside))
        (s.run (c.transaction body)).2.site.connection.database ∧
      (s.run (c.transaction body)).2.Idle ∧ (s.run (c.transaction body)).2.holds = false) ∧
    (s.site.isOpen = true → ∀ {β : Type} {part : Script β}, part.IsBody →
      (s.begun.run part).2.Confined) := by
  constructor
  · by_cases isOpen : s.site.isOpen = true
    · have inBody := (idle.begun isOpen).run hbody
      have hrun : s.run (c.transaction body) =
          Session.outcome s.site.connection.database (s.begun.run (body c.inside)) :=
        idle.run_transaction isOpen outside hbody
      rw [hrun]
      cases hleft : s.begun.run (body c.inside) with | mk result u =>
      rw [hleft] at inBody
      cases result with
      | error e => exact ⟨⟨isOpen, rfl, rfl⟩, inBody.ended _, rfl⟩
      | ok a =>
        by_cases broken : u.site.connection.database.broken true = true
        · simp only [Session.outcome, if_pos broken]
          exact ⟨⟨isOpen, rfl, broken, rfl⟩, inBody.ended _, rfl⟩
        · simp only [Session.outcome, if_neg broken]
          exact ⟨⟨isOpen, rfl, Bool.eq_false_iff.mpr broken, rfl⟩, inBody.ended _, rfl⟩
    · have shut := Bool.eq_false_iff.mpr isOpen
      rw [Client.transaction, idle.run_transaction_shut shut outside]
      exact ⟨⟨shut, rfl⟩, ⟨idle.behind, idle.closed, idle.bodies, idle.apart⟩, rfl⟩
  · intro isOpen β part hpart
    exact ((idle.begun isOpen).run hpart).confined

def orderSession : Session :=
  .ofDatabase { tables := [⟨{ name := "orders", columns := [{ name := "id" }] }, []⟩] }

def addOrders (c : Client) : Op Nat := do
  let orders ← c.model "orders"
  orders.ask (.createMany [("a", []), ("b", [])])

/-- A body that adds orders, tries a transaction and a way around its own, and fails. -/
def failingBody (outer inner : Client) : Script (Except Failure Unit) := do
  let _ ← (addOrders inner).run
  let _ ← inner.transaction fun _ => (pure (.ok ()) : Script (Except Failure Unit))
  let _ ← (outer.execute "DELETE FROM orders" []).run
  return .error (.internal "stop")

theorem calls_addOrders (c : Client) : c.handle.Calls (addOrders c) :=
  c.calls_model fun m => m.calls_ask _

theorem isBody_failingBody (outer inner : Client) : (failingBody outer inner).IsBody := by
  refine .bind (.call (calls_addOrders inner)) fun _ => .bind (.transaction ..) fun _ =>
    .bind (.call (outer.calls_execute fun s hs k hk => ?_)) fun _ => .done _
  cases hs
  cases hk
  rfl

theorem Client.transaction_all_or_nothing_orders :
    ∃ t, orderSession.run (Client.transaction { depthLimit := 5 }
        (failingBody { depthLimit := 5 })) = (.failed (.internal "stop"), t) ∧
      t.site.connection.database = orderSession.site.connection.database ∧ t.Idle := by
  have h := Client.transaction_all_or_nothing (c := { depthLimit := 5 }) rfl
    (isBody_failingBody { depthLimit := 5 } _) (s := orderSession) ⟨rfl, rfl, rfl, rfl⟩
  obtain ⟨t, ht⟩ : ∃ t, orderSession.run (Client.transaction { depthLimit := 5 }
        (failingBody { depthLimit := 5 })) = (.failed (.internal "stop"), t) := ⟨_, rfl⟩
  obtain ⟨⟨hkeeps, hidle, -⟩, -⟩ := h
  rw [ht] at hkeeps hidle
  exact ⟨t, ht, hkeeps.2.2, hidle⟩

end Relata
