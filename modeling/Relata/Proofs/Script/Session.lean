import Relata.Proofs.Store.Connection
import Relata.Script.Handle
import Relata.Script.Site

/-! # Sessions

How a script of one task goes on from step to step. A job through a handle is carried out
by the connection; outside of transactions the gate is held meanwhile.
-/

namespace Relata

namespace Session

variable {α β : Type} {s t : Session}

theorem run_done (a : α) : s.run (.done a) = (a, s) :=
  rfl

theorem run_ask (r : Request) : s.run (.ask r) = s.serve r :=
  rfl

theorem run_bind (x : Script α) (f : α → Script β) :
    s.run (x >>= f) = (s.run x).2.run (f (s.run x).1) :=
  Script.eval_bind serve x f s

theorem run_guarded (undo : List Request) (x : Script α) : s.run (x.guarded undo) = s.run x :=
  Script.eval_guarded serve undo x s

theorem run_op_bind (x : Op α) (f : α → Op β) :
    s.run (x >>= f).run =
      match s.run x.run with
      | (.ok a, t) => t.run (f a).run
      | (.error e, t) => (.error e, t) := by
  have : (x >>= f).run = x.run >>= ExceptT.bindCont f := rfl
  rw [this, run_bind]
  rcases s.run x.run with ⟨_ | _, t⟩ <;> rfl

theorem run_op_map (x : Op α) (f : α → β) :
    s.run (x >>= fun a => pure (f a)).run = ((s.run x.run).1.map f, (s.run x.run).2) := by
  rw [run_op_bind]
  rcases s.run x.run with ⟨_ | _, t⟩ <;> rfl

theorem run_op_bind_ok {x : Op α} {f : α → Op β} {b : β} (h : s.run (x >>= f).run = (.ok b, t)) :
    ∃ a u, s.run x.run = (.ok a, u) ∧ u.run (f a).run = (.ok b, t) := by
  rw [run_op_bind] at h
  rcases hx : s.run x.run with ⟨_ | a, u⟩
  · rw [hx] at h
    cases h
  · rw [hx] at h
    exact ⟨a, u, rfl, h⟩

theorem run_lift (e : Except Fault α) :
    s.run (liftM e : Op α).run = (e.mapError .fault, s) :=
  rfl

theorem run_lift_ok {e : Except Fault α} {a : α} (h : s.run (liftM e : Op α).run = (.ok a, t)) :
    e = .ok a ∧ t = s := by
  rw [run_lift] at h
  cases e with
  | error f => cases h
  | ok b => cases h; exact ⟨rfl, rfl⟩

theorem run_pure_ok {a b : α} (h : s.run (pure a : Op α).run = (.ok b, t)) : b = a ∧ t = s := by
  cases h
  exact ⟨rfl, rfl⟩

theorem run_gated (outside : s.bodies = 0) (h : Handle) (refused : Failure → α) (x : Script α) :
    s.run (h.gated refused x) =
      (({ s with holds := true }.run x).1,
        { ({ s with holds := true }.run x).2 with holds := false }) := by
  rw [Handle.gated, run_bind, run_ask]
  simp only [serve, Handle.request, if_pos outside]
  rw [run_bind, run_guarded]
  rfl

theorem run_gated_busy (inside : s.bodies ≠ 0) (h : Handle) (refused : Failure → α)
    (x : Script α) : s.run (h.gated refused x) = (refused busyFailure, s) := by
  rw [Handle.gated, run_bind, run_ask]
  simp only [serve, Handle.request, if_neg inside]
  rfl

theorem run_perform_inside {h : Handle} (hm : h.mode = .transaction) (job : Job) :
    s.run (h.perform job).run = s.perform job := by
  rw [Handle.perform, Handle.hold, hm]
  rfl

theorem run_perform_outside {h : Handle} (hm : h.mode = .autocommit) (job : Job) :
    s.run (h.perform job).run =
      if s.bodies = 0 then
        (({ s with holds := true }.perform job).1,
          { ({ s with holds := true }.perform job).2 with holds := false })
      else (.error busyFailure, s) := by
  have hp : (h.perform job).run = h.gated .error (h.inside.ask job) := by
    rw [Handle.perform, Handle.hold, hm]
    rfl
  rw [hp]
  by_cases hb : s.bodies = 0
  · rw [if_pos hb, run_gated hb]
    rfl
  · rw [if_neg hb, run_gated_busy hb]

/-- Where nothing was left behind, a job is only carried out. -/
theorem perform_of_behind (hb : s.behind = []) (job : Job) :
    s.perform job = ((s.site.perform job).1,
      { s with
        site := (s.site.perform job).2
        inBatch := inBatchAfter s.inBatch (s.site.perform job).1.isOk job }) := by
  simp only [perform, catchUp, hb, List.foldl_nil, ite_self]

/-- An answer to a selection is that of the connection, which stays as it is. -/
theorem perform_select {k : Command} (hk : k.verb? = some "SELECT") (hb : s.behind = [])
    {a : Answer} (h : (s.perform (.command k)).1 = .ok a) :
    (s.site.connection.execute k).1 = .ok a ∧
      (s.perform (.command k)).2.site.connection = s.site.connection ∧
      (s.perform (.command k)).2.behind = [] := by
  rw [perform_of_behind hb] at h ⊢
  simp only [Site.perform, Connection.perform] at h ⊢
  by_cases ho : s.site.isOpen = true
  · rw [if_pos ho] at h ⊢
    refine ⟨?_, Connection.snd_execute_of_select hk, hb⟩
    cases ha : (s.site.connection.execute k).1 with
    | ok b => rw [ha] at h; exact congrArg _ (Except.ok.inj h)
    | error r => rw [ha] at h; cases h
  · rw [if_neg ho] at h
    cases h

theorem run_perform_select {h : Handle} {k : Command} (hk : k.verb? = some "SELECT")
    (hb : s.behind = []) {a : Answer} (hr : s.run (h.perform (.command k)).run = (.ok a, t)) :
    (s.site.connection.execute k).1 = .ok a ∧
      t.site.connection = s.site.connection ∧ t.behind = [] := by
  cases hm : h.mode with
  | transaction =>
    rw [run_perform_inside hm] at hr
    have := perform_select hk hb (congrArg Prod.fst hr)
    rwa [hr] at this
  | autocommit =>
    rw [run_perform_outside hm] at hr
    by_cases hbodies : s.bodies = 0
    · rw [if_pos hbodies] at hr
      obtain ⟨ha, rfl⟩ := Prod.mk.inj hr
      exact @perform_select { s with holds := true } k hk hb a ha
    · rw [if_neg hbodies] at hr
      cases hr

end Session

end Relata
