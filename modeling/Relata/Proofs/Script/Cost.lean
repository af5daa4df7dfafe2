import Relata.Proofs.Script.Task

/-! # What scripts cost

How many jobs on data a script asks for at most, whatever it is replied. When it is run, the
count of the store grows by no more, apart from jobs that were left behind before.
-/

namespace Relata

def Action.charge : Action → Nat
  | .perform job => if job.counts then 1 else 0
  | .leaveBehind job => if job.counts then 1 else 0
  | _ => 0

namespace Script

variable {α β : Type}

/-- Whatever it is replied, a script asks for so many jobs on data at most. -/
def Within : Script α → Nat → Prop
  | done _, _ => True
  | step r _ next, n =>
    r.action.charge ≤ n ∧ ∀ reply, Within (next reply) (n - r.action.charge)

namespace Within

variable {x : Script α} {f : α → Script β} {m n : Nat}

theorem mono (h : x.Within m) (hle : m ≤ n) : x.Within n := by
  induction x generalizing m n with
  | done a => trivial
  | step r instead next ih =>
    obtain ⟨hcharge, hnext⟩ := h
    refine ⟨by omega, fun reply => ih reply (hnext reply) ?_⟩
    omega

theorem bind (first : x.Within m) (rest : ∀ a, (f a).Within n) : (x >>= f).Within (m + n) := by
  induction x generalizing m with
  | done a => exact (rest a).mono (Nat.le_add_left n m)
  | step r instead next ih =>
    obtain ⟨hcharge, hnext⟩ := first
    refine ⟨by omega, fun reply => ?_⟩
    have := ih reply (hnext reply)
    rwa [← Nat.sub_add_comm hcharge] at this

theorem ask {r : Request} : (Script.ask r).Within r.action.charge :=
  ⟨Nat.le_refl _, fun _ => trivial⟩

theorem surely {r : Request} : (Script.surely r).Within r.action.charge :=
  ⟨Nat.le_refl _, fun _ => trivial⟩

theorem guarded {undo : List Request} (h : x.Within n) : (x.guarded undo).Within n := by
  induction x generalizing n with
  | done a => trivial
  | step r instead next ih => exact ⟨h.1, fun reply => ih reply (h.2 reply)⟩

theorem gated {h : Handle} {refused : Failure → α} (within : x.Within n) :
    (h.gated refused x).Within n := by
  have : (h.gated refused x).Within (0 + (n + 0)) := by
    rw [Handle.gated_eq]
    refine .bind .ask fun reply => ?_
    cases reply with
    | error e => trivial
    | ok a =>
      refine .bind (.guarded within) fun result => ?_
      exact @Script.Within.bind _ _ _ _ 0 0 .surely fun _ => trivial
  rwa [Nat.zero_add, Nat.add_zero] at this

end Within

end Script

namespace Op

variable {α β : Type} {x : Op α} {f : α → Op β} {m n : Nat}

def Within (x : Op α) (n : Nat) : Prop :=
  x.run.Within n

theorem Within.mono (h : x.Within m) (hle : m ≤ n) : x.Within n :=
  Script.Within.mono h hle

theorem within_pure (a : α) : (pure a : Op α).Within n :=
  trivial

theorem Within.bind (first : x.Within m) (rest : ∀ a, (f a).Within n) :
    (x >>= f).Within (m + n) := by
  refine Script.Within.bind first fun result => ?_
  cases result with
  | error e => trivial
  | ok a => exact rest a

theorem Within.map (h : x.Within n) (g : α → β) : (x >>= fun a => pure (g a)).Within n :=
  h.bind (n := 0) fun a => within_pure (g a)

theorem Within.check {e : Except Fault α} (rest : ∀ a, (f a).Within n) :
    (liftM e >>= f).Within n := by
  cases e with
  | error fault => trivial
  | ok a => exact rest a

theorem within_perform (h : Handle) (job : Job) : (h.perform job).Within 1 := by
  have asks (inner : Handle) : (inner.ask job).Within 1 := by
    refine Script.Within.ask.mono ?_
    rw [Handle.request, Action.charge]
    split <;> omega
  rw [Within, Handle.perform]
  cases hm : h.mode with
  | autocommit =>
    rw [Handle.run_hold_outside hm]
    exact .gated (asks _)
  | transaction =>
    rw [Handle.run_hold_inside hm]
    exact asks h

end Op

theorem Site.executed_perform (s : Site) (job : Job) :
    (s.perform job).2.executed ≤ s.executed + if job.counts then 1 else 0 := by
  by_cases hj : job = .shut
  · rw [hj]
    exact Nat.le_refl _
  · cases hopen : s.isOpen with
    | false =>
      rw [perform_of_shut hopen hj]
      exact Nat.le_add_right _ _
    | true =>
      exact Nat.le_of_eq (congrArg (fun r => r.2.executed) (perform_of_isOpen hopen hj))

theorem Site.executed_performAll (s : Site) (jobs : List Job) :
    (jobs.foldl (fun site job => (site.perform job).2) s).executed ≤
      s.executed + jobs.countP Job.counts := by
  induction jobs generalizing s with
  | nil => exact Nat.le_refl _
  | cons job jobs ih =>
    have hjob := s.executed_perform job
    have hjobs := ih (s.perform job).2
    rw [List.foldl_cons, List.countP_cons]
    omega

namespace Session

def owed (s : Session) : Nat :=
  s.behind.countP Job.counts

theorem executed_catchUp (s : Session) :
    s.catchUp.site.executed + s.catchUp.owed ≤ s.site.executed + s.owed :=
  s.site.executed_performAll s.behind

theorem executed_serve (s : Session) (r : Request) :
    (s.serve r).2.site.executed + (s.serve r).2.owed ≤
      s.site.executed + s.owed + r.action.charge := by
  obtain ⟨store, action⟩ := r
  cases action with
  | acquire =>
    simp only [serve]
    split <;> exact Nat.le_refl _
  | perform job =>
    have hjob := s.site.executed_perform job
    simp only [serve, perform, Action.charge]
    split
    · simp only [owed]
      omega
    · refine Nat.le_trans (executed_catchUp _) ?_
      simp only [owed]
      omega
  | leaveBehind job =>
    simp only [serve, owed, List.countP_append, List.countP_singleton, Action.charge]
    omega
  | release | enter | leave | tally => exact Nat.le_refl _

/-- The store executes no more for a script than the script asks for. -/
theorem executed_run {α : Type} {x : Script α} {n : Nat} (within : x.Within n) (s : Session) :
    (s.run x).2.site.executed + (s.run x).2.owed ≤ s.site.executed + s.owed + n := by
  induction x generalizing s n with
  | done a => exact Nat.le_add_right _ n
  | step r instead next ih =>
    obtain ⟨hcharge, hnext⟩ := within
    have hserve := s.executed_serve r
    have hrest := ih _ (hnext (s.serve r).1) (s.serve r).2
    have : s.run (.step r instead next) = (s.serve r).2.run (next (s.serve r).1) := rfl
    rw [this]
    omega

end Session

end Relata
