import Relata.Proofs.Script.Task
import Relata.Proofs.Script.Trace

/-! # A task amid others

What a single task does in a trace, whatever the other tasks do between its steps. They leave
its script alone, so that each of its requests is served in the world that the others have made
of it until then. A job of an autocommit client is one event, before and after which its task
does no more than to pass the gate and to leave it.
-/

namespace Relata

namespace World

variable {α : Type} {u v w : World α} {t : Nat} {e : Event} {es fs : List Event}

theorem setScript_self (w : World α) (t : Nat) (s : Script (Option α)) :
    (w.setScript t s).tasks t = { w.tasks t with script := s } :=
  replace_self ..

theorem script_setScript_self (w : World α) (t : Nat) (s : Script (Option α)) :
    ((w.setScript t s).tasks t).script = s := by
  rw [setScript_self]

theorem setScript_of_ne {t' : Nat} (other : t' ≠ t) (w : World α) (s : Script (Option α)) :
    (w.setScript t s).tasks t' = w.tasks t' :=
  replace_of_ne other

theorem tasks_of_serve? {r : Request} {reply : Reply} (served : w.serve? t r = some (reply, v))
    {t' : Nat} (other : t' ≠ t) : v.tasks t' = w.tasks t' := by
  obtain ⟨store, action⟩ := r
  cases action with
  | acquire =>
    rw [serve?] at served
    dsimp only at served
    split at served
    · cases served
      rfl
    · split at served
      · cases served
        rfl
      · cases served
  | release | perform | leaveBehind | tally =>
    cases served
    rfl
  | enter | leave =>
    cases served
    exact replace_of_ne other

theorem Move.tasks_of_ne (move : Move w e v) (other : t ≠ e.task) : v.tasks t = w.tasks t := by
  cases move with
  | answered _ served =>
    rw [setScript_of_ne other]
    exact tasks_of_serve? served other
  | withdrawn => exact setScript_of_ne other ..
  | lost _ served =>
    rw [setScript_of_ne other]
    exact tasks_of_serve? served other

/-! ### Traces -/

theorem Trace.of_nil (h : Trace u [] w) : w = u := by
  generalize hnone : [] = es at h
  cases h with
  | nil => rfl
  | snoc => exact absurd hnone.symm (List.append_ne_nil_of_right_ne_nil _ (by simp))

theorem Trace.of_cons (h : Trace u (e :: es) w) : ∃ v, Move u e v ∧ Trace v es w := by
  obtain ⟨v, first, rest⟩ := @of_append _ u w [e] es h
  obtain ⟨x, before, move⟩ := @of_snoc _ u v [] e first
  rw [before.of_nil] at move
  exact ⟨v, move, rest⟩

theorem Trace.append (first : Trace u es v) (rest : Trace v fs w) : Trace u (es ++ fs) w := by
  induction rest with
  | nil => rwa [List.append_nil]
  | snoc _ last ih =>
    rw [← List.append_assoc]
    exact .snoc ih last

theorem Trace.givenUp (trace : Trace u es w) {rest : List Request}
    (given : (u.tasks t).script = givenUp rest) :
    ∃ rest, (w.tasks t).script = World.givenUp rest := by
  induction trace with
  | nil => exact ⟨rest, given⟩
  | @snoc _ e _ _ _ last ih =>
    obtain ⟨rest, hscript⟩ := ih
    by_cases own : t = e.task
    case neg => exact ⟨rest, by rw [last.tasks_of_ne own, hscript]⟩
    subst own
    cases last with
    | @answered _ _ r _ _ reply doing _ =>
      rw [hscript] at doing
      cases rest with
      | nil => cases doing
      | cons _ more =>
        cases doing
        exact ⟨more, script_setScript_self ..⟩
    | withdrawn | lost => exact ⟨_, script_setScript_self ..⟩

theorem Trace.not_done_of_givenUp (trace : Trace u es w) {rest : List Request}
    (given : (u.tasks t).script = World.givenUp rest) (a : α) :
    (w.tasks t).script ≠ .done (some a) := by
  obtain ⟨rest, hscript⟩ := trace.givenUp given
  rw [hscript]
  cases rest <;> nofun

theorem Trace.task_ne_of_done (trace : Trace u es w) {a : Option α}
    (done : (u.tasks t).script = .done a) :
    (w.tasks t).script = .done a ∧ ∀ e ∈ es, e.task ≠ t := by
  induction trace with
  | nil => exact ⟨done, by simp⟩
  | @snoc _ e _ _ _ last ih =>
    obtain ⟨hscript, others⟩ := ih
    have other : t ≠ e.task := by
      rintro rfl
      cases last with
      | answered doing _ | withdrawn doing _ | lost doing _ => cases hscript.symm.trans doing
    refine ⟨by rw [last.tasks_of_ne other, hscript], ?_⟩
    exact List.forall_mem_append.mpr ⟨others, List.forall_mem_singleton.mpr other.symm⟩

/-- Where an event is in a trace: what happened before it, in which world it happened, what it
made of that, and what happened after it. -/
structure Happens (u : World α) (before : List Event) (v : World α) (e : Event) (x : World α)
    (after : List Event) (w : World α) : Prop where
  earlier : Trace u before v
  move : Move v e x
  later : Trace x after w

/-- The next request of a task that has a result in the end is answered. -/
theorem Trace.next {r : Request} {instead : List Request} {next : Reply → Script (Option α)}
    {a : α} (trace : Trace u es w) (doing : (u.tasks t).script = .step r instead next)
    (ended : (w.tasks t).script = .done (some a)) :
    ∃ before after v x reply, es = before ++ ⟨t, r, .answered reply⟩ :: after ∧
      Happens u before v ⟨t, r, .answered reply⟩ (x.setScript t (next reply)) after w ∧
      (∀ e ∈ before, e.task ≠ t) ∧ v.tasks t = u.tasks t ∧
      v.serve? t r = some (reply, x) := by
  induction es generalizing u with
  | nil =>
    rw [trace.of_nil, doing] at ended
    cases ended
  | cons e es ih =>
    obtain ⟨x, move, rest⟩ := trace.of_cons
    by_cases own : t = e.task
    · subst own
      cases move with
      | @answered v' t _ _ _ reply doing' served =>
        cases doing.symm.trans doing'
        exact ⟨[], es, u, v', reply, rfl, ⟨.nil, .answered doing served, rest⟩, by simp, rfl,
          served⟩
      | withdrawn | lost =>
        exact absurd ended (rest.not_done_of_givenUp (by rw [setScript_self]) a)
    · rw [← move.tasks_of_ne own] at doing
      obtain ⟨before, after, v, y, reply, rfl, happens, others, same, served⟩ := ih rest doing
      refine ⟨e :: before, after, v, y, reply, rfl,
        ⟨.cons move happens.earlier, happens.move, happens.later⟩, ?_, ?_, served⟩
      · exact List.forall_mem_cons.mpr ⟨Ne.symm own, others⟩
      · rw [same, move.tasks_of_ne own]

end World

/-- A job of an autocommit client passes the gate, is done, and leaves the gate. -/
theorem Handle.run_perform_step {α : Type} (store : Nat) (job : Job)
    (rest : Except Failure Answer → Script α) :
    ((⟨store, .autocommit⟩ : Handle).perform job).run >>= rest =
      .step ⟨store, .acquire⟩ [] fun passed =>
        match passed with
        | .error f => rest (.error f)
        | .ok _ => .step ⟨store, .perform job⟩ [⟨store, .release⟩] fun reply =>
          .step ⟨store, .release⟩ [⟨store, .release⟩] fun _ => rest reply := by
  refine congrArg (Script.step _ _) (funext fun passed => ?_)
  cases passed <;> rfl

namespace World

variable {α : Type} {u v w : World α} {t : Nat} {es : List Event}

theorem reply_of_acquire {store : Nat} {reply : Reply} (free : (w.tasks t).bodies = [])
    (served : w.serve? t ⟨store, .acquire⟩ = some (reply, v)) :
    reply = .ok {} ∧ v.tasks t = w.tasks t := by
  simp only [serve?, free] at served
  cases hholder : w.holders store with
  | none =>
    rw [hholder] at served
    cases served
    exact ⟨rfl, rfl⟩
  | some _ =>
    rw [hholder] at served
    cases served

/-- The job of an autocommit client happens once in a trace, and is done on what the store is
then. Before it the task only passes the gate, and after it, it leaves the gate. -/
theorem Trace.performs {store : Nat} {job : Job} {rest : Reply → Script (Option α)} {a : α}
    (trace : Trace u es w) (free : (u.tasks t).bodies = [])
    (doing : (u.tasks t).script =
      ((⟨store, .autocommit⟩ : Handle).perform job).run >>= rest)
    (ended : (w.tasks t).script = .done (some a)) :
    ∃ before leaving after v x y,
      let reply := ((v.sites store).perform job).1
      let e : Event := ⟨t, ⟨store, .perform job⟩, .answered reply⟩
      es = before ++ e :: (leaving ++ after) ∧ Happens u before v e x (leaving ++ after) w ∧
      x.sites store = ((v.sites store).perform job).2 ∧ Trace x leaving y ∧ Trace y after w ∧
      (y.tasks t).script = rest reply ∧ (y.tasks t).bodies = [] ∧
      (∀ e ∈ before, e.task = t → e.request.action = .acquire) ∧
      ∀ e ∈ leaving, e.task = t → e.request.action = .release := by
  rw [Handle.run_perform_step] at doing
  obtain ⟨es₁, fs₁, v₁, x₁, passed, rfl, passes, others₁, same₁, served₁⟩ :=
    trace.next doing ended
  obtain ⟨rfl, hx₁⟩ := reply_of_acquire (by rw [same₁, free]) served₁
  obtain ⟨es₂, fs₂, v₂, x₂, reply, rfl, performs, others₂, same₂, served₂⟩ :=
    passes.later.next (script_setScript_self ..) ended
  rw [Sound.serve?_perform] at served₂
  obtain ⟨rfl, rfl⟩ := Prod.mk.inj (Option.some.inj served₂)
  obtain ⟨es₃, fs₃, v₃, x₃, left, rfl, leaves, others₃, same₃, served₃⟩ :=
    performs.later.next (script_setScript_self ..) ended
  cases served₃
  refine ⟨es₁ ++ ⟨t, ⟨store, .acquire⟩, .answered (.ok {})⟩ :: es₂,
    es₃ ++ [⟨t, ⟨store, .release⟩, .answered (.ok {})⟩], fs₃, v₂, _, _, ?_, ⟨?_, performs.move, ?_⟩,
    replace_self .., ?_, leaves.later, script_setScript_self .., ?_, ?_, ?_⟩
  · simp
  · exact passes.earlier.append (.cons passes.move performs.earlier)
  · simpa using performs.later
  · exact .snoc leaves.earlier leaves.move
  · rw [setScript_self]
    show (v₃.tasks t).bodies = []
    rw [same₃, setScript_self]
    show (v₂.tasks t).bodies = []
    rw [same₂, setScript_self, hx₁, same₁]
    exact free
  · intro e he own
    rcases List.mem_append.mp he with he | he
    · exact absurd own (others₁ e he)
    · rcases List.mem_cons.mp he with rfl | he
      · rfl
      · exact absurd own (others₂ e he)
  · intro e he own
    rcases List.mem_append.mp he with he | he
    · exact absurd own (others₃ e he)
    · rw [List.mem_singleton.mp he]

/-- A job that a task was answered once is its next one, if the task does no more where the job
is refused. -/
theorem Trace.performs_answered {store : Nat} {job : Job} {rest : Reply → Script (Option α)}
    {a : α} {b : Answer} (trace : Trace u es w) (free : (u.tasks t).bodies = [])
    (doing : (u.tasks t).script =
      ((⟨store, .autocommit⟩ : Handle).perform job).run >>= rest)
    (ended : (w.tasks t).script = .done (some a))
    (refused : ∀ f, ∃ r, rest (.error f) = .done r)
    (answered : ⟨t, ⟨store, .perform job⟩, .answered (.ok b)⟩ ∈ es) :
    ∃ before leaving after v x y b',
      let e : Event := ⟨t, ⟨store, .perform job⟩, .answered (.ok b')⟩
      es = before ++ e :: (leaving ++ after) ∧ Happens u before v e x (leaving ++ after) w ∧
      ((v.sites store).perform job).1 = .ok b' ∧
      x.sites store = ((v.sites store).perform job).2 ∧ Trace x leaving y ∧ Trace y after w ∧
      (y.tasks t).script = rest (.ok b') ∧ (y.tasks t).bodies = [] := by
  obtain ⟨before, leaving, after, v, x, y, rfl, happens, hx, leaves, later, hy, free', passing,
    leavings⟩ := trace.performs free doing ended
  cases hreply : ((v.sites store).perform job).1 with
  | ok b' =>
    rw [hreply] at hy happens
    exact ⟨before, leaving, after, v, x, y, b', rfl, happens, hreply, hx, leaves, later, hy, free'⟩
  | error f =>
    -- The only event of the job that could have been answered is the one that was refused.
    obtain ⟨r, hr⟩ := refused f
    rw [hreply] at hy answered
    have finished := (later.task_ne_of_done (hy.trans hr)).2
    simp only [List.mem_append, List.mem_cons, Event.mk.injEq, Outcome.answered.injEq,
      reduceCtorEq, and_false, false_or] at answered
    rcases answered with h | h | h
    · cases passing _ h rfl
    · cases leavings _ h rfl
    · exact absurd rfl (finished _ h)

end World

end Relata
