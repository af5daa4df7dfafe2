import Relata.Proofs.Script.Amid

/-! # Waiting at gates

Tasks use any number of stores, and the bodies of their transactions may be in one another. A
task asks at a gate only when each gate that it holds is that of a body in which it is. At the
gate of the innermost body it is refused, so that it does not wait there for itself. It does at
the gate of a body further out, if the innermost one is of another store.
-/

namespace Relata

/-- The gates that a task may hold, and the bodies in which it is, the innermost first. -/
structure Grip where
  gates : List Nat := []
  bodies : List Nat := []

namespace Grip

def after (g : Grip) (r : Request) (reply : Reply) : Grip :=
  match r.action with
  | .acquire => if reply.isOk then { g with gates := r.store :: g.gates } else g
  | .release => { g with gates := g.gates.filter (· ≠ r.store) }
  | .enter => { g with bodies := r.store :: g.bodies }
  | .leave => { g with bodies := g.bodies.tail }
  | _ => g

structure Returns (g q : Grip) : Prop where
  bodies : q.bodies = g.bodies
  gates : q.gates ⊆ g.gates

theorem Returns.refl (g : Grip) : g.Returns g :=
  ⟨rfl, fun _ => id⟩

theorem Returns.trans {g q r : Grip} (first : g.Returns q) (last : q.Returns r) : g.Returns r :=
  ⟨last.bodies.trans first.bodies, List.Subset.trans last.gates first.gates⟩

theorem Returns.within {g q : Grip} (returns : g.Returns q) (within : g.gates ⊆ g.bodies) :
    q.gates ⊆ q.bodies := by
  rw [returns.bodies]
  exact List.Subset.trans returns.gates within

end Grip

namespace Script

variable {α β : Type}

/-- A script asks at a gate only where each gate that it holds is that of a body in which it is,
and at none once it is given up. -/
def Minds (g : Grip) : Script α → (α → Grip → Prop) → Prop
  | done a, post => post a g
  | step r instead next, post =>
    (r.action = .acquire → g.gates ⊆ g.bodies) ∧ (∀ q ∈ instead, q.action ≠ .acquire) ∧
      ∀ reply, Minds (g.after r reply) (next reply) post

namespace Minds

variable {g : Grip} {x : Script α} {f : α → Script β} {mid post : α → Grip → Prop}
  {last : β → Grip → Prop}

theorem bind (first : x.Minds g mid) (rest : ∀ a q, mid a q → (f a).Minds q last) :
    (x >>= f).Minds g last := by
  induction x generalizing g with
  | done a => exact rest a g first
  | step r instead next ih => exact ⟨first.1, first.2.1, fun reply => ih reply (first.2.2 reply)⟩

theorem mono (h : x.Minds g mid) (arrive : ∀ a q, mid a q → post a q) : x.Minds g post := by
  induction x generalizing g with
  | done a => exact arrive a g h
  | step r instead next ih => exact ⟨h.1, h.2.1, fun reply => ih reply (h.2.2 reply)⟩

theorem guarded {undo : List Request} (h : x.Minds g post)
    (free : ∀ q ∈ undo, q.action ≠ .acquire) : (x.guarded undo).Minds g post := by
  induction x generalizing g with
  | done a => exact h
  | step r instead next ih =>
    exact ⟨h.1, List.forall_mem_append.mpr ⟨h.2.1, free⟩, fun reply => ih reply (h.2.2 reply)⟩

theorem ask {r : Request} (within : r.action = .acquire → g.gates ⊆ g.bodies) :
    (Script.ask r).Minds g fun reply q => q = g.after r reply :=
  ⟨within, by simp, fun _ => rfl⟩

theorem surely {r : Request} (hr : r.action ≠ .acquire) :
    (Script.surely r).Minds g fun _ q => ∃ reply, q = g.after r reply :=
  ⟨fun h => absurd h hr, by simpa using hr, fun reply => ⟨reply, rfl⟩⟩

end Minds

end Script

/-- An operation that reaches a store through one handle, whatever its jobs are. -/
inductive Handle.Reaches : Handle → {α : Type} → Op α → Prop
  | decided {h : Handle} {α : Type} (result : Except Failure α) : Reaches h (.mk (.done result))
  | bind {h : Handle} {α β : Type} {x : Op α} {f : α → Op β} (first : Reaches h x)
      (rest : ∀ a, Reaches h (f a)) : Reaches h (x >>= f)
  | perform {h : Handle} (job : Job) : Reaches h (h.perform job)
  | batch {h : Handle} (jobs : List Job) : Reaches h (h.batch jobs)
  | hold {h : Handle} {α : Type} {x : Handle → Op α} (held : Reaches h.inside (x h.inside)) :
      Reaches h (h.hold x)

/-- Programs over any stores: operations through any handles, and transactions in whose bodies
there may be any others. -/
inductive Script.Nests : {α : Type} → Script α → Prop
  | done {α : Type} (a : α) : Nests (.done a)
  | bind {α β : Type} {x : Script α} {f : α → Script β} (first : Nests x)
      (rest : ∀ a, Nests (f a)) : Nests (x >>= f)
  | call {α : Type} {h : Handle} {x : Op α} (reaches : h.Reaches x) : Nests x.run
  | transaction {ε α : Type} {h : Handle} {body : Handle → Script (Except ε α)}
      (inner : Nests (body h.inside)) : Nests (h.transaction body)
  | tally (h : Handle) : Nests h.tally

namespace Handle

open Script

variable {α β ε : Type} {h : Handle} {g : Grip}

theorem Calls.reaches {x : Op α} (calls : h.Calls x) : h.Reaches x := by
  induction calls with
  | decided result => exact .decided result
  | bind _ _ ihx ihf => exact .bind ihx ihf
  | perform => exact .perform _
  | batch => exact .batch _
  | hold _ ih => exact .hold ih

theorem minds_ask (job : Job) : (h.ask job).Minds g fun _ q => q = g :=
  .ask nofun

theorem minds_control (k : Control) : (h.control k).Minds g fun _ q => q = g :=
  .bind (minds_ask _) fun _ _ => id

theorem minds_each (jobs : List Job) : (h.each jobs).Minds g fun _ q => q = g := by
  induction jobs with
  | nil => rfl
  | cons job jobs ih =>
    refine .bind (minds_ask job) fun reply q hq => ?_
    cases hq
    cases reply with
    | error f => rfl
    | ok a => exact .bind ih fun _ _ => id

theorem minds_undo : (Script.ask h.undo).Minds g fun _ q => q = g :=
  .ask nofun

theorem minds_wholeBatch (jobs : List Job) : (h.wholeBatch jobs).Minds g fun _ q => q = g := by
  refine .bind (minds_ask _) fun reply q hq => ?_
  cases hq
  cases reply with
  | error f => rfl
  | ok a =>
    refine .guarded (.bind (minds_each jobs) fun counts q hq => ?_) (by simp [undo, request])
    cases hq
    cases counts with
    | error f => exact .bind minds_undo fun _ _ => id
    | ok counts =>
      refine .bind (minds_ask _) fun reply q hq => ?_
      cases hq
      cases reply with
      | ok a => rfl
      | error f => exact .bind minds_undo fun _ _ => id

theorem minds_partialBatch (jobs : List Job) :
    (h.partialBatch jobs).Minds g fun _ q => q = g := by
  refine .bind (minds_control _) fun reply q hq => ?_
  cases hq
  cases reply with
  | error f => rfl
  | ok a =>
    refine .bind (minds_each jobs) fun counts q hq => ?_
    cases hq
    cases counts with
    | ok counts => exact .bind (minds_control _) fun _ _ => id
    | error f =>
      refine .bind (minds_ask _) fun reply q hq => ?_
      cases hq
      cases reply with
      | error _ => rfl
      | ok _ => exact .bind (minds_ask _) fun _ _ => id

theorem minds_op_bind {x : Op α} {f : α → Op β} {post : Grip → Prop}
    (first : x.run.Minds g fun _ q => post q)
    (rest : ∀ a q, post q → (f a).run.Minds q fun _ r => post r) :
    (x >>= f).run.Minds g fun _ q => post q := by
  have hbind : (x >>= f).run = x.run >>= ExceptT.bindCont f := rfl
  rw [hbind]
  refine .bind first fun result q hq => ?_
  cases result with
  | error e => exact hq
  | ok a => exact rest a q hq

/-- Inside of transactions no operation asks at a gate. -/
theorem Reaches.minds_inside {x : Op α} (reaches : h.Reaches x) (inside : h.mode = .transaction) :
    x.run.Minds g fun _ q => q = g := by
  induction reaches with
  | decided result => rfl
  | bind _ _ ihx ihf =>
    refine minds_op_bind (ihx inside) fun a q hq => ?_
    cases hq
    exact ihf a inside
  | perform job =>
    rw [Handle.perform, run_hold_inside inside]
    exact minds_ask job
  | @batch h jobs =>
    rcases h.run_batch_cases jobs with hx | ⟨outside, -⟩ | ⟨-, hx⟩
    · rw [hx]
      rfl
    · rw [inside] at outside
      cases outside
    · rw [hx]
      exact minds_partialBatch jobs
  | hold held ih =>
    rw [Handle.inside_of_mode inside] at ih
    rw [run_hold_inside inside]
    exact ih inside

theorem minds_gated (within : g.gates ⊆ g.bodies) (refused : Failure → α) {s : Script α}
    (held : s.Minds { g with gates := h.store :: g.gates } fun _ q =>
      Grip.Returns { g with gates := h.store :: g.gates } q) :
    (h.gated refused s).Minds g fun _ q => g.Returns q := by
  refine .bind (.ask fun _ => within) fun reply q hq => ?_
  cases reply with
  | error f =>
    cases hq
    exact .refl g
  | ok a =>
    cases hq
    refine .bind (.guarded held (by simp [request])) fun a q returns => ?_
    refine .bind (.surely (by simp [request])) fun _ q' hq' => ?_
    obtain ⟨reply, rfl⟩ := hq'
    refine ⟨returns.bodies, fun store hstore => ?_⟩
    obtain ⟨mem, ne⟩ := List.mem_filter.mp hstore
    exact (List.mem_cons.mp (returns.gates mem)).resolve_left (of_decide_eq_true ne)

/-- Outside of transactions an operation asks at the gate first, and returns what it held. -/
theorem Reaches.minds_outside {x : Op α} (reaches : h.Reaches x) (outside : h.mode = .autocommit)
    (within : g.gates ⊆ g.bodies) : x.run.Minds g fun _ q => g.Returns q := by
  have returned {γ : Type} {s : Script γ} {g : Grip} (hs : s.Minds g fun _ q => q = g) :
      s.Minds g fun _ q => g.Returns q :=
    hs.mono fun _ _ hq => hq ▸ .refl g
  induction reaches generalizing g with
  | decided result => exact .refl g
  | bind _ _ ihx ihf =>
    refine minds_op_bind (ihx outside within) fun a q returns => ?_
    exact (ihf a outside (returns.within within)).mono fun _ _ => returns.trans
  | @perform h job =>
    rw [Handle.perform, run_hold_outside outside]
    exact minds_gated within _ (returned (minds_ask (h := h.inside) job))
  | @batch h jobs =>
    rcases h.run_batch_cases jobs with hx | ⟨-, hx⟩ | ⟨inside, -⟩
    · rw [hx]
      exact .refl g
    · rw [hx]
      exact minds_gated within _ (returned (minds_wholeBatch jobs))
    · rw [outside] at inside
      cases inside
  | hold held =>
    rw [run_hold_outside outside]
    exact minds_gated within _ (returned (held.minds_inside rfl))

/-- Outside of transactions an operation that needs the store asks at the gate before anything
else, and fails with what refuses it there. -/
theorem Reaches.asks_outside {x : Op α} (reaches : h.Reaches x) (outside : h.mode = .autocommit) :
    (∃ result, x.run = .done result) ∨
      ∃ next, x.run = .step (h.request .acquire) [] next ∧
        ∀ f, next (.error f) = .done (.error f) := by
  induction reaches with
  | decided result => exact .inl ⟨result, rfl⟩
  | @bind h α β x f _ _ ihx ihf =>
    have hbind : (x >>= f).run = x.run >>= ExceptT.bindCont f := rfl
    rw [hbind]
    rcases ihx outside with ⟨result, hx⟩ | ⟨next, hx, refused⟩
    · rw [hx]
      cases result with
      | error e => exact .inl ⟨.error e, rfl⟩
      | ok a => exact ihf a outside
    · rw [hx]
      exact .inr ⟨_, rfl, fun e => congrArg (Script.andThen · _) (refused e)⟩
  | perform job =>
    rw [Handle.perform, run_hold_outside outside]
    exact .inr ⟨_, rfl, fun _ => rfl⟩
  | @batch h jobs =>
    rcases h.run_batch_cases jobs with hx | ⟨-, hx⟩ | ⟨inside, -⟩
    · exact .inl ⟨_, hx⟩
    · exact .inr ⟨_, hx, fun _ => rfl⟩
    · rw [outside] at inside
      cases inside
  | hold =>
    rw [run_hold_outside outside]
    exact .inr ⟨_, rfl, fun _ => rfl⟩

theorem minds_bracket {body : Handle → Script (Except ε α)}
    (inner : (body h.inside).Minds { g with bodies := h.store :: g.bodies } fun _ q =>
      Grip.Returns { g with bodies := h.store :: g.bodies } q) :
    (h.bracket body).Minds g fun _ q => g.Returns q := by
  refine .bind (minds_control _) fun reply q hq => ?_
  cases hq
  cases reply with
  | error f => exact .refl g
  | ok a =>
    refine .guarded (.bind (.ask nofun) fun _ q hq => ?_) (by simp [undo, request])
    cases hq
    refine .bind (.guarded inner (by simp [request])) fun result q returns => ?_
    refine .bind (.surely (by simp [request])) fun _ q' hq' => ?_
    obtain ⟨reply, rfl⟩ := hq'
    have left : g.Returns (q.after (h.request .leave) reply) :=
      ⟨congrArg List.tail returns.bodies, returns.gates⟩
    generalize q.after (h.request .leave) reply = q' at left
    cases result with
    | error e => exact .bind minds_undo fun _ _ hq => hq ▸ left
    | ok a =>
      refine .bind (minds_control _) fun reply q hq => ?_
      cases hq
      cases reply with
      | ok a => exact left
      | error f => exact .bind minds_undo fun _ _ hq => hq ▸ left

theorem minds_tally : h.tally.Minds g fun _ q => q = g := by
  refine .bind (.ask nofun) fun reply q hq => ?_
  cases reply <;> exact hq

end Handle

namespace Script.Nests

open Handle

variable {α : Type} {g : Grip} {s : Script α}

/-- A program asks at gates only where it holds none but those of its bodies. -/
theorem minds (nests : s.Nests) (within : g.gates ⊆ g.bodies) :
    s.Minds g fun _ q => g.Returns q := by
  induction nests generalizing g with
  | done a => exact .refl g
  | bind _ _ ihx ihf =>
    refine .bind (ihx within) fun a q returns => ?_
    exact (ihf a (returns.within within)).mono fun _ _ => returns.trans
  | @call α h x reaches =>
    cases hm : h.mode with
    | autocommit => exact reaches.minds_outside hm within
    | transaction => exact (reaches.minds_inside hm).mono fun _ _ hq => hq ▸ .refl g
  | @transaction ε α h body inner ih =>
    rw [Handle.transaction, passing]
    cases h.mode with
    | transaction => exact minds_bracket (ih (List.Subset.trans within (List.subset_cons_self ..)))
    | autocommit =>
      exact minds_gated within _ (minds_bracket (ih (List.cons_subset_cons _ within)))
  | tally h => exact minds_tally.mono fun _ _ hq => hq ▸ .refl g

end Script.Nests

namespace World

variable {α : Type} {u v w : World α} {t : Nat} {e : Event} {es : List Event}

/-- A task holds no more gates than its script minds, or it gave up and asks at none. -/
def Careful (w : World α) (t : Nat) : Prop :=
  (∃ rest, (w.tasks t).script = givenUp rest ∧ ∀ r ∈ rest, r.action ≠ .acquire) ∨
    ∃ g : Grip, (∀ store, w.holders store = some t → store ∈ g.gates) ∧
      (w.tasks t).bodies = g.bodies ∧ (w.tasks t).script.Minds g fun _ _ => True

theorem holders_setHolder (w : World α) (store : Nat) (holder : Option Nat) (store' : Nat) :
    (w.setHolder store holder).holders store' =
      if store' = store then holder else w.holders store' :=
  rfl

theorem serve?_acquire {store : Nat} {reply : Reply}
    (served : w.serve? t ⟨store, .acquire⟩ = some (reply, v)) :
    (reply = .error Session.busyFailure ∧ v = w) ∨
      (reply = .ok {} ∧ w.holders store = none ∧ v = w.setHolder store (some t)) := by
  simp only [serve?] at served
  split at served
  · cases served
    exact .inl ⟨rfl, rfl⟩
  · split at served
    · next free =>
      cases served
      exact .inr ⟨rfl, free, rfl⟩
    · cases served

theorem grip_of_serve? {r : Request} {reply : Reply} {g : Grip}
    (served : w.serve? t r = some (reply, v))
    (gates : ∀ store, w.holders store = some t → store ∈ g.gates)
    (bodies : (w.tasks t).bodies = g.bodies) :
    (∀ store, v.holders store = some t → store ∈ (g.after r reply).gates) ∧
      (v.tasks t).bodies = (g.after r reply).bodies := by
  obtain ⟨store, action⟩ := r
  cases action with
  | acquire =>
    rcases serve?_acquire served with ⟨rfl, rfl⟩ | ⟨rfl, -, rfl⟩
    · exact ⟨gates, bodies⟩
    · refine ⟨fun store' holds => ?_, bodies⟩
      rw [holders_setHolder] at holds
      split at holds
      · next same => exact List.mem_cons.mpr (.inl same)
      · exact List.mem_cons_of_mem _ (gates store' holds)
  | release =>
    cases served
    refine ⟨fun store' holds => ?_, bodies⟩
    rw [holders_setHolder] at holds
    split at holds
    · cases holds
    · next other => exact List.mem_filter.mpr ⟨gates store' holds, decide_eq_true other⟩
  | enter =>
    cases served
    exact ⟨gates, by simp [setTask, Grip.after, bodies]⟩
  | leave =>
    cases served
    exact ⟨gates, by simp [setTask, Grip.after, bodies]⟩
  | perform | leaveBehind | tally =>
    cases served
    exact ⟨gates, bodies⟩

theorem holders_of_serve? {t' : Nat} {r : Request} {reply : Reply}
    (served : w.serve? t' r = some (reply, v)) (other : t ≠ t') {store : Nat}
    (holds : v.holders store = some t) : w.holders store = some t := by
  obtain ⟨store', action⟩ := r
  cases action with
  | acquire =>
    rcases serve?_acquire served with ⟨-, rfl⟩ | ⟨-, -, rfl⟩
    · exact holds
    · rw [holders_setHolder] at holds
      split at holds
      · exact absurd (Option.some.inj holds).symm other
      · exact holds
  | release =>
    cases served
    rw [holders_setHolder] at holds
    split at holds
    · cases holds
    · exact holds
  | enter | leave | perform | leaveBehind | tally =>
    cases served
    exact holds

theorem Move.holders_of_ne (move : Move w e v) (other : t ≠ e.task) {store : Nat}
    (holds : v.holders store = some t) : w.holders store = some t := by
  cases move with
  | answered _ served => exact holders_of_serve? served other holds
  | withdrawn => exact holds
  | lost _ served => exact holders_of_serve? served other holds

theorem Careful.of_initial (initial : u.Initial) (nests : (u.tasks t).script.Nests) :
    u.Careful t := by
  refine .inr ⟨{}, fun store holds => ?_, initial.outside t, ?_⟩
  · rw [initial.free store] at holds
    cases holds
  · exact (nests.minds (List.Subset.refl _)).mono fun _ _ _ => trivial

/-- A step of any task leaves each task as careful as it was. -/
theorem Careful.move (careful : w.Careful t) (move : Move w e v) : v.Careful t := by
  by_cases own : t = e.task
  case neg =>
    rw [Careful, move.tasks_of_ne own]
    refine careful.imp_right ?_
    rintro ⟨g, gates, minds⟩
    exact ⟨g, fun store holds => gates store (move.holders_of_ne own holds), minds⟩
  subst own
  cases move with
  | answered doing served =>
    rw [Careful, script_setScript_self]
    rcases careful with ⟨rest, given, free⟩ | ⟨g, gates, bodies, minds⟩
    · cases rest with
      | nil => cases given.symm.trans doing
      | cons r more =>
        cases given.symm.trans doing
        exact .inl ⟨more, rfl, fun r hr => free r (List.mem_cons_of_mem _ hr)⟩
    · rw [doing] at minds
      obtain ⟨gates', bodies'⟩ := grip_of_serve? served gates bodies
      refine .inr ⟨_, gates', ?_, minds.2.2 _⟩
      rw [setScript_self]
      exact bodies'
  | withdrawn doing _ | lost doing _ =>
    rw [Careful, script_setScript_self]
    refine .inl ⟨_, rfl, ?_⟩
    rcases careful with ⟨rest, given, free⟩ | ⟨g, -, -, minds⟩
    · cases rest with
      | nil => cases given.symm.trans doing
      | cons r more =>
        cases given.symm.trans doing
        exact free
    · rw [doing] at minds
      exact minds.2.1

theorem Careful.trace (careful : u.Careful t) (trace : Trace u es w) : w.Careful t := by
  induction trace with
  | nil => exact careful
  | snoc _ last ih => exact ih.move last

/-- Every gate that a task holds where it asks at one is that of a body in which it is. -/
theorem Careful.holds {store store' : Nat} {instead : List Request}
    {next : Reply → Script (Option α)} (careful : w.Careful t)
    (doing : (w.tasks t).script = .step ⟨store', .acquire⟩ instead next)
    (holds : w.holders store = some t) : store ∈ (w.tasks t).bodies := by
  rcases careful with ⟨rest, given, free⟩ | ⟨g, gates, bodies, minds⟩
  · cases rest with
    | nil => cases given.symm.trans doing
    | cons r more =>
      cases given.symm.trans doing
      exact absurd rfl (free _ List.mem_cons_self)
  · rw [doing] at minds
    rw [bodies]
    exact minds.1 rfl (gates store holds)

theorem refused_inside {store : Nat} (body : (w.tasks t).bodies.head? = some store) :
    w.serve? t ⟨store, .acquire⟩ = some (.error Session.busyFailure, w) := by
  simp [serve?, body]

/-- A task does not wait for itself at the gate of the store in whose body it is. Whatever
programs run in tasks over any stores, and however far their transactions are in one another:
where a task asks at the gate of its innermost body, it is refused at once, and where it asks at
any gate that it holds, it is refused at once or the gate is that of a body further out than one
of another store. Every operation through an autocommit handle that needs anything of its store
asks at the gate before anything else, as every transaction does, and fails with what refuses it
there. -/
theorem own_gate_busy {ts : List Nat} (initial : u.Initial)
    (nests : ∀ t, (u.tasks t).script.Nests) (steps : Steps u ts w) :
    (∀ t store instead next, (w.tasks t).script = .step ⟨store, .acquire⟩ instead next →
      ((w.tasks t).bodies.head? = some store →
        Move w ⟨t, ⟨store, .acquire⟩, .answered (.error Session.busyFailure)⟩
          (w.setScript t (next (.error Session.busyFailure)))) ∧
      (w.holders store = some t →
        w.serve? t ⟨store, .acquire⟩ = some (.error Session.busyFailure, w) ∨
          ∃ inner outer, (w.tasks t).bodies = inner :: outer ∧ inner ≠ store ∧
            store ∈ outer)) ∧
    ∀ h : Handle, h.mode = .autocommit →
      (∀ {β : Type} (x : Op β), h.Reaches x → (∃ result, x.run = .done result) ∨
        ∃ next, x.run = .step (h.request .acquire) [] next ∧
          ∀ f, next (.error f) = .done (.error f)) ∧
      ∀ {β ε : Type} (body : Handle → Script (Except ε β)), ∃ next,
        h.transaction body = .step (h.request .acquire) [] next ∧
          ∀ f, next (.error f) = .done (.refused f) := by
  refine ⟨fun t store instead next doing => ⟨fun body => ?_, fun holds => ?_⟩,
    fun h outside => ⟨fun x reaches => reaches.asks_outside outside, fun body => ?_⟩⟩
  · exact .answered doing (refused_inside body)
  · obtain ⟨es, -, trace⟩ := steps_iff_trace.mp steps
    have body := ((Careful.of_initial initial (nests t)).trace trace).holds doing holds
    cases hbodies : (w.tasks t).bodies with
    | nil =>
      rw [hbodies] at body
      cases body
    | cons inner outer =>
      by_cases same : inner = store
      · exact .inl (refused_inside (by rw [hbodies, same]; rfl))
      · rw [hbodies] at body
        exact .inr ⟨inner, outer, rfl, same, (List.mem_cons.mp body).resolve_left (Ne.symm same)⟩
  · exact ⟨_, Handle.transaction_outside outside body, fun _ => rfl⟩

/-- A task in the body of a transaction of one store, in which there is a transaction of another
one, in whose body it asks whether a store answers. -/
def nestedWorld (store : Nat) : World (Except Failure Answer) where
  sites _ := { connection := { database := {} } }
  holders _ := none
  tasks
    | 0 =>
      { script := do
          let outer ← Handle.transaction ⟨0, .autocommit⟩ fun _ => do
            let inner ← Handle.transaction ⟨1, .autocommit⟩ fun _ =>
              (Handle.perform ⟨store, .autocommit⟩ .probe).run
            return inner.result id
          return some (outer.result id) }
    | _ => { script := .done none }

theorem initial_nestedWorld (store : Nat) : (nestedWorld store).Initial where
  free _ := rfl
  outside
    | 0 => rfl
    | _ + 1 => rfl
  closed _ := rfl

theorem nests_nestedWorld (store : Nat) : ∀ t, ((nestedWorld store).tasks t).script.Nests
  | 0 =>
    .bind (.transaction (.bind (.transaction (.call (.perform .probe))) fun _ => .done _))
      fun _ => .done _
  | _ + 1 => .done _

def inBodies (store : Nat) : World (Except Failure Answer) :=
  ((nestedWorld store).follow [0, 0, 0, 0, 0, 0]).2

theorem steps_inBodies (store : Nat) :
    Steps (nestedWorld store) [0, 0, 0, 0, 0, 0] (inBodies store) :=
  steps_iff_trace.mpr ⟨_, rfl, trace_follow ..⟩

theorem own_gate_busy_inner :
    ((inBodies 1).tasks 0).bodies = [1, 0] ∧ (inBodies 1).holders 1 = some 0 ∧
      ∃ v, Move (inBodies 1) ⟨0, ⟨1, .acquire⟩, .answered (.error Session.busyFailure)⟩ v := by
  obtain ⟨gates, -⟩ :=
    own_gate_busy (initial_nestedWorld 1) (nests_nestedWorld 1) (steps_inBodies 1)
  exact ⟨rfl, rfl, _, (gates 0 1 _ _ rfl).1 rfl⟩

/-- Where the body of another store is in one of its own, a task waits for itself. -/
theorem stuck_inBodies : Stuck (inBodies 0) 0 :=
  ⟨0, _, _, rfl, rfl, nofun⟩

/-- Nothing can happen then any more, unless the task gives up. -/
theorem withdrawn_of_move_inBodies {e : Event} {v : World (Except Failure Answer)}
    (move : Move (inBodies 0) e v) : e.outcome = .withdrawn := by
  cases move with
  | withdrawn => rfl
  | @answered _ t _ _ _ _ doing served =>
    match t with
    | 0 =>
      cases doing
      cases served
    | _ + 1 => cases doing
  | @lost _ t _ _ _ _ _ doing _ =>
    match t with
    | 0 | _ + 1 => cases doing

/-- A task waits for itself where the body of another store is in one of its own: it asks at a
gate that it holds, and nothing can happen any more unless it gives up. -/
theorem waits_for_itself :
    (nestedWorld 0).Initial ∧ (∃ ts, Steps (nestedWorld 0) ts (inBodies 0)) ∧
      (∃ instead next, ((inBodies 0).tasks 0).script = .step ⟨0, .acquire⟩ instead next) ∧
      ((inBodies 0).tasks 0).bodies = [1, 0] ∧ (inBodies 0).holders 0 = some 0 ∧
      Stuck (inBodies 0) 0 ∧ ∀ e v, Move (inBodies 0) e v → e.outcome = .withdrawn :=
  ⟨initial_nestedWorld 0, ⟨_, steps_inBodies 0⟩, ⟨_, _, rfl⟩, rfl, rfl, stuck_inBodies,
    fun _ _ => withdrawn_of_move_inBodies⟩

end World

end Relata
