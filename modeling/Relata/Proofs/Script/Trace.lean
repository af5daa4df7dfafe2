import Mathlib.Data.List.Induction
import Relata.Proofs.Script.Keeping

/-! # Traces

What happens at the stores when tasks run together, in any order of their steps. From the
events of a trace the place of each task follows, and if all tasks keep to their places,
then the places tell who holds the gate, who is in a body, and whether a transaction is open.
-/

namespace Relata

/-- What becomes of a request. -/
inductive Outcome
  | answered (reply : Reply)
  /-- It is given up before it is served. -/
  | withdrawn
  /-- It is given up while it is served. -/
  | lost (reply : Reply)

def Outcome.reply? : Outcome → Option Reply
  | answered reply => some reply
  | withdrawn => none
  | lost reply => some reply

structure Event where
  task : Nat
  request : Request
  outcome : Outcome

namespace Event

def after (e : Event) (p : Place) : Place :=
  match e.outcome.reply? with
  | some reply => p.after reply e.request.action
  | none => p

def move (e : Event) (places : Nat → Place) : Nat → Place :=
  World.replace places e.task (e.after (places e.task))

/-- Whether whatever the event gives up is taken back: no transaction began of which the
task does not know. -/
def Recovers (e : Event) : Prop :=
  ∀ reply, e.outcome = .lost reply → e.request.action.MayBeLost reply

def places (es : List Event) : Nat → Place :=
  es.foldl (fun places e => e.move places) fun _ => .outside

theorem places_append (es : List Event) (e : Event) : places (es ++ [e]) = e.move (places es) := by
  rw [places, List.foldl_append]
  rfl

end Event

namespace World

variable {α : Type}

@[simp] theorem replace_self {β : Type} (f : Nat → β) (i : Nat) (b : β) : replace f i b i = b :=
  if_pos rfl

theorem replace_of_ne {β : Type} {f : Nat → β} {i j : Nat} {b : β} (h : j ≠ i) :
    replace f i b j = f j :=
  if_neg h

theorem replace_eq_self {β : Type} {f : Nat → β} {i : Nat} {b : β} (h : f i = b) :
    replace f i b = f := by
  funext j
  by_cases same : j = i
  · subst same
    rw [replace_self, h]
  · exact replace_of_ne same

/-- One step of a task, with what happens in it. -/
inductive Move : World α → Event → World α → Prop
  | answered {w v : World α} {t : Nat} {r : Request} {instead : List Request}
      {next : Reply → Script (Option α)} {reply : Reply}
      (doing : (w.tasks t).script = .step r instead next)
      (served : w.serve? t r = some (reply, v)) :
      Move w ⟨t, r, .answered reply⟩ (v.setScript t (next reply))
  | withdrawn {w : World α} {t : Nat} {r : Request} {instead : List Request}
      {next : Reply → Script (Option α)} (doing : (w.tasks t).script = .step r instead next)
      (waiting : waits r.action = true) :
      Move w ⟨t, r, .withdrawn⟩ (w.setScript t (givenUp instead))
  | lost {w v : World α} {t : Nat} {store : Nat} {job : Job} {instead : List Request}
      {next : Reply → Script (Option α)} {reply : Reply}
      (doing : (w.tasks t).script = .step ⟨store, .perform job⟩ instead next)
      (served : w.serve? t ⟨store, .perform job⟩ = some (reply, v)) :
      Move w ⟨t, ⟨store, .perform job⟩, .lost reply⟩ (v.setScript t (givenUp instead))

theorem step_iff {w v : World α} {t : Nat} : Step w t v ↔ ∃ e, e.task = t ∧ Move w e v := by
  constructor
  · intro step
    cases step with
    | serve doing served => exact ⟨_, rfl, .answered doing served⟩
    | giveUp doing waiting => exact ⟨_, rfl, .withdrawn doing waiting⟩
    | giveUpServed doing served => exact ⟨_, rfl, .lost doing served⟩
  · rintro ⟨e, rfl, move⟩
    cases move with
    | answered doing served => exact .serve doing served
    | withdrawn doing waiting => exact .giveUp doing waiting
    | lost doing served => exact .giveUpServed doing served

/-- What happened from a world on, the latest last. -/
inductive Trace (u : World α) : List Event → World α → Prop
  | nil : Trace u [] u
  | snoc {es : List Event} {e : Event} {v w : World α} (before : Trace u es v)
      (last : Move v e w) : Trace u (es ++ [e]) w

theorem Trace.cons {u v w : World α} {e : Event} {es : List Event} (first : Move u e v)
    (rest : Trace v es w) : Trace u (e :: es) w := by
  induction rest with
  | nil => exact .snoc .nil first
  | snoc _ last ih => exact .snoc ih last

theorem Trace.of_snoc {u w : World α} {es : List Event} {e : Event} (h : Trace u (es ++ [e]) w) :
    ∃ v, Trace u es v ∧ Move v e w := by
  generalize hall : es ++ [e] = all at h
  cases h with
  | nil => exact absurd hall (by simp)
  | snoc before last =>
    obtain ⟨rfl, hlast⟩ := List.append_inj' hall rfl
    cases hlast
    exact ⟨_, before, last⟩

theorem Trace.of_append {u w : World α} {es fs : List Event} (h : Trace u (es ++ fs) w) :
    ∃ v, Trace u es v ∧ Trace v fs w := by
  induction fs using List.reverseRecOn generalizing w with
  | nil =>
    rw [List.append_nil] at h
    exact ⟨w, h, .nil⟩
  | append_singleton fs f ih =>
    rw [← List.append_assoc] at h
    obtain ⟨x, hx, last⟩ := h.of_snoc
    obtain ⟨v, before, rest⟩ := ih hx
    exact ⟨v, before, .snoc rest last⟩

theorem Steps.snoc {u v w : World α} {ts : List Nat} {t : Nat} (before : Steps u ts v)
    (last : Step v t w) : Steps u (ts ++ [t]) w := by
  induction before with
  | refl => exact .step last (.refl w)
  | step first _ ih => exact .step first (ih last)

/-- The steps of tasks are the traces, told by the tasks alone. -/
theorem steps_iff_trace {u w : World α} {ts : List Nat} :
    Steps u ts w ↔ ∃ es : List Event, es.map Event.task = ts ∧ Trace u es w := by
  constructor
  · intro steps
    induction steps with
    | refl w => exact ⟨[], rfl, .nil⟩
    | step first _ ih =>
      obtain ⟨e, rfl, move⟩ := step_iff.mp first
      obtain ⟨es, rfl, trace⟩ := ih
      exact ⟨e :: es, rfl, .cons move trace⟩
  · rintro ⟨es, rfl, trace⟩
    induction trace with
    | nil => exact .refl u
    | snoc before last ih =>
      rw [List.map_append]
      exact ih.snoc (step_iff.mpr ⟨_, rfl, last⟩)

/-- The tasks are served in an order; one that has to wait, or is done, is passed over. -/
def follow (w : World α) : List Nat → List Event × World α
  | [] => ([], w)
  | t :: ts =>
    match (w.tasks t).script with
    | .done _ => w.follow ts
    | .step r _ next =>
      match w.serve? t r with
      | none => w.follow ts
      | some (reply, v) =>
        let (es, x) := (v.setScript t (next reply)).follow ts
        (⟨t, r, .answered reply⟩ :: es, x)

theorem trace_follow (w : World α) (ts : List Nat) : Trace w (w.follow ts).1 (w.follow ts).2 := by
  induction ts generalizing w with
  | nil => exact .nil
  | cons t ts ih =>
    rw [follow]
    split
    · exact ih w
    · next r instead next doing =>
      split
      · exact ih w
      · next reply v served => exact .cons (.answered doing served) (ih _)

/-- The places of tasks tell who holds the gate of a store, who is in the body of one of its
transactions, and whether a transaction is open. -/
structure Sound (store : Nat) (places : Nat → Place) (w : World α) : Prop where
  holder : ∀ t, w.holders store = some t ↔ places t ≠ .outside
  bodies : ∀ t, (w.tasks t).bodies = if places t = .body then [store] else []
  held : ∀ t, w.holders store = some t → (w.sites store).Suits (places t)
  free : w.holders store = none → (w.sites store).Suits .outside

namespace Sound

variable {store : Nat} {places : Nat → Place} {w v : World α} {t : Nat}

theorem of_initial (initial : w.Initial) : Sound store (fun _ => .outside) w where
  holder t := by simp [initial.free store]
  bodies t := initial.outside t
  held t ht := by
    rw [initial.free store] at ht
    cases ht
  free _ := by
    have closed := initial.closed store
    simp [Site.Suits, Place.inTransaction, closed]

theorem setScript (sound : Sound store places w) (t : Nat) (s : Script (Option α)) :
    Sound store places (w.setScript t s) where
  holder := sound.holder
  bodies t' := by
    by_cases same : t' = t
    · subst same
      simpa [World.setScript, setTask] using sound.bodies t'
    · simpa [World.setScript, setTask, replace_of_ne same] using sound.bodies t'
  held := sound.held
  free := sound.free

theorem outside_of_ne (sound : Sound store places w) (ht : places t ≠ .outside) {t' : Nat}
    (ne : t' ≠ t) : places t' = .outside := by
  by_contra inside
  have := (sound.holder t').mpr inside
  rw [(sound.holder t).mpr ht] at this
  exact ne (Option.some.inj this).symm

theorem free_iff (sound : Sound store places w) :
    w.holders store = none ↔ ∀ t, places t = .outside := by
  constructor
  · intro free t
    by_contra inside
    rw [(sound.holder t).mpr inside] at free
    cases free
  · intro outside
    cases h : w.holders store with
    | none => rfl
    | some t => exact absurd (outside t) ((sound.holder t).mp h)

theorem moveWithin (sound : Sound store places w) (ht : places t ≠ .outside) {q : Place}
    (hq : q ≠ .outside) (hholders : v.holders store = w.holders store)
    (hbodies : (v.tasks t).bodies = if q = .body then [store] else [])
    (hothers : ∀ t', t' ≠ t → (v.tasks t').bodies = (w.tasks t').bodies)
    (hsite : (v.sites store).Suits q) : Sound store (replace places t q) v := by
  have holds : v.holders store = some t := hholders.trans ((sound.holder t).mpr ht)
  refine ⟨fun t' => ?_, fun t' => ?_, fun t' ht' => ?_, fun free => ?_⟩
  · by_cases same : t' = t
    · subst same
      simp [holds, hq]
    · rw [replace_of_ne same, hholders]
      exact sound.holder t'
  · by_cases same : t' = t
    · subst same
      rw [replace_self]
      exact hbodies
    · rw [replace_of_ne same, hothers t' same]
      exact sound.bodies t'
  · rw [holds] at ht'
    cases ht'
    rw [replace_self]
    exact hsite
  · rw [holds] at free
    cases free

theorem enterGate (sound : Sound store places w) (free : w.holders store = none) (t : Nat) :
    Sound store (replace places t .held) (w.setHolder store (some t)) := by
  have outside := sound.free_iff.mp free
  have holds : (w.setHolder store (some t)).holders store = some t := replace_self ..
  refine ⟨fun t' => ?_, fun t' => ?_, fun t' ht' => ?_, fun hfree => ?_⟩
  · rw [holds]
    by_cases same : t' = t
    · subst same
      simp
    · simp [replace_of_ne same, outside t', Ne.symm same]
  · have hbodies := sound.bodies t'
    rw [outside t'] at hbodies
    by_cases same : t' = t
    · subst same
      rw [replace_self]
      exact hbodies
    · rw [replace_of_ne same, outside t']
      exact hbodies
  · rw [holds] at ht'
    cases ht'
    rw [replace_self]
    exact (sound.free free).congr rfl
  · rw [holds] at hfree
    cases hfree

theorem leaveGate (sound : Sound store places w) (ht : places t = .held) :
    Sound store (replace places t .outside) (w.setHolder store none) := by
  have inside : places t ≠ .outside := by
    rw [ht]
    nofun
  have freed : (w.setHolder store none).holders store = none := replace_self ..
  have outside : ∀ t', replace places t .outside t' = .outside := by
    intro t'
    by_cases same : t' = t
    · subst same
      exact replace_self ..
    · rw [replace_of_ne same]
      exact sound.outside_of_ne inside same
  refine ⟨fun t' => ?_, fun t' => ?_, fun t' ht' => ?_, fun _ => ?_⟩
  · simp [freed, outside t']
  · have hbodies := sound.bodies t'
    rw [outside t']
    by_cases same : t' = t
    · subst same
      rw [ht] at hbodies
      exact hbodies
    · rw [sound.outside_of_ne inside same] at hbodies
      exact hbodies
  · rw [freed] at ht'
    cases ht'
  · have suits := sound.held t ((sound.holder t).mpr inside)
    rw [ht] at suits
    exact suits.congr rfl

theorem bodies_setTask (w : World α) (t : Nat) (task : Running α) (t' : Nat) :
    ((w.setTask t task).tasks t').bodies =
      if t' = t then task.bodies else (w.tasks t').bodies := by
  rw [setTask]
  show (replace w.tasks t task t').bodies = _
  by_cases same : t' = t
  · subst same
    rw [replace_self, if_pos rfl]
  · rw [replace_of_ne same, if_neg same]

theorem script_setTask (w : World α) (t : Nat) (bodies : List Nat) (t' : Nat) :
    ((w.setTask t { w.tasks t with bodies }).tasks t').script = (w.tasks t').script := by
  rw [setTask]
  show (replace w.tasks t _ t').script = _
  by_cases same : t' = t
  · subst same
    rw [replace_self]
  · rw [replace_of_ne same]

theorem serve?_perform (w : World α) (t store : Nat) (job : Job) :
    w.serve? t ⟨store, .perform job⟩ =
      some (((w.sites store).perform job).1,
        { w with sites := replace w.sites store ((w.sites store).perform job).2 }) :=
  rfl

/-- What a task asks at its place is replied as the place says, and the places still tell
the truth afterwards. -/
theorem serve (sound : Sound store places w) {issues : Mode → Job → Prop} {action : Action}
    (admits : (places t).Admits issues action) {reply : Reply}
    (served : w.serve? t ⟨store, action⟩ = some (reply, v)) :
    (places t).Gives reply action ∧
      Sound store (replace places t ((places t).after reply action)) v ∧
      ∀ t', (v.tasks t').script = (w.tasks t').script := by
  have hbodies := sound.bodies t
  cases action with
  | acquire =>
    rcases admits with outside | body
    · rw [outside] at hbodies
      simp only [serve?, hbodies] at served
      cases hfree : w.holders store with
      | some _ =>
        rw [hfree] at served
        cases served
      | none =>
        rw [hfree] at served
        cases served
        rw [outside]
        exact ⟨⟨fun _ => rfl, fun _ => rfl⟩, sound.enterGate hfree t, fun _ => rfl⟩
    · rw [body] at hbodies
      have refused : w.serve? t ⟨store, .acquire⟩ = some (.error Session.busyFailure, w) := by
        simp [serve?, hbodies]
      rw [refused] at served
      cases served
      have stays : (places t).after (.error Session.busyFailure) .acquire = places t := rfl
      rw [stays, replace_eq_self rfl, body]
      exact ⟨⟨nofun, nofun⟩, sound, fun _ => rfl⟩
  | release =>
    cases served
    exact ⟨trivial, sound.leaveGate admits, fun _ => rfl⟩
  | enter =>
    cases served
    have begun : places t = .begun := admits
    have inside : places t ≠ .outside := by
      rw [begun]
      nofun
    have suits := sound.held t ((sound.holder t).mpr inside)
    rw [begun] at suits hbodies
    refine ⟨trivial, sound.moveWithin inside nofun rfl ?_ ?_ (suits.congr rfl), ?_⟩
    · rw [bodies_setTask, if_pos rfl, hbodies]
      rfl
    · intro t' ne
      rw [bodies_setTask, if_neg ne]
    · exact script_setTask w t _
  | leave =>
    cases served
    have body : places t = .body := admits
    have inside : places t ≠ .outside := by
      rw [body]
      nofun
    have suits := sound.held t ((sound.holder t).mpr inside)
    rw [body] at suits hbodies
    refine ⟨trivial, sound.moveWithin inside nofun rfl ?_ ?_ (suits.congr rfl), ?_⟩
    · rw [bodies_setTask, if_pos rfl, hbodies]
      rfl
    · intro t' ne
      rw [bodies_setTask, if_neg ne]
    · exact script_setTask w t _
  | perform job =>
    have inside := admits.inside
    obtain ⟨gives, suits⟩ := (sound.held t ((sound.holder t).mpr inside)).perform admits
    rw [serve?_perform] at served
    obtain ⟨rfl, rfl⟩ := Prod.mk.inj (Option.some.inj served)
    obtain ⟨within, body⟩ := admits.after_perform gives
    refine ⟨gives, sound.moveWithin inside within rfl ?_ (fun _ _ => rfl) ?_, fun _ => rfl⟩
    · rw [if_congr body rfl rfl]
      exact hbodies
    · simpa using suits
  | leaveBehind job => exact admits.elim
  | tally =>
    cases served
    have stays : (places t).after (.ok { count := (w.sites store).executed }) .tally = places t :=
      rfl
    rw [stays, replace_eq_self rfl]
    exact ⟨trivial, sound, fun _ => rfl⟩

end Sound

end World

/-- What may be allowed to tasks: no more than places admit, and no less behind the gate than
what takes back what was given up. -/
structure Place.Lawful (allowed : Place → Action → Prop) : Prop where
  admits {p : Place} {action : Action} : allowed p action → p.Admits (fun _ _ => True) action
  undoes {p : Place} {action : Action} :
    p ≠ .outside → p.Admits (fun _ _ => False) action → allowed p action

theorem Place.lawful_admitsFrom (issues : Mode → Job → Prop) :
    Place.Lawful (Place.AdmitsFrom issues .autocommit) where
  admits allowed := allowed.1.mono fun _ _ => trivial
  undoes _ admits := ⟨admits.mono fun _ => False.elim, nofun⟩

theorem Place.lawful_admitsPassing (issues : Mode → Job → Prop) :
    Place.Lawful (Place.AdmitsPassing issues) where
  admits allowed := allowed.1.mono fun _ _ => trivial
  undoes inside admits := ⟨admits.mono fun _ => False.elim, fun outside => absurd outside inside⟩

/-- What is left to a task that gives up keeps to the places, even if it is given up again. -/
theorem Remains.keeps {α : Type} {allowed : Place → Action → Prop} (lawful : Place.Lawful allowed)
    {store : Nat} {home : Place → Prop} {p : Place} {rest : List Request}
    (h : Remains store home p rest) :
    (World.givenUp rest : Script (Option α)).Keeps allowed store home p fun _ q => home q := by
  induction h with
  | nil arrived => exact arrived
  | leave further ih =>
    refine ⟨⟨rfl, lawful.undoes nofun rfl⟩, nofun, fun reply _ => ⟨ih, False.elim⟩⟩
  | undo admits further ih =>
    refine ⟨⟨rfl, lawful.undoes admits.1 admits⟩, fun _ => .undo admits further,
      fun reply _ => ⟨ih, fun _ => .undo ⟨nofun, nofun⟩ further⟩⟩
  | release further ih =>
    refine ⟨⟨rfl, lawful.undoes nofun rfl⟩, nofun, fun reply _ => ⟨ih, False.elim⟩⟩

namespace World

variable {α : Type} {allowed : Nat → Place → Action → Prop} {store : Nat} {places : Nat → Place}
  {u w v : World α} {e : Event} {es : List Event}

/-- All tasks keep to their places. -/
structure Orderly (allowed : Nat → Place → Action → Prop) (store : Nat) (places : Nat → Place)
    (w : World α) : Prop extends Sound store places w where
  keeps : ∀ t, (w.tasks t).script.Keeps (allowed t) store (· = .outside) (places t)
    fun _ q => q = .outside

theorem Orderly.asks (lawful : ∀ t, Place.Lawful (allowed t))
    (orderly : Orderly allowed store places w) (move : Move w e v) :
    e.request.store = store ∧ allowed e.task (places e.task) e.request.action ∧
      ∀ reply, e.outcome.reply? = some reply →
        (places e.task).Gives reply e.request.action := by
  have keeps := orderly.keeps e.task
  cases move with
  | @answered v t r instead next reply doing served =>
    obtain ⟨s, action⟩ := r
    rw [doing] at keeps
    obtain ⟨⟨rfl, hallowed⟩, -, -⟩ := keeps
    obtain ⟨gives, -, -⟩ := orderly.serve ((lawful t).admits hallowed) served
    refine ⟨rfl, hallowed, fun reply' hreply => ?_⟩
    cases hreply
    exact gives
  | withdrawn doing _ =>
    rw [doing] at keeps
    obtain ⟨⟨hstore, hallowed⟩, -, -⟩ := keeps
    exact ⟨hstore, hallowed, nofun⟩
  | @lost v t s job instead next reply doing served =>
    rw [doing] at keeps
    obtain ⟨⟨rfl, hallowed⟩, -, -⟩ := keeps
    obtain ⟨gives, -, -⟩ := orderly.serve ((lawful t).admits hallowed) served
    refine ⟨rfl, hallowed, fun reply' hreply => ?_⟩
    cases hreply
    exact gives

theorem script_setScript (w : World α) (t : Nat) (s : Script (Option α)) (t' : Nat) :
    ((w.setScript t s).tasks t').script = if t' = t then s else (w.tasks t').script := by
  rw [setScript, setTask]
  show (replace w.tasks t _ t').script = _
  by_cases same : t' = t
  · subst same
    rw [replace_self, if_pos rfl]
  · rw [replace_of_ne same, if_neg same]

theorem Orderly.goesOn (orderly : Orderly allowed store places w) {t : Nat} {q : Place}
    (sound : Sound store (replace places t q) v)
    (others : ∀ t', (v.tasks t').script = (w.tasks t').script) {s : Script (Option α)}
    (keeps : s.Keeps (allowed t) store (· = .outside) q fun _ q => q = .outside) :
    Orderly allowed store (replace places t q) (v.setScript t s) where
  toSound := sound.setScript t s
  keeps t' := by
    rw [script_setScript]
    by_cases same : t' = t
    · subst same
      rw [if_pos rfl, replace_self]
      exact keeps
    · rw [if_neg same, replace_of_ne same, others t']
      exact orderly.keeps t'

/-- A step of a task keeps all tasks to their places, if what it gives up is taken back. -/
theorem Orderly.move (lawful : ∀ t, Place.Lawful (allowed t))
    (orderly : Orderly allowed store places w) (move : Move w e v) (recovers : e.Recovers) :
    Orderly allowed store (e.move places) v := by
  have keeps := orderly.keeps e.task
  cases move with
  | @answered v t r instead next reply doing served =>
    obtain ⟨s, action⟩ := r
    rw [doing] at keeps
    obtain ⟨⟨rfl, hallowed⟩, -, replied⟩ := keeps
    obtain ⟨gives, sound, others⟩ := orderly.serve ((lawful t).admits hallowed) served
    exact orderly.goesOn sound others (replied reply gives).1
  | @withdrawn t r instead next doing waiting =>
    rw [doing] at keeps
    obtain ⟨-, waits, -⟩ := keeps
    have sound : Sound store (replace places t (places t)) w := by
      rw [replace_eq_self rfl]
      exact orderly.toSound
    exact orderly.goesOn sound (fun _ => rfl) ((waits waiting).keeps (lawful t))
  | @lost v t s job instead next reply doing served =>
    rw [doing] at keeps
    obtain ⟨⟨rfl, hallowed⟩, -, replied⟩ := keeps
    obtain ⟨gives, sound, others⟩ := orderly.serve ((lawful t).admits hallowed) served
    have remains := (replied reply gives).2 (recovers reply rfl)
    exact orderly.goesOn sound others (remains.keeps (lawful t))

/-- Tasks that keep to their places go on to do so. -/
theorem Orderly.trace (lawful : ∀ t, Place.Lawful (allowed t))
    (orderly : Orderly allowed store (fun _ => .outside) u) (trace : Trace u es w)
    (recovers : ∀ e ∈ es, e.Recovers) : Orderly allowed store (Event.places es) w := by
  induction trace with
  | nil => exact orderly
  | snoc before last ih =>
    rw [Event.places_append]
    obtain ⟨hes, he⟩ := List.forall_mem_append.mp recovers
    exact (ih hes).move lawful last (he _ (List.mem_singleton_self _))

end World

end Relata
