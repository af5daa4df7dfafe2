import Relata.Proofs.Script.Amid
import Relata.Proofs.Script.Session
import Relata.Script.Turns

/-! # Turns of tasks

Tasks that nobody gives up come to the same as tasks that take turns: each of them does all
that it does behind the gate before the next one begins. The order of the turns is the order
in which the tasks passed the gate.
-/

namespace Relata

namespace Script

variable {α : Type}

theorem turn_release {store : Nat} {instead : List Request} {next : Reply → Script α} :
    (step ⟨store, .release⟩ instead next).turn =
      step ⟨store, .release⟩ instead fun reply => done (next reply) :=
  rfl

theorem turn_of_ne {r : Request} (h : r.action ≠ .release) {instead : List Request}
    {next : Reply → Script α} :
    (step r instead next).turn = step r instead fun reply => (next reply).turn := by
  obtain ⟨store, action⟩ := r
  cases action with
  | release => exact absurd rfl h
  | acquire | enter | leave | perform | leaveBehind | tally => rfl

end Script

namespace Session

variable {s : Session} {p : Place}

theorem run_step {α : Type} (r : Request) (instead : List Request) (next : Reply → Script α) :
    s.run (.step r instead next) = (s.serve r).2.run (next (s.serve r).1) :=
  rfl

/-- The task of a session is at a place, and leaves nothing behind. -/
structure Stands (s : Session) (p : Place) : Prop where
  behind : s.behind = []
  bodies : s.bodies = if p = .body then 1 else 0
  suits : s.site.Suits p

theorem stands_of_suits {site : Site} (suits : site.Suits .outside) :
    Stands { site } .outside :=
  ⟨rfl, rfl, suits⟩

theorem serve_acquire_outside (hb : s.bodies = 0) (store : Nat) :
    s.serve ⟨store, .acquire⟩ = (.ok {}, { s with holds := true }) :=
  if_pos hb

theorem serve_acquire_inside (hb : s.bodies ≠ 0) (store : Nat) :
    s.serve ⟨store, .acquire⟩ = (.error busyFailure, s) :=
  if_neg hb

theorem serve_perform (hb : s.behind = []) (store : Nat) (job : Job) :
    s.serve ⟨store, .perform job⟩ = ((s.site.perform job).1,
      { s with
        site := (s.site.perform job).2
        inBatch := inBatchAfter s.inBatch (s.site.perform job).1.isOk job }) :=
  perform_of_behind hb job

theorem Stands.serve (stands : s.Stands p) {issues : Mode → Job → Prop} (store : Nat)
    {action : Action} (admits : p.Admits issues action) :
    p.Gives (s.serve ⟨store, action⟩).1 action ∧
      (s.serve ⟨store, action⟩).2.Stands (p.after (s.serve ⟨store, action⟩).1 action) := by
  obtain ⟨behind, bodies, suits⟩ := stands
  cases action with
  | acquire =>
    rcases admits with rfl | rfl
    · rw [serve_acquire_outside bodies]
      exact ⟨⟨fun _ => rfl, fun _ => rfl⟩, behind, bodies, suits.congr rfl⟩
    · have inside : s.bodies ≠ 0 := by
        rw [bodies]
        nofun
      rw [serve_acquire_inside inside]
      exact ⟨⟨nofun, nofun⟩, behind, bodies, suits⟩
  | release =>
    cases admits
    exact ⟨trivial, behind, bodies, suits.congr rfl⟩
  | enter =>
    cases admits
    exact ⟨trivial, behind, congrArg Nat.succ bodies, suits.congr rfl⟩
  | leave =>
    cases admits
    exact ⟨trivial, behind, congrArg Nat.pred bodies, suits.congr rfl⟩
  | perform job =>
    rw [serve_perform behind]
    obtain ⟨gives, after⟩ := suits.perform admits
    refine ⟨gives, behind, ?_, after⟩
    rw [if_congr (admits.after_perform gives).2 rfl rfl]
    exact bodies
  | leaveBehind job => exact admits.elim
  | tally => exact ⟨trivial, behind, bodies, suits⟩

/-- A turn goes on until a release; a script that stays behind the gate is a part of it. -/
theorem Stands.run_turn_bind {α β : Type} {issues : Mode → Job → Prop} {store : Nat}
    {home : Place → Prop} {x : Script α} {k : α → Script β} {post : α → Place → Prop}
    (keeps : x.Keeps (Place.AdmitsFrom issues .transaction) store home p post)
    (stands : s.Stands p) :
    s.run (x >>= k).turn = (s.run x).2.run (k (s.run x).1).turn ∧
      ∃ q, post (s.run x).1 q ∧ (s.run x).2.Stands q := by
  induction x generalizing s p with
  | done a => exact ⟨rfl, p, keeps, stands⟩
  | step r instead next ih =>
    obtain ⟨_, action⟩ := r
    obtain ⟨⟨rfl, admits, within⟩, -, replied⟩ := keeps
    obtain ⟨gives, stands⟩ := stands.serve _ admits
    obtain ⟨hrun, hpost⟩ := ih _ (replied _ gives).1 stands
    refine ⟨?_, hpost⟩
    have turn : (Script.step ⟨_, action⟩ instead next >>= k).turn =
        .step ⟨_, action⟩ instead fun reply => (next reply >>= k).turn :=
      Script.turn_of_ne (within rfl).2
    rw [turn, run_step, run_step]
    exact hrun

end Session

namespace World

variable {α : Type} {store : Nat} {places : Nat → Place} {w v : World α} {t : Nat}
  {s : Session}

theorem Sound.serve_alike (sound : Sound store places w) (stands : s.Stands (places t))
    (same : s.site = w.sites store) {issues : Mode → Job → Prop} {action : Action}
    (admits : (places t).Admits issues action) {reply : Reply}
    (served : w.serve? t ⟨store, action⟩ = some (reply, v)) :
    (s.serve ⟨store, action⟩).1 = reply ∧ (s.serve ⟨store, action⟩).2.site = v.sites store := by
  have bodies := sound.bodies t
  have sessionBodies := stands.bodies
  cases action with
  | acquire =>
    rcases admits with outside | body
    · rw [outside] at bodies sessionBodies
      rw [Session.serve_acquire_outside sessionBodies]
      simp only [serve?, bodies] at served
      cases free : w.holders store with
      | none =>
        rw [free] at served
        cases served
        exact ⟨rfl, same⟩
      | some _ =>
        rw [free] at served
        cases served
    · rw [body] at bodies sessionBodies
      have inside : s.bodies ≠ 0 := by
        simp [sessionBodies]
      have refused : w.serve? t ⟨store, .acquire⟩ = some (.error Session.busyFailure, w) := by
        simp [serve?, bodies]
      rw [refused] at served
      cases served
      rw [Session.serve_acquire_inside inside]
      exact ⟨rfl, same⟩
  | release =>
    cases served
    exact ⟨rfl, same⟩
  | enter =>
    cases served
    exact ⟨rfl, same⟩
  | leave =>
    cases served
    exact ⟨rfl, same⟩
  | perform job =>
    rw [Sound.serve?_perform] at served
    obtain ⟨rfl, rfl⟩ := Prod.mk.inj (Option.some.inj served)
    rw [Session.serve_perform stands.behind, same]
    exact ⟨rfl, (replace_self ..).symm⟩
  | leaveBehind job => exact admits.elim
  | tally =>
    cases served
    rw [← same]
    exact ⟨rfl, rfl⟩

end World

/-- What tasks come to that take turns at a store. -/
structure Course (α : Type) where
  site : Site
  scripts : Nat → Script (Option α)

namespace Course

variable {α : Type}

def turn (c : Course α) (t : Nat) : Course α :=
  let done := Session.run { site := c.site } (c.scripts t).turn
  { site := done.2.site, scripts := World.replace c.scripts t done.1 }

def turns (c : Course α) (ts : List Nat) : Course α :=
  ts.foldl turn c

/-- No task is done before its turn. -/
def Going (c : Course α) : List Nat → Prop
  | [] => True
  | t :: ts => (∃ r instead next, c.scripts t = .step r instead next) ∧ (c.turn t).Going ts

end Course

namespace Event

def passing? (e : Event) : Option Nat :=
  match e.request.action, e.outcome with
  | .acquire, .answered (.ok _) => some e.task
  | _, _ => none

/-- The tasks that passed the gate, in their order. -/
def passing (es : List Event) : List Nat :=
  es.filterMap passing?

/-- Whether the task waits for the reply. -/
def IsAnswered (e : Event) : Prop :=
  ∃ reply, e.outcome = .answered reply

theorem IsAnswered.recovers {e : Event} (h : e.IsAnswered) : e.Recovers := by
  obtain ⟨reply, h⟩ := h
  intro lost hlost
  rw [h] at hlost
  cases hlost

theorem passing?_inside {p : Place} {t : Nat} {r : Request} {reply : Reply}
    (inside : p ≠ .outside) (gives : p.Gives reply r.action) :
    passing? ⟨t, r, .answered reply⟩ = none := by
  obtain ⟨store, action⟩ := r
  cases action with
  | acquire =>
    cases reply with
    | ok a => exact absurd (gives.mp rfl) inside
    | error f => rfl
  | release | enter | leave | perform | leaveBehind | tally => rfl

theorem passing_append (es fs : List Event) : passing (es ++ fs) = passing es ++ passing fs :=
  List.filterMap_append

end Event

namespace World

variable {α : Type} {allowed : Nat → Place → Action → Prop} {store : Nat} {places : Nat → Place}
  {u v w : World α} {c : Course α} {e : Event} {es : List Event}

/-- Where nobody is behind the gate, the tasks have come as far as in turns. A task behind the
gate still comes to what its turn came to. -/
structure Aligned (store : Nat) (places : Nat → Place) (c : Course α) (w : World α) : Prop where
  outside : ∀ t, places t = .outside → (w.tasks t).script = c.scripts t
  free : w.holders store = none → w.sites store = c.site
  inside : ∀ t, places t ≠ .outside → ∃ s : Session, s.Stands (places t) ∧
    s.site = w.sites store ∧ (s.run (w.tasks t).script.turn).1 = c.scripts t ∧
    (s.run (w.tasks t).script.turn).2.site = c.site

abbrev passingOnly : Nat → Place → Action → Prop :=
  fun _ => Place.AdmitsPassing fun _ _ => True

/-- Before the gate a task asks for nothing but to pass it, and waits until it is free. -/
theorem Sound.free_of_serve {issues : Mode → Job → Prop} (sound : Sound store places w) {t : Nat}
    (outside : places t = .outside) {action : Action}
    (allowed : (places t).AdmitsPassing issues action) {reply : Reply}
    (served : w.serve? t ⟨store, action⟩ = some (reply, v)) :
    action = .acquire ∧ w.holders store = none ∧ reply = .ok {} := by
  obtain rfl := allowed.2 outside
  have bodies := sound.bodies t
  rw [outside] at bodies
  simp only [serve?, bodies] at served
  cases free : w.holders store with
  | none =>
    rw [free] at served
    cases served
    exact ⟨rfl, rfl, rfl⟩
  | some _ =>
    rw [free] at served
    cases served

theorem Aligned.goesOn (aligned : Aligned store places c w) {t : Nat} {q : Place}
    {script : Script (Option α)} {c' : Course α}
    (sound : Sound store (replace places t q) v)
    (alone : ∀ t', t' ≠ t → places t' = .outside)
    (others : ∀ t', (v.tasks t').script = (w.tasks t').script)
    (course : ∀ t', t' ≠ t → c'.scripts t' = c.scripts t')
    (outside : q = .outside → script = c'.scripts t ∧ v.sites store = c'.site)
    (inside : q ≠ .outside → ∃ s : Session, s.Stands q ∧ s.site = v.sites store ∧
      (s.run script.turn).1 = c'.scripts t ∧ (s.run script.turn).2.site = c'.site) :
    Aligned store (replace places t q) c' (v.setScript t script) where
  outside t' houtside := by
    rw [script_setScript]
    by_cases same : t' = t
    · subst same
      rw [replace_self] at houtside
      rw [if_pos rfl]
      exact (outside houtside).1
    · rw [if_neg same, others, course t' same, aligned.outside t' (alone t' same)]
  free hfree := by
    have houtside := sound.free_iff.mp hfree t
    rw [replace_self] at houtside
    exact (outside houtside).2
  inside t' hinside := by
    by_cases same : t' = t
    · subst same
      rw [replace_self] at hinside ⊢
      rw [script_setScript, if_pos rfl]
      exact inside hinside
    · rw [replace_of_ne same] at hinside
      exact absurd (alone t' same) hinside

theorem Aligned.pass (aligned : Aligned store places c w)
    (orderly : Orderly passingOnly store places w) {t : Nat} (outside : places t = .outside)
    {r : Request} {instead : List Request} {next : Reply → Script (Option α)} {reply : Reply}
    (doing : (w.tasks t).script = .step r instead next)
    (served : w.serve? t r = some (reply, v)) :
    Event.passing? ⟨t, r, .answered reply⟩ = some t ∧
      Aligned store (Event.move ⟨t, r, .answered reply⟩ places) (c.turn t)
        (v.setScript t (next reply)) := by
  have keeps := orderly.keeps t
  rw [doing] at keeps
  obtain ⟨s, action⟩ := r
  obtain ⟨⟨rfl, hallowed⟩, -, -⟩ := keeps
  obtain ⟨rfl, free, rfl⟩ := orderly.free_of_serve outside hallowed served
  have stands := Session.stands_of_suits (orderly.free free)
  rw [← outside] at stands
  obtain ⟨hreply, hsite⟩ := orderly.serve_alike stands rfl hallowed.1 served
  obtain ⟨-, stands⟩ := stands.serve s hallowed.1
  rw [hreply] at stands
  obtain ⟨-, sound, others⟩ := orderly.serve hallowed.1 served
  have hturn : Session.run { site := c.site } (c.scripts t).turn =
      (Session.serve ⟨s, .acquire⟩ { site := w.sites s }).2.run (next (.ok {})).turn := by
    rw [← aligned.outside t outside, doing, ← aligned.free free,
      Script.turn_of_ne (r := ⟨s, .acquire⟩) nofun, Session.run_step, hreply]
  refine ⟨rfl, aligned.goesOn sound (fun t' _ => orderly.free_iff.mp free t') others
    (fun t' ne => replace_of_ne ne) nofun fun _ => ⟨_, stands, hsite, ?_, ?_⟩⟩
  · rw [Course.turn, hturn]
    exact (replace_self ..).symm
  · rw [Course.turn, hturn]

theorem Aligned.goOn (aligned : Aligned store places c w)
    (orderly : Orderly passingOnly store places w) {t : Nat} (inside : places t ≠ .outside)
    {r : Request} {instead : List Request} {next : Reply → Script (Option α)} {reply : Reply}
    (doing : (w.tasks t).script = .step r instead next)
    (served : w.serve? t r = some (reply, v)) :
    Event.passing? ⟨t, r, .answered reply⟩ = none ∧
      Aligned store (Event.move ⟨t, r, .answered reply⟩ places) c
        (v.setScript t (next reply)) := by
  have keeps := orderly.keeps t
  rw [doing] at keeps
  obtain ⟨s, action⟩ := r
  obtain ⟨⟨rfl, hallowed⟩, -, -⟩ := keeps
  obtain ⟨x, stands, hsite, hresult, hdone⟩ := aligned.inside t inside
  obtain ⟨hreply, hnext⟩ := orderly.serve_alike stands hsite hallowed.1 served
  obtain ⟨gives, stands⟩ := stands.serve s hallowed.1
  rw [hreply] at stands gives
  obtain ⟨-, sound, others⟩ := orderly.serve hallowed.1 served
  have alone := fun t' (ne : t' ≠ t) => orderly.outside_of_ne inside ne
  rw [doing] at hresult hdone
  refine ⟨Event.passing?_inside inside gives, ?_⟩
  by_cases release : action = .release
  · subst release
    rw [Script.turn_release, Session.run_step, hreply] at hresult hdone
    refine aligned.goesOn sound alone others (fun _ _ => rfl) (fun _ => ⟨hresult, ?_⟩)
      fun hne => absurd rfl hne
    rw [← hnext]
    exact hdone
  · rw [Script.turn_of_ne (r := ⟨s, action⟩) release, Session.run_step, hreply] at hresult hdone
    have within := hallowed.1.after_inside gives inside release
    exact aligned.goesOn sound alone others (fun _ _ => rfl)
      (fun houtside => absurd houtside within) fun _ => ⟨_, stands, hnext, hresult, hdone⟩

/-- A step that is not given up keeps the tasks aligned with those that take turns. -/
theorem Aligned.move (aligned : Aligned store places c w)
    (orderly : Orderly passingOnly store places w) (move : Move w e v) (answered : e.IsAnswered) :
    Aligned store (e.move places) (c.turns (Event.passing [e])) v := by
  obtain ⟨reply, hreply⟩ := answered
  cases move with
  | @answered v t r instead next reply doing served =>
    by_cases outside : places t = .outside
    · obtain ⟨passing, aligned⟩ := aligned.pass orderly outside doing served
      have turns : Event.passing [⟨t, r, .answered reply⟩] = [t] := by
        rw [Event.passing, List.filterMap_cons_some passing, List.filterMap_nil]
      rw [turns]
      exact aligned
    · obtain ⟨passing, aligned⟩ := aligned.goOn orderly outside doing served
      have turns : Event.passing [⟨t, r, .answered reply⟩] = [] := by
        rw [Event.passing, List.filterMap_cons_none passing, List.filterMap_nil]
      rw [turns]
      exact aligned
  | withdrawn => cases hreply
  | lost => cases hreply

/-- However tasks come between each other, they come to what they would come to in turns. -/
theorem aligned (orderly : Orderly passingOnly store (fun _ => .outside) u)
    (trace : Trace u es w) (answered : ∀ e ∈ es, e.IsAnswered) :
    Aligned store (Event.places es)
      (Course.turns ⟨u.sites store, fun t => (u.tasks t).script⟩ (Event.passing es)) w := by
  induction trace with
  | nil => exact ⟨fun _ _ => rfl, fun _ => rfl, fun _ inside => absurd rfl inside⟩
  | snoc before last ih =>
    obtain ⟨hes, he⟩ := List.forall_mem_append.mp answered
    have earlier := orderly.trace (fun _ => Place.lawful_admitsPassing _) before fun e he =>
      (hes e he).recovers
    rw [Event.places_append, Event.passing_append, Course.turns, List.foldl_append]
    exact (ih hes).move earlier last (he _ (List.mem_singleton_self _))

/-! ### Every order of turns -/

theorem Sound.exists_serve {issues : Mode → Job → Prop} (sound : Sound store places w) {t : Nat}
    {action : Action} (admits : (places t).Admits issues action)
    (free : places t = .outside → w.holders store = none) :
    ∃ reply v, w.serve? t ⟨store, action⟩ = some (reply, v) := by
  cases action with
  | acquire =>
    have bodies := sound.bodies t
    rcases admits with outside | body
    · rw [outside] at bodies
      exact ⟨.ok {}, w.setHolder store (some t), by simp [serve?, bodies, free outside]⟩
    · rw [body] at bodies
      exact ⟨.error Session.busyFailure, w, by simp [serve?, bodies]⟩
  | release | enter | leave | perform | tally => exact ⟨_, _, rfl⟩
  | leaveBehind job => exact admits.elim

/-- A task behind the gate can go on until it has left it. -/
theorem Orderly.exists_leave (orderly : Orderly passingOnly store places w) {t : Nat}
    (inside : places t ≠ .outside) :
    ∃ es v, Trace w es v ∧ (∀ e ∈ es, e.IsAnswered) ∧ Event.passing es = [] ∧
      v.holders store = none := by
  generalize hscript : (w.tasks t).script = script
  induction script generalizing w places with
  | done a =>
    have keeps := orderly.keeps t
    rw [hscript] at keeps
    exact absurd keeps inside
  | step r instead next ih =>
    have keeps := orderly.keeps t
    rw [hscript] at keeps
    obtain ⟨s, action⟩ := r
    obtain ⟨⟨rfl, allowed⟩, -, -⟩ := keeps
    obtain ⟨reply, v, served⟩ :=
      orderly.exists_serve allowed.1 fun outside => absurd outside inside
    obtain ⟨gives, -, -⟩ := orderly.serve allowed.1 served
    have move : Move w ⟨t, ⟨s, action⟩, .answered reply⟩ (v.setScript t (next reply)) :=
      .answered hscript served
    have now := orderly.move (fun _ => Place.lawful_admitsPassing _) move nofun
    have passing := Event.passing?_inside (t := t) (r := ⟨s, action⟩) inside gives
    by_cases release : action = .release
    · subst release
      refine ⟨_, _, .cons move .nil, List.forall_mem_singleton.mpr ⟨_, rfl⟩, rfl, ?_⟩
      cases served
      exact replace_self ..
    · obtain ⟨es, x, trace, answered, none, free⟩ := ih reply now
        (by
          rw [Event.move, replace_self]
          exact allowed.1.after_inside gives inside release)
        (script_setScript_self ..)
      refine ⟨_, x, .cons move trace, List.forall_mem_cons.mpr ⟨⟨_, rfl⟩, answered⟩, ?_, free⟩
      rw [Event.passing, List.filterMap_cons_none passing]
      exact none

/-- A task that is not done can take its turn where the gate is free. -/
theorem Orderly.exists_turn (orderly : Orderly passingOnly store places w)
    (free : w.holders store = none) {t : Nat} {r : Request} {instead : List Request}
    {next : Reply → Script (Option α)} (doing : (w.tasks t).script = .step r instead next) :
    ∃ es v, Trace w es v ∧ (∀ e ∈ es, e.IsAnswered) ∧ Event.passing es = [t] ∧
      v.holders store = none := by
  have outside := orderly.free_iff.mp free t
  have keeps := orderly.keeps t
  rw [doing] at keeps
  obtain ⟨s, action⟩ := r
  obtain ⟨⟨rfl, allowed⟩, -, -⟩ := keeps
  obtain ⟨reply, v, served⟩ := orderly.exists_serve allowed.1 fun _ => free
  obtain ⟨rfl, -, rfl⟩ := orderly.free_of_serve outside allowed served
  have move : Move w ⟨t, ⟨s, .acquire⟩, .answered (.ok {})⟩ (v.setScript t (next (.ok {}))) :=
    .answered doing served
  have now := orderly.move (fun _ => Place.lawful_admitsPassing _) move nofun
  have inside : Event.move ⟨t, ⟨s, .acquire⟩, .answered (.ok {})⟩ places t ≠ .outside := by
    rw [Event.move, replace_self]
    nofun
  obtain ⟨es, x, trace, answered, none, left⟩ := now.exists_leave inside
  refine ⟨_, x, .cons move trace, List.forall_mem_cons.mpr ⟨⟨_, rfl⟩, answered⟩, ?_, left⟩
  exact congrArg (t :: ·) none

/-- Tasks can take turns in every order in which none of them is done before its turn. -/
theorem exists_turns (orderly : Orderly passingOnly store (fun _ => .outside) u) {ts : List Nat}
    (going : Course.Going ⟨u.sites store, fun t => (u.tasks t).script⟩ ts) :
    ∃ es w, Trace u es w ∧ (∀ e ∈ es, e.IsAnswered) ∧ Event.passing es = ts ∧
      w.holders store = none := by
  have free : u.holders store = none := orderly.free_iff.mpr fun _ => rfl
  induction ts generalizing u with
  | nil => exact ⟨[], u, .nil, fun _ he => absurd he List.not_mem_nil, rfl, free⟩
  | cons t ts ih =>
    obtain ⟨⟨r, instead, next, doing⟩, further⟩ := going
    obtain ⟨es, v, earlier, answered, passing, free⟩ := orderly.exists_turn free doing
    have now := orderly.trace (fun _ => Place.lawful_admitsPassing _) earlier fun e he =>
      (answered e he).recovers
    have aligned := aligned orderly earlier answered
    have outside : Event.places es = fun _ => .outside := funext (now.free_iff.mp free)
    rw [outside] at now aligned
    rw [passing] at aligned
    have course : Course.turn ⟨u.sites store, fun t => (u.tasks t).script⟩ t =
        ⟨v.sites store, fun t => (v.tasks t).script⟩ :=
      congrArg₂ Course.mk (aligned.free free).symm
        (funext fun t' => (aligned.outside t' rfl).symm)
    rw [course] at further
    obtain ⟨fs, w, later, answered', passing', left⟩ := ih now further free
    refine ⟨es ++ fs, w, earlier.append later, List.forall_mem_append.mpr ⟨answered, answered'⟩,
      ?_, left⟩
    rw [Event.passing_append, passing, passing']
    rfl

end World

end Relata
