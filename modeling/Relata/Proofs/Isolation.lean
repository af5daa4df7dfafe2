import Relata.Proofs.Model.Calls
import Relata.Proofs.Script.Trace

/-! # Isolation

However tasks come between each other, a transaction with a body is alone at its store from
its beginning to its end: there is no other transaction, and whatever is done meanwhile was
issued in its body and through its handle. That holds as well when the task of the
transaction gives up and what is left of it takes it back.
-/

namespace Relata

/-- Whether an action ends a transaction with a reply. A rollback is its end even if it is
refused, which only a store refuses that is shut. -/
def Action.Ends (reply : Reply) : Action → Prop
  | .perform (.control .commit) => reply.isOk = true
  | .perform (.control .rollback) => True
  | _ => False

namespace Place

variable {p : Place} {issues : Mode → Job → Prop} {action : Action} {reply : Reply}

/-- What an action does in a transaction that it does not end: begin with its jobs, enter its
body, leave the body, or nothing to its place. -/
theorem advance (within : p.inTransaction = true) (admits : p.Admits issues action)
    (gives : p.Gives reply action) (unended : ¬ action.Ends reply) :
    (p = .begun ∧ p.after reply action = .batch ∧ action ≠ .enter) ∨
    (p = .begun ∧ p.after reply action = .body ∧ action = .enter) ∨
    (p = .body ∧ p.after reply action = .left ∧ action = .leave) ∨
    (p.after reply action = p ∧ action ≠ .enter ∧
      ∀ job, action = .perform job → job.counts = true → p = .batch ∨ p = .body) := by
  cases action with
  | acquire =>
    have refused : reply.isOk = false := by
      cases h : reply.isOk with
      | false => rfl
      | true =>
        rw [gives.mp h] at within
        cases within
    have stays : p.after reply .acquire = p := by simp [after, refused]
    exact .inr (.inr (.inr ⟨stays, by simp, by simp⟩))
  | release =>
    rw [show p = .held from admits] at within
    cases within
  | enter => exact .inr (.inl ⟨admits, rfl, rfl⟩)
  | leave => exact .inr (.inr (.inl ⟨admits, rfl, rfl⟩))
  | leaveBehind job => exact admits.elim
  | tally => exact .inr (.inr (.inr ⟨rfl, by simp, by simp⟩))
  | perform job =>
    cases job with
    | control k =>
      have stays : p.after reply (.perform (.control k)) = p := by
        cases k with
        | begin =>
          have refused : reply.isOk ≠ true := by
            intro ok
            rw [gives ok] at within
            cases within
          exact if_neg refused
        | commit => exact if_neg unended
        | rollback => exact absurd trivial unended
        | savepoint | release | rollbackTo => rfl
      refine .inr (.inr (.inr ⟨stays, by simp, ?_⟩))
      rintro _ ⟨⟩ ⟨⟩
    | command | raw | define | index | probe | shut =>
      obtain ⟨works, loose, -⟩ := admits
      rw [after_of_loose loose]
      by_cases begun : p = .begun
      · exact .inl ⟨begun, if_pos begun, by simp⟩
      · refine .inr (.inr (.inr ⟨if_neg begun, by simp, fun _ _ _ => ?_⟩))
        cases p with
        | outside | held => cases within
        | left => cases works
        | begun => exact absurd rfl begun
        | batch => exact .inl rfl
        | body => exact .inr rfl

end Place

namespace Event

structure Begins (store t : Nat) (e : Event) : Prop where
  task : e.task = t
  request : e.request = ⟨store, .perform (.control .begin)⟩
  done : ∃ a, e.outcome.reply? = some (.ok a)

def Ends (store t : Nat) (e : Event) : Prop :=
  e.task = t ∧ e.request.store = store ∧
    ∃ reply, e.outcome.reply? = some reply ∧ e.request.action.Ends reply

def Enters (store t : Nat) (e : Event) : Prop :=
  e.task = t ∧ e.request = ⟨store, .enter⟩ ∧ e.outcome.reply?.isSome = true

def Executes (store : Nat) (job : Job) (e : Event) : Prop :=
  e.request = ⟨store, .perform job⟩ ∧ job.counts = true ∧ e.outcome.reply?.isSome = true

/-- After some events a task is within a transaction that has a body: the transaction began,
the task entered its body, and the transaction has not ended. -/
structure Within (store t : Nat) (es since : List Event) : Prop where
  begun : ∃ before b, es = before ++ b :: since ∧ b.Begins store t
  unended : ∀ e ∈ since, ¬ e.Ends store t
  entered : ∃ e ∈ since, e.Enters store t

end Event

namespace World

variable {α : Type} {store t : Nat} {issues : Nat → Mode → Job → Prop}
  {u w : World α} {before since es : List Event} {b : Event}

structure Prepared (store : Nat) (issues : Nat → Mode → Job → Prop) (u : World α) : Prop
    extends u.Initial where
  tasks : ∀ t, (u.tasks t).script.IsTask store (issues t) .autocommit

abbrev IssuesOrderly (store : Nat) (issues : Nat → Mode → Job → Prop) (es : List Event)
    (w : World α) : Prop :=
  Orderly (fun t => Place.AdmitsFrom (issues t) .autocommit) store (Event.places es) w

theorem Prepared.regular (prepared : Prepared store issues u) (trace : Trace u es w)
    (recovers : ∀ e ∈ es, e.Recovers) : IssuesOrderly store issues es w :=
  Orderly.trace (fun t => Place.lawful_admitsFrom (issues t))
    ⟨.of_initial prepared.toInitial, fun t => (prepared.tasks t).keeps⟩ trace recovers

/-- How far a transaction is, and what was done since it began. -/
structure Far (store t : Nat) (issues : Mode → Job → Prop) (since : List Event) (p : Place) :
    Prop where
  within : p.inTransaction = true
  fresh : p = .begun → ∀ e ∈ since, ∀ job, ¬ e.Executes store job
  whole : p = .begun ∨ p = .batch → ∀ e ∈ since, ¬ e.Enters store t
  own : p = .body ∨ p = .left → ∀ e ∈ since, ∀ job, e.Executes store job →
    e.task = t ∧ issues .transaction job

theorem forall_mem_snoc {P : Event → Prop} {e : Event} :
    (∀ x ∈ since ++ [e], P x) ↔ (∀ x ∈ since, P x) ∧ P e :=
  List.forall_mem_append.trans (and_congr Iff.rfl List.forall_mem_singleton)

theorem Far.skip {p : Place} {e : Event} {issues : Mode → Job → Prop}
    (far : Far store t issues since p)
    (enters : ¬ e.Enters store t) (executes : ∀ job, ¬ e.Executes store job) :
    Far store t issues (since ++ [e]) p where
  within := far.within
  fresh begun := forall_mem_snoc.mpr ⟨far.fresh begun, executes⟩
  whole unentered := forall_mem_snoc.mpr ⟨far.whole unentered, enters⟩
  own entered := forall_mem_snoc.mpr
    ⟨far.own entered, fun job hjob => absurd hjob (executes job)⟩

theorem Far.advance {p : Place} {action : Action} {outcome : Outcome} {reply : Reply}
    {issues : Mode → Job → Prop} (far : Far store t issues since p)
    (admits : p.Admits issues action) (gives : p.Gives reply action)
    (unended : ¬ action.Ends reply) :
    Far store t issues (since ++ [⟨t, ⟨store, action⟩, outcome⟩]) (p.after reply action) := by
  have notEnters (hne : action ≠ .enter) :
      ¬ Event.Enters store t ⟨t, ⟨store, action⟩, outcome⟩ := by
    rintro ⟨-, hrequest, -⟩
    exact hne (congrArg Request.action hrequest)
  rcases Place.advance far.within admits gives unended with
    ⟨begun, hq, hne⟩ | ⟨begun, hq, rfl⟩ | ⟨body, hq, rfl⟩ | ⟨hq, hne, working⟩
  · rw [hq]
    refine ⟨rfl, nofun, fun _ => ?_, nofun⟩
    rw [forall_mem_snoc]
    exact ⟨far.whole (.inl begun), notEnters hne⟩
  · rw [hq]
    refine ⟨rfl, nofun, nofun, fun _ => ?_⟩
    rw [forall_mem_snoc]
    exact ⟨fun e he job hjob => absurd hjob (far.fresh begun e he job), nofun⟩
  · rw [hq]
    refine ⟨rfl, nofun, nofun, fun _ => ?_⟩
    rw [forall_mem_snoc]
    exact ⟨far.own (.inl body), nofun⟩
  · rw [hq]
    refine ⟨far.within, fun begun => ?_, fun unentered => ?_, fun entered => ?_⟩
    · rw [forall_mem_snoc]
      refine ⟨far.fresh begun, ?_⟩
      rintro job ⟨hrequest, counts, -⟩
      have := working job (congrArg Request.action hrequest) counts
      rw [begun] at this
      simp at this
    · rw [forall_mem_snoc]
      exact ⟨far.whole unentered, notEnters hne⟩
    · rw [forall_mem_snoc]
      refine ⟨far.own entered, ?_⟩
      rintro job ⟨hrequest, counts, -⟩
      cases hrequest
      have body : p = .body := by
        rcases working job rfl counts with rfl | body
        · simp at entered
        · exact body
      rw [body] at admits
      exact ⟨rfl, (admits.counts counts).2⟩

theorem far (prepared : Prepared store issues u) (hb : b.Begins store t)
    (trace : Trace u (before ++ b :: since) w) (recovers : ∀ e ∈ before ++ b :: since, e.Recovers)
    (unended : ∀ e ∈ since, ¬ e.Ends store t) :
    Far store t (issues t) since (Event.places (before ++ b :: since) t) := by
  induction since using List.reverseRecOn generalizing w with
  | nil =>
    obtain ⟨v, earlier, move⟩ := trace.of_snoc
    have regular := prepared.regular earlier fun e he => recovers e (List.mem_append_left _ he)
    obtain ⟨-, -, gives⟩ := regular.asks (fun t => Place.lawful_admitsFrom (issues t)) move
    obtain ⟨a, ha⟩ := hb.done
    have held := gives _ ha
    rw [hb.request, hb.task] at held
    have place : Event.places (before ++ [b]) t = .begun := by
      rw [Event.places_append, Event.move, hb.task, replace_self, Event.after, ha, hb.request]
      rfl
    rw [place]
    exact ⟨rfl, fun _ _ he => (List.not_mem_nil he).elim, fun _ _ he => (List.not_mem_nil he).elim,
      fun _ _ he => (List.not_mem_nil he).elim⟩
  | append_singleton since e ih =>
    rw [← List.cons_append, ← List.append_assoc] at trace recovers ⊢
    obtain ⟨v, earlier, move⟩ := trace.of_snoc
    obtain ⟨hrecovers, -⟩ := forall_mem_snoc.mp recovers
    obtain ⟨hsince, he⟩ := forall_mem_snoc.mp unended
    have far := ih earlier hrecovers hsince
    have regular := prepared.regular earlier hrecovers
    obtain ⟨hstore, allowed, gives⟩ :=
      regular.asks (fun t => Place.lawful_admitsFrom (issues t)) move
    obtain ⟨task, ⟨s, action⟩, outcome⟩ := e
    cases hstore
    rw [Event.places_append, Event.move]
    by_cases same : task = t
    · subst same
      rw [replace_self, Event.after]
      cases served : outcome.reply? with
      | none =>
        refine far.skip ?_ ?_
        · rintro ⟨-, -, some⟩
          rw [served] at some
          cases some
        · rintro job ⟨-, -, some⟩
          rw [served] at some
          cases some
      | some reply =>
        refine far.advance allowed.1 (gives reply served) fun ends => ?_
        exact he ⟨rfl, rfl, reply, served, ends⟩
    · rw [replace_of_ne (Ne.symm same)]
      have inside : Event.places (before ++ b :: since) t ≠ .outside := by
        intro outside
        have within := far.within
        rw [outside] at within
        cases within
      have outside := regular.outside_of_ne inside same
      refine far.skip (fun enters => same enters.1) ?_
      rintro job ⟨hrequest, counts, -⟩
      cases hrequest
      have admits := allowed.1
      rw [outside] at admits
      exact admits.inside rfl

/-- Within a transaction its task is in its body, or has just left it. -/
theorem within_far (prepared : Prepared store issues u) (trace : Trace u es w)
    (recovers : ∀ e ∈ es, e.Recovers) (within : Event.Within store t es since) :
    Far store t (issues t) since (Event.places es t) ∧
      (Event.places es t = .body ∨ Event.places es t = .left) := by
  obtain ⟨⟨before, b, rfl, hb⟩, unended, e, he, enters⟩ := within
  have far := far prepared hb trace recovers unended
  refine ⟨far, ?_⟩
  have inside := far.within
  cases hp : Event.places (before ++ b :: since) t with
  | outside | held =>
    rw [hp] at inside
    cases inside
  | begun => exact absurd enters (far.whole (.inl hp) e he)
  | batch => exact absurd enters (far.whole (.inr hp) e he)
  | body => exact .inl rfl
  | left => exact .inr rfl

/-- A transaction does not begin a second time. -/
theorem since_unique (prepared : Prepared store issues u) (trace : Trace u es w)
    (recovers : ∀ e ∈ es, e.Recovers) {since' : List Event}
    (within : Event.Within store t es since) (within' : Event.Within store t es since')
    (shorter : since.length ≤ since'.length) : since = since' := by
  obtain ⟨⟨before, b, hes, hb⟩, -, -⟩ := within
  obtain ⟨⟨before', b', hes', hb'⟩, unended', -⟩ := within'
  have suffix : since <:+ es := ⟨before ++ [b], by simp [hes]⟩
  have suffix' : since' <:+ es := ⟨before' ++ [b'], by simp [hes']⟩
  rcases Nat.lt_or_eq_of_le shorter with longer | same
  · have begun : b :: since <:+ es := ⟨before, hes.symm⟩
    obtain ⟨zs, rfl⟩ := List.suffix_of_suffix_length_le begun suffix' longer
    have split : es = (before' ++ b' :: zs) ++ [b] ++ since := by simp [hes']
    rw [split] at trace recovers
    obtain ⟨x, earlier, -⟩ := trace.of_append
    obtain ⟨v, earlier, move⟩ := earlier.of_snoc
    have hrecovers : ∀ e ∈ before' ++ b' :: zs, e.Recovers := fun e he =>
      recovers e (List.mem_append_left _ (List.mem_append_left _ he))
    have far := far prepared hb' earlier hrecovers fun e he =>
      unended' e (List.mem_append_left _ he)
    -- The second beginning would be granted to a task that is in a transaction already.
    obtain ⟨-, -, gives⟩ := (prepared.regular earlier hrecovers).asks
      (fun t => Place.lawful_admitsFrom (issues t)) move
    obtain ⟨a, ha⟩ := hb.done
    have held := gives _ ha
    rw [hb.request, hb.task] at held
    have inside := far.within
    rw [held rfl] at inside
    cases inside
  · exact (List.suffix_of_suffix_length_le suffix suffix' shorter).eq_of_length same

/-- A transaction with a body is alone at its store. Whatever the steps of the tasks, and
whenever they give up but while a transaction begins: within a transaction its task holds the
gate, there is no other transaction, and every job on data that the connection carries out is
one that this task issues through a handle inside of its transaction. No transaction is open
while the gate is free. -/
theorem isolated (prepared : Prepared store issues u) (trace : Trace u es w)
    (recovers : ∀ e ∈ es, e.Recovers) :
    (∀ t since, Event.Within store t es since →
      w.holders store = some t ∧
      ((w.sites store).isOpen = true → (w.sites store).connection.IsBegun) ∧
      (∀ t' since', Event.Within store t' es since' → t' = t ∧ since' = since) ∧
      ∀ e ∈ since, ∀ job, e.Executes store job → e.task = t ∧ issues t .transaction job) ∧
    (w.holders store = none → (w.sites store).connection.opened = none) := by
  have regular := prepared.regular trace recovers
  constructor
  · intro t since within
    obtain ⟨far, entered⟩ := within_far prepared trace recovers within
    have inside : Event.places es t ≠ .outside := by
      rcases entered with body | left
      · rw [body]
        nofun
      · rw [left]
        nofun
    have holds := (regular.holder t).mpr inside
    refine ⟨holds, fun isOpen => ?_, fun t' since' within' => ?_, far.own entered⟩
    · have suits := regular.held t holds
      rwa [Site.suits_of_isOpen isOpen, if_pos far.within] at suits
    · obtain ⟨far', -⟩ := within_far prepared trace recovers within'
      have same : t' = t := by
        by_contra ne
        have outside := far'.within
        rw [regular.outside_of_ne inside ne] at outside
        cases outside
      subst same
      refine ⟨rfl, ?_⟩
      rcases Nat.le_total since.length since'.length with shorter | shorter
      · exact (since_unique prepared trace recovers within within' shorter).symm
      · exact since_unique prepared trace recovers within' within shorter
  · intro free
    have suits := regular.free free
    rw [Site.Suits] at suits
    simpa [Place.inTransaction] using suits

def insertOrder : Job :=
  .command (.insert "orders" [("id", .text "a")])

def removeOrders : Job :=
  .command (.delete "orders" [])

/-- A task that adds an order in a transaction, and one that removes the orders twice, outside
of transactions. -/
def orderScript : Nat → Script (Option (Except Failure Answer))
  | 0 => do
    let ending ← Handle.transaction {} fun inner => (inner.perform insertOrder).run
    return some (ending.result id)
  | 1 => do
    let _ ← (Handle.perform {} removeOrders).run
    let removed ← (Handle.perform {} removeOrders).run
    return some removed
  | _ => return none

def orderWorld : World (Except Failure Answer) where
  sites _ := { connection := { database :=
    { tables := [⟨{ name := "orders", columns := [{ name := "id" }] }, []⟩] } } }
  holders _ := none
  tasks t := { script := orderScript t }

def orderIssues (t : Nat) (m : Mode) (job : Job) : Prop :=
  (t = 0 ∧ m = .transaction ∧ job = insertOrder) ∨ (t = 1 ∧ m = .autocommit ∧ job = removeOrders)

theorem prepared_orderWorld : Prepared 0 orderIssues orderWorld where
  free _ := rfl
  outside _ := rfl
  closed _ := rfl
  tasks
    | 0 => by
      refine .bind (.transaction rfl id fun _ => ?_) fun _ => .done _
      exact .call rfl id (.asks (.perform rfl)) (Handle.issues_perform (.inl ⟨rfl, rfl, rfl⟩))
    | 1 => by
      have removes : ((Handle.perform {} removeOrders).run).IsTask 0 (orderIssues 1) .autocommit :=
        .call rfl id (.asks (.perform rfl)) (Handle.issues_perform (.inr ⟨rfl, rfl, rfl⟩))
      exact .bind removes fun _ => .bind removes fun _ => .done _
    | t + 2 => .done _

def removeEvents (a b c : Reply) : List Event :=
  [⟨1, ⟨0, .acquire⟩, .answered a⟩, ⟨1, ⟨0, .perform removeOrders⟩, .answered b⟩,
    ⟨1, ⟨0, .release⟩, .answered c⟩]

def acquireEvents (a b c d : Reply) : List Event :=
  removeEvents a b c ++ [⟨0, ⟨0, .acquire⟩, .answered d⟩]

def addEvents (a b : Reply) : List Event :=
  [⟨0, ⟨0, .enter⟩, .answered a⟩, ⟨0, ⟨0, .perform insertOrder⟩, .answered b⟩]

/-- The task that removes orders waits at the gate meanwhile. -/
theorem isolated_orders :
    ∃ es since w, Trace orderWorld es w ∧ Event.Within 0 0 es since ∧
      (∃ e ∈ es, e.task = 1 ∧ e.Executes 0 removeOrders) ∧
      (∃ instead next, (w.tasks 1).script = .step ⟨0, .acquire⟩ instead next) ∧
      w.serve? 1 ⟨0, .acquire⟩ = none ∧
      (∃ e ∈ since, e.Executes 0 insertOrder) ∧ w.holders 0 = some 0 ∧
      ∀ e ∈ since, ∀ job, e.Executes 0 job → e.task = 0 ∧ job = insertOrder := by
  let schedule : List Nat := [1, 1, 1, 0, 1, 0, 1, 0, 1, 0, 1]
  have trace := trace_follow orderWorld schedule
  obtain ⟨es, w, hfollow⟩ : ∃ es w, orderWorld.follow schedule = (es, w) := ⟨_, _, rfl⟩
  rw [hfollow] at trace
  obtain ⟨a, b, c, d, x, f, g, rfl⟩ : ∃ a b c d x f g, es = acquireEvents a b c d ++
      ⟨0, ⟨0, .perform (.control .begin)⟩, .answered (.ok x)⟩ :: addEvents f g :=
    ⟨_, _, _, _, _, _, _, (congrArg Prod.fst hfollow).symm⟩
  have recovers : ∀ e ∈ acquireEvents a b c d ++
      ⟨0, ⟨0, .perform (.control .begin)⟩, .answered (.ok x)⟩ :: addEvents f g, e.Recovers := by
    simp [acquireEvents, removeEvents, addEvents, Event.Recovers]
  have within : Event.Within 0 0 (acquireEvents a b c d ++
      ⟨0, ⟨0, .perform (.control .begin)⟩, .answered (.ok x)⟩ :: addEvents f g)
      (addEvents f g) := by
    refine ⟨⟨_, _, rfl, rfl, rfl, x, rfl⟩, ?_, ?_⟩
    · simp [addEvents, Event.Ends, Action.Ends, insertOrder]
    · exact ⟨_, List.mem_cons_self, rfl, rfl, rfl⟩
  obtain ⟨isolated, -⟩ := isolated prepared_orderWorld trace recovers
  obtain ⟨holds, -, -, own⟩ := isolated 0 _ within
  have hw : w = (orderWorld.follow schedule).2 := (congrArg Prod.snd hfollow).symm
  refine ⟨_, _, w, trace, within, ?_, ?_, ?_, ?_, holds, fun e he job hjob => ?_⟩
  · exact ⟨_, List.mem_append_left _ (List.mem_cons_of_mem _ List.mem_cons_self), rfl, rfl, rfl,
      rfl⟩
  · rw [hw]
    exact ⟨_, _, rfl⟩
  · rw [hw]
    rfl
  · exact ⟨_, List.mem_cons_of_mem _ List.mem_cons_self, rfl, rfl, rfl⟩
  · obtain ⟨htask, ⟨-, -, same⟩ | ⟨absent, -⟩⟩ := own e he job hjob
    · exact ⟨htask, same⟩
    · cases absent

end World

end Relata
