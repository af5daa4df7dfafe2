import Relata.Proofs.Script.Call
import Relata.Proofs.Script.Keeping

/-! # Tasks

A task is a program of calls and transactions through the handles of one store. What it
does behind the gate are jobs one by one, a batch, or the body of a transaction. Every task
keeps to the places of its store, provided that the handle of a transaction is used in the
body of that transaction only.
-/

namespace Relata

/-- An operation that asks for jobs of some kind, one by one. -/
inductive Handle.Asks (h : Handle) (allowed : Job → Prop) : {α : Type} → Op α → Prop
  | decided {α : Type} (result : Except Failure α) : Asks h allowed (.mk (.done result))
  | bind {α β : Type} {x : Op α} {f : α → Op β} (first : Asks h allowed x)
      (rest : ∀ a, Asks h allowed (f a)) : Asks h allowed (x >>= f)
  | perform {job : Job} (hjob : allowed job) : Asks h allowed (h.perform job)

/-- A call whose jobs behind the gate are asked for one by one, batches apart. -/
inductive Handle.Uses (h : Handle) : {α : Type} → Op α → Prop
  | asks {α : Type} {x : Op α} (asks : h.Asks Job.IsPlain x) : Uses h x
  | bind {α β : Type} {x : Op α} {f : α → Op β} (first : Uses h x)
      (rest : ∀ a, Uses h (f a)) : Uses h (x >>= f)
  | batch {jobs : List Job} (plain : ∀ job ∈ jobs, job.IsPlain) : Uses h (h.batch jobs)
  | hold {α : Type} {x : Handle → Op α} (held : h.inside.Asks Job.IsPlain (x h.inside)) :
      Uses h (h.hold x)

/-- The programs of a store: within transactions, or from before the gate. A handle inside
of transactions is only used within. What is issued through the handles of either mode are
the given jobs on data. -/
inductive Script.IsTask (store : Nat) (issues : Mode → Job → Prop) :
    Mode → {α : Type} → Script α → Prop
  | done {m : Mode} {α : Type} (a : α) : IsTask store issues m (.done a)
  | bind {m : Mode} {α β : Type} {x : Script α} {f : α → Script β}
      (first : IsTask store issues m x) (rest : ∀ a, IsTask store issues m (f a)) :
      IsTask store issues m (x >>= f)
  | call {m : Mode} {α : Type} {h : Handle} {x : Op α} (here : h.store = store)
      (own : h.mode = .transaction → m = .transaction) (uses : h.Uses x)
      (issued : x.run.Issues (issues h.mode)) : IsTask store issues m x.run
  | close {m : Mode} {h : Handle} (here : h.store = store)
      (own : h.mode = .transaction → m = .transaction) :
      IsTask store issues m (h.perform .shut).run
  | transaction {m : Mode} {ε α : Type} {h : Handle} {body : Handle → Script (Except ε α)}
      (here : h.store = store) (own : h.mode = .transaction → m = .transaction)
      (inner : m = .autocommit → IsTask store issues .transaction (body h.inside)) :
      IsTask store issues m (h.transaction body)
  | tally {m : Mode} {h : Handle} (here : h.store = store) : IsTask store issues m h.tally

namespace Handle

variable {α β : Type} {h : Handle}

theorem Asks.hold {allowed : Job → Prop} {x : Handle → Op α} (inside : h.mode = .transaction)
    (held : h.Asks allowed (x h)) : h.Asks allowed (h.hold x) := by
  rw [Handle.hold, inside]
  exact held

theorem Asks.mono {allowed allowed' : Job → Prop} {x : Op α} (asks : h.Asks allowed x)
    (hallowed : ∀ job, allowed job → allowed' job) : h.Asks allowed' x := by
  induction asks with
  | decided result => exact .decided result
  | bind _ _ ihx ihf => exact .bind ihx ihf
  | perform hjob => exact .perform (hallowed _ hjob)

theorem Asks.calls {x : Op α} (asks : h.Asks Job.IsPlain x) : h.Calls x := by
  induction asks with
  | decided result => exact .decided result
  | bind _ _ ihx ihf => exact .bind ihx ihf
  | perform plain => exact .perform plain

theorem Uses.calls {x : Op α} (uses : h.Uses x) : h.Calls x := by
  induction uses with
  | asks asks => exact asks.calls
  | bind _ _ ihx ihf => exact .bind ihx ihf
  | batch plain => exact .batch plain
  | hold held => exact .hold held.calls

end Handle

namespace Place

variable {p : Place} {issues : Mode → Job → Prop} {m : Mode}

theorem Admits.issuing {mode : Mode} {action : Action} (admits : p.Admits (only mode) action)
    (issued : ∀ job, action = .perform job → job.counts = true → issues mode job) :
    p.Admits issues action := by
  cases action with
  | perform job =>
    cases job with
    | control k => exact admits
    | command | raw | define | index | probe | shut =>
      obtain ⟨works, loose, same⟩ := admits
      exact ⟨works, loose, fun counts => same counts ▸ issued _ rfl counts⟩
  | acquire | release | enter | leave | leaveBehind | tally => exact admits

end Place

namespace Script.Keeps

variable {α β : Type} {allowed : Place → Action → Prop} {store : Nat} {home : Place → Prop}
  {p : Place}

theorem op_bind {x : Op α} {f : α → Op β}
    (first : x.run.Keeps allowed store home p fun _ q => q = p)
    (rest : ∀ a, (f a).run.Keeps allowed store home p fun _ q => q = p) :
    (x >>= f).run.Keeps allowed store home p fun _ q => q = p := by
  have hbind : (x >>= f).run = x.run >>= ExceptT.bindCont f := rfl
  rw [hbind]
  refine .bind first fun result q hq => ?_
  cases hq
  cases result with
  | error e => rfl
  | ok a => exact rest a

end Script.Keeps

namespace Handle

variable {α ε : Type} {h : Handle} {store : Nat} {issues : Mode → Job → Prop} {p : Place}

theorem run_hold_outside (outside : h.mode = .autocommit) (x : Handle → Op α) :
    (h.hold x).run = h.gated .error (x h.inside).run := by
  rw [Handle.hold, outside]
  rfl

theorem run_hold_inside (inside : h.mode = .transaction) (x : Handle → Op α) :
    (h.hold x).run = (x h).run := by
  rw [Handle.hold, inside]

/-- A batch of no jobs is none; others are transactions of their own, or parts of one. -/
theorem run_batch_cases (jobs : List Job) :
    (h.batch jobs).run = .done (.ok []) ∨
      (h.mode = .autocommit ∧ (h.batch jobs).run = h.gated .error (h.wholeBatch jobs)) ∨
      (h.mode = .transaction ∧ (h.batch jobs).run = h.partialBatch jobs) := by
  rw [Handle.batch]
  by_cases empty : jobs.isEmpty = true
  · rw [if_pos empty]
    exact .inl rfl
  · rw [if_neg empty]
    cases h.mode with
    | autocommit => exact .inr (.inl ⟨rfl, rfl⟩)
    | transaction => exact .inr (.inr ⟨rfl, rfl⟩)

theorem issues_gated {issued : Job → Prop} {refused : Failure → α} {x : Script α}
    (hx : x.Issues issued) : (h.gated refused x).Issues issued := by
  rw [gated_eq]
  refine .bind (.ask (by simp [Handle.request])) fun reply => ?_
  cases reply with
  | error f => trivial
  | ok a =>
    refine .bind (.guarded hx _) fun a => .bind ?_ fun _ => trivial
    exact ⟨by simp [Handle.request], fun _ => trivial⟩

theorem issues_hold {issued : Job → Prop} {x : Handle → Op α}
    (hx : ∀ inner, (x inner).run.Issues issued) : (h.hold x).run.Issues issued := by
  cases hm : h.mode with
  | transaction =>
    rw [run_hold_inside hm]
    exact hx h
  | autocommit =>
    rw [run_hold_outside hm]
    exact issues_gated (hx h.inside)

theorem issues_perform {issued : Job → Prop} {job : Job} (hjob : issued job) :
    (h.perform job).run.Issues issued := by
  refine issues_hold fun inner => .ask fun job' same _ => ?_
  cases same
  exact hjob

theorem issues_control {issued : Job → Prop} (c : Control) :
    (h.ask (.control c)).Issues issued := by
  refine .ask fun job same counts => ?_
  cases same
  cases counts

theorem issues_each {issued : Job → Prop} {jobs : List Job} (hjobs : ∀ job ∈ jobs, issued job) :
    (h.each jobs).Issues issued := by
  induction jobs with
  | nil => trivial
  | cons job jobs ih =>
    obtain ⟨hjob, hrest⟩ := List.forall_mem_cons.mp hjobs
    have first : (h.ask job).Issues issued := by
      refine .ask fun job' same _ => ?_
      cases same
      exact hjob
    refine .bind first fun reply => ?_
    cases reply with
    | error f => trivial
    | ok a => exact .bind (ih hrest) fun _ => trivial

theorem issues_batch {issued : Job → Prop} {jobs : List Job} (hjobs : ∀ job ∈ jobs, issued job) :
    (h.batch jobs).run.Issues issued := by
  have undo : (Script.ask h.undo).Issues issued := issues_control .rollback
  have divide (c : Control) : (h.control c).Issues issued :=
    .bind (issues_control c) fun _ => trivial
  rcases h.run_batch_cases jobs with hrun | ⟨-, hrun⟩ | ⟨-, hrun⟩
  · rw [hrun]
    trivial
  · rw [hrun]
    refine issues_gated (.bind (issues_control .begin) fun reply => ?_)
    cases reply with
    | error f => trivial
    | ok a =>
      refine .guarded (.bind (issues_each hjobs) fun counts => ?_) _
      cases counts with
      | error f => exact .bind undo fun _ => trivial
      | ok counts =>
        refine .bind (issues_control .commit) fun reply => ?_
        cases reply with
        | ok a => trivial
        | error f => exact .bind undo fun _ => trivial
  · rw [hrun]
    refine .bind (divide _) fun reply => ?_
    cases reply with
    | error f => trivial
    | ok a =>
      refine .bind (issues_each hjobs) fun counts => ?_
      cases counts with
      | ok counts => exact .bind (divide _) fun _ => trivial
      | error f =>
        refine .bind (issues_control _) fun reply => ?_
        cases reply with
        | error e => trivial
        | ok a => exact .bind (issues_control _) fun _ => trivial

theorem keeps_perform_inside (here : h.store = store) (inside : h.mode = .transaction)
    (inner : p = .held ∨ p = .body) {job : Job} (loose : job.IsLoose)
    (issued : job.counts = true → issues p.mode job) :
    (h.perform job).run.Keeps (Place.AdmitsFrom issues .transaction) store (· = p) p
      fun _ q => q = p := by
  have works : p.works = true := by
    rcases inner with rfl | rfl <;> rfl
  have stays : (if p = .begun then Place.batch else p) = p := by
    rcases inner with rfl | rfl <;> rfl
  have keeps := keeps_ask here works loose issued (· = p) rfl stays
  rw [stays] at keeps
  rw [Handle.perform, run_hold_inside inside]
  exact keeps

theorem Asks.keeps {x : Op α} (asks : h.Asks Job.IsPlain x) (here : h.store = store)
    (inside : h.mode = .transaction) (inner : p = .held ∨ p = .body) :
    x.run.Keeps (Place.AdmitsFrom (Place.only p.mode) .transaction) store (· = p) p
      fun _ q => q = p := by
  induction asks with
  | decided result => exact rfl
  | bind _ _ ihx ihf => exact .op_bind ihx ihf
  | perform plain => exact keeps_perform_inside here inside inner (.inl plain) fun _ => rfl

theorem keeps_hold (here : h.store = store) (outside : h.mode = .autocommit)
    {x : Handle → Op α}
    (held : (x h.inside).run.Keeps (Place.AdmitsFrom issues .transaction) store (· = .held)
      .held fun _ q => q = .held) :
    (h.hold x).run.Keeps (Place.AdmitsPassing issues) store (· = .outside) .outside
      fun _ q => q = .outside := by
  rw [run_hold_outside outside]
  exact keeps_gated here .error held

theorem keeps_hold_busy (here : h.store = store) (outside : h.mode = .autocommit)
    (x : Handle → Op α) :
    (h.hold x).run.Keeps (Place.AdmitsFrom issues .transaction) store (· = .body) .body
      fun _ q => q = .body := by
  rw [run_hold_outside outside]
  exact keeps_gated_busy here Except.error _

theorem keeps_perform_outside (here : h.store = store) (outside : h.mode = .autocommit)
    {job : Job} (loose : job.IsLoose) (issued : job.counts = true → issues .autocommit job) :
    (h.perform job).run.Keeps (Place.AdmitsPassing issues) store (· = .outside) .outside
      fun _ q => q = .outside :=
  keeps_hold here outside
    (keeps_perform_inside (h := h.inside) (p := .held) here rfl (.inl rfl) loose issued)

theorem Uses.keeps_outside {x : Op α} (uses : h.Uses x) (here : h.store = store)
    (outside : h.mode = .autocommit) :
    x.run.Keeps (Place.AdmitsPassing (Place.only .autocommit)) store (· = .outside) .outside
      fun _ q => q = .outside := by
  induction uses with
  | asks asks =>
    induction asks with
    | decided result => exact rfl
    | bind _ _ ihx ihf => exact .op_bind ihx ihf
    | perform plain => exact keeps_perform_outside here outside (.inl plain) fun _ => rfl
  | bind _ _ ihx ihf => exact .op_bind ihx ihf
  | @batch jobs plain =>
    rcases run_batch_cases (h := h) jobs with hx | ⟨-, hx⟩ | ⟨inside, -⟩
    · rw [hx]
      exact rfl
    · rw [hx]
      exact keeps_gated here .error (keeps_wholeBatch here plain)
    · rw [outside] at inside
      cases inside
  | hold held => exact keeps_hold here outside (held.keeps here rfl (.inl rfl))

theorem Uses.keeps_busy {x : Op α} (uses : h.Uses x) (here : h.store = store)
    (outside : h.mode = .autocommit) :
    x.run.Keeps (Place.AdmitsFrom issues .transaction) store (· = .body) .body
      fun _ q => q = .body := by
  induction uses with
  | asks asks =>
    induction asks with
    | decided result => exact rfl
    | bind _ _ ihx ihf => exact .op_bind ihx ihf
    | perform plain => exact keeps_hold_busy here outside _
  | bind _ _ ihx ihf => exact .op_bind ihx ihf
  | @batch jobs plain =>
    rcases run_batch_cases (h := h) jobs with hx | ⟨-, hx⟩ | ⟨inside, -⟩
    · rw [hx]
      exact rfl
    · rw [hx]
      exact keeps_gated_busy here Except.error _
    · rw [outside] at inside
      cases inside
  | hold held => exact keeps_hold_busy here outside _

theorem Uses.keeps_inside {x : Op α} (uses : h.Uses x) (here : h.store = store)
    (inside : h.mode = .transaction) :
    x.run.Keeps (Place.AdmitsFrom (Place.only .transaction) .transaction) store (· = .body)
      .body fun _ q => q = .body := by
  induction uses with
  | asks asks => exact asks.keeps here inside (.inr rfl)
  | bind _ _ ihx ihf => exact .op_bind ihx ihf
  | @batch jobs plain =>
    rcases run_batch_cases (h := h) jobs with hx | ⟨outside, -⟩ | ⟨-, hx⟩
    · rw [hx]
      exact rfl
    · rw [inside] at outside
      cases outside
    · rw [hx]
      exact keeps_partialBatch here plain
  | hold held =>
    rw [Handle.inside_of_mode inside] at held
    rw [run_hold_inside inside]
    exact held.keeps here inside (.inr rfl)

theorem keeps_transaction (here : h.store = store) (outside : h.mode = .autocommit)
    {body : Handle → Script (Except ε α)}
    (hbody : (body h.inside).Keeps (Place.AdmitsFrom issues .transaction) store (· = .body)
      .body fun _ q => q = .body) :
    (h.transaction body).Keeps (Place.AdmitsPassing issues) store (· = .outside) .outside
      fun _ q => q = .outside := by
  rw [Handle.transaction, Handle.passing, outside]
  exact keeps_gated here _ (keeps_bracket here hbody)

theorem keeps_transaction_nested (here : h.store = store)
    (body : Handle → Script (Except ε α)) :
    (h.transaction body).Keeps (Place.AdmitsFrom issues .transaction) store (· = .body) .body
      fun _ q => q = .body := by
  rw [Handle.transaction, Handle.passing]
  cases h.mode with
  | autocommit => exact keeps_gated_busy here _ _
  | transaction => exact keeps_bracket_nested here body

theorem keeps_tally (here : h.store = store) (m : Mode) :
    h.tally.Keeps (Place.AdmitsFrom issues m) store (· = Place.base m) (Place.base m)
      fun _ q => q = Place.base m := by
  subst here
  have admits : (Place.base m).AdmitsFrom issues m .tally := by
    refine ⟨trivial, ?_⟩
    rintro rfl
    exact ⟨nofun, nofun⟩
  have asks : (Script.ask (h.request .tally)).Keeps (Place.AdmitsFrom issues m) h.store
      (· = Place.base m) (Place.base m) fun _ q => q = Place.base m :=
    .ask admits nofun fun _ _ => ⟨rfl, False.elim⟩
  refine .bind asks fun reply q hq => ?_
  cases reply <;> exact hq

end Handle

open Handle

namespace Script.IsTask

variable {α : Type} {store : Nat} {issues : Mode → Job → Prop} {m : Mode} {s : Script α}

theorem eq_autocommit {mode : Mode} (own : mode = .transaction → Mode.autocommit = .transaction) :
    mode = .autocommit := by
  cases mode with
  | autocommit => rfl
  | transaction => exact absurd (own rfl) nofun

/-- Within a transaction a task stays in its body, and of what it issues only that counts which
comes through the handles of the transaction. -/
theorem keeps_body {issues' : Mode → Job → Prop} (task : s.IsTask store issues m)
    (within : m = .transaction) (all : ∀ job, issues .transaction job → issues' .transaction job) :
    s.Keeps (Place.AdmitsFrom issues' .transaction) store (· = .body) .body
      fun _ q => q = .body := by
  induction task with
  | done a => exact rfl
  | bind _ _ ihx ihf =>
    refine .bind (ihx within) fun a q hq => ?_
    cases hq
    exact ihf a within
  | @call m α h x here own uses issued =>
    cases hm : h.mode with
    | autocommit => exact uses.keeps_busy here hm
    | transaction =>
      rw [hm] at issued
      refine ((uses.keeps_inside here hm).issuing issued).mono (fun _ _ allowed => ?_) fun _ _ => id
      exact ⟨allowed.1.1.issuing fun job asks counts => all job (allowed.2 job asks counts),
        allowed.1.2⟩
  | @close m h here own =>
    cases hm : h.mode with
    | autocommit => exact keeps_hold_busy here hm _
    | transaction => exact keeps_perform_inside here hm (.inr rfl) (.inr rfl) nofun
  | @transaction m ε α h body here own inner ih => exact keeps_transaction_nested here body
  | @tally m h here =>
    subst within
    exact keeps_tally here .transaction

/-- A task keeps to the places of its store. -/
theorem keeps (task : s.IsTask store issues m) :
    s.Keeps (Place.AdmitsFrom issues m) store (· = Place.base m) (Place.base m)
      fun _ q => q = Place.base m := by
  cases m with
  | transaction => exact task.keeps_body rfl fun _ => id
  | autocommit =>
    generalize hm : Mode.autocommit = m at task
    induction task with
    | done a => exact rfl
    | bind _ _ ihx ihf =>
      refine .bind (ihx hm) fun a q hq => ?_
      cases hq
      exact ihf a hm
    | @call m α h x here own uses issued =>
      subst hm
      have outside := eq_autocommit own
      rw [outside] at issued
      exact ((uses.keeps_outside here outside).issuing issued).mono
        (fun _ _ allowed => ⟨allowed.1.1.issuing allowed.2, nofun⟩) fun _ _ => id
    | @close m h here own =>
      subst hm
      exact (keeps_perform_outside here (eq_autocommit own) (.inr rfl) nofun).mono
        (fun _ _ allowed => ⟨allowed.1, nofun⟩) fun _ _ => id
    | @transaction m ε α h body here own inner ih =>
      subst hm
      have keeps := keeps_transaction here (eq_autocommit own)
        ((inner rfl).keeps_body rfl fun _ => id)
      exact keeps.mono (fun _ _ allowed => ⟨allowed.1, nofun⟩) fun _ _ => id
    | @tally m h here =>
      subst hm
      exact keeps_tally here .autocommit

end Script.IsTask

end Relata
