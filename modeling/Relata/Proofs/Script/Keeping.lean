import Relata.Proofs.Script.Place
import Relata.Script.World

/-! # Keeping to places

A script keeps to the places of a store if it only asks what its place admits, whatever it
is replied and whenever it is given up. What is left to it then leads it home. The rules
follow the ways in which scripts are composed.
-/

namespace Relata

/-- The requests that are left at a place lead home. -/
inductive Remains (store : Nat) (home : Place → Prop) : Place → List Request → Prop
  | nil {p : Place} (arrived : home p) : Remains store home p []
  | leave {rest : List Request} (further : Remains store home .left rest) :
      Remains store home .body (⟨store, .leave⟩ :: rest)
  | undo {p : Place} {rest : List Request} (admits : p.AdmitsControl .rollback)
      (further : Remains store home .held rest) :
      Remains store home p (⟨store, .perform (.control .rollback)⟩ :: rest)
  | release {rest : List Request} (further : Remains store home .outside rest) :
      Remains store home .held (⟨store, .release⟩ :: rest)

theorem Remains.append {store : Nat} {home home' : Place → Prop} {p : Place}
    {first last : List Request} (h : Remains store home p first)
    (further : ∀ q, home q → Remains store home' q last) :
    Remains store home' p (first ++ last) := by
  induction h with
  | nil arrived => exact further _ arrived
  | leave _ ih => exact .leave ih
  | undo admits _ ih => exact .undo admits ih
  | release _ ih => exact .release ih

/-- Whether an action may be given up while it is done: not the beginning of a transaction,
which nobody would take back. -/
def Action.MayBeLost (reply : Reply) : Action → Prop
  | .perform (.control .begin) => reply.isOk = false
  | .perform _ => True
  | _ => False

namespace Script

variable {α β : Type}

/-- From a place, a script asks what is allowed until it ends with a result and at a place
that go together; where it may be given up, what is left leads home. -/
def Keeps (allowed : Place → Action → Prop) (store : Nat) (home : Place → Prop) :
    Script α → Place → (α → Place → Prop) → Prop
  | done a, p, post => post a p
  | step r instead next, p, post =>
    (r.store = store ∧ allowed p r.action) ∧
    (World.waits r.action = true → Remains store home p instead) ∧
    ∀ reply, p.Gives reply r.action →
      Keeps allowed store home (next reply) (p.after reply r.action) post ∧
      (r.action.MayBeLost reply → Remains store home (p.after reply r.action) instead)

/-- Every job on data that a script may ask for is one of the given ones. -/
def Issues (issued : Job → Prop) : Script α → Prop
  | done _ => True
  | step r _ next =>
    (∀ job, r.action = .perform job → job.counts = true → issued job) ∧
      ∀ reply, Issues issued (next reply)

namespace Issues

variable {issued : Job → Prop} {x : Script α} {f : α → Script β}

theorem bind (first : x.Issues issued) (rest : ∀ a, (f a).Issues issued) :
    (x >>= f).Issues issued := by
  induction x with
  | done a => exact rest a
  | step r instead next ih => exact ⟨first.1, fun reply => ih reply (first.2 reply)⟩

theorem guarded (h : x.Issues issued) (undo : List Request) : (x.guarded undo).Issues issued := by
  induction x with
  | done a => exact h
  | step r instead next ih => exact ⟨h.1, fun reply => ih reply (h.2 reply)⟩

theorem ask {r : Request}
    (h : ∀ job, r.action = .perform job → job.counts = true → issued job) :
    (Script.ask r).Issues issued :=
  ⟨h, fun _ => trivial⟩

end Issues

namespace Keeps

variable {allowed allowed' : Place → Action → Prop} {store : Nat} {home home' : Place → Prop}
  {x : Script α} {f : α → Script β} {p : Place} {post post' mid : α → Place → Prop}
  {last : β → Place → Prop}

theorem done {a : α} (h : post a p) : (Script.done a).Keeps allowed store home p post :=
  h

theorem bind (first : x.Keeps allowed store home p mid)
    (rest : ∀ a q, mid a q → (f a).Keeps allowed store home q last) :
    (x >>= f).Keeps allowed store home p last := by
  induction x generalizing p with
  | done a => exact rest a p first
  | step r instead next ih =>
    obtain ⟨asks, waits, replied⟩ := first
    refine ⟨asks, waits, fun reply gives => ?_⟩
    obtain ⟨keeps, lost⟩ := replied reply gives
    exact ⟨ih reply keeps, lost⟩

theorem mono (h : x.Keeps allowed store home p post)
    (allow : ∀ p action, allowed p action → allowed' p action)
    (arrive : ∀ a q, post a q → post' a q) : x.Keeps allowed' store home p post' := by
  induction x generalizing p with
  | done a => exact arrive a p h
  | step r instead next ih =>
    obtain ⟨⟨hstore, hallowed⟩, waits, replied⟩ := h
    refine ⟨⟨hstore, allow _ _ hallowed⟩, waits, fun reply gives => ?_⟩
    obtain ⟨keeps, lost⟩ := replied reply gives
    exact ⟨ih reply keeps, lost⟩

theorem guarded {undo : List Request} (h : x.Keeps allowed store home p post)
    (further : ∀ q, home q → Remains store home' q undo) :
    (x.guarded undo).Keeps allowed store home' p post := by
  induction x generalizing p with
  | done a => exact h
  | step r instead next ih =>
    obtain ⟨asks, waits, replied⟩ := h
    refine ⟨asks, fun waiting => (waits waiting).append further, fun reply gives => ?_⟩
    obtain ⟨keeps, lost⟩ := replied reply gives
    exact ⟨ih reply keeps, fun may => (lost may).append further⟩

theorem issuing {issued : Job → Prop} (h : x.Keeps allowed store home p post)
    (issues : x.Issues issued) :
    x.Keeps (fun p action => allowed p action ∧
      ∀ job, action = .perform job → job.counts = true → issued job) store home p post := by
  induction x generalizing p with
  | done a => exact h
  | step r instead next ih =>
    obtain ⟨⟨hstore, hallowed⟩, waits, replied⟩ := h
    refine ⟨⟨hstore, hallowed, issues.1⟩, waits, fun reply gives => ?_⟩
    obtain ⟨keeps, lost⟩ := replied reply gives
    exact ⟨ih reply keeps (issues.2 reply), lost⟩

theorem ask {action : Action} {post : Reply → Place → Prop} (allow : allowed p action)
    (waits : World.waits action = true → home p)
    (replied : ∀ reply, p.Gives reply action → post reply (p.after reply action) ∧
      (action.MayBeLost reply → home (p.after reply action))) :
    (Script.ask ⟨store, action⟩).Keeps allowed store home p post := by
  refine ⟨⟨rfl, allow⟩, fun waiting => .nil (waits waiting), fun reply gives => ?_⟩
  exact ⟨(replied reply gives).1, fun may => .nil ((replied reply gives).2 may)⟩

theorem surely {action : Action} {post : Unit → Place → Prop} (allow : allowed p action)
    (waits : World.waits action = false)
    (replied : ∀ reply, p.Gives reply action → post () (p.after reply action)) :
    (Script.surely ⟨store, action⟩).Keeps allowed store home p post := by
  refine ⟨⟨rfl, allow⟩, fun waiting => ?_, fun reply gives => ⟨replied reply gives, fun may => ?_⟩⟩
  · rw [waits] at waiting
    cases waiting
  · cases action with
    | perform job => cases waits
    | acquire | release | enter | leave | leaveBehind | tally => exact may.elim

end Keeps

end Script

namespace Place

/-- What is admitted to a script that is behind the gate from its beginning to its end, or
to one that passes the gate itself. -/
def AdmitsFrom (issues : Mode → Job → Prop) (m : Mode) (p : Place) (action : Action) : Prop :=
  p.Admits issues action ∧ (m = .transaction → p ≠ .outside ∧ action ≠ .release)

/-- What is admitted to a script that does nothing before the gate but to pass it. -/
def AdmitsPassing (issues : Mode → Job → Prop) (p : Place) (action : Action) : Prop :=
  p.Admits issues action ∧ (p = .outside → action = .acquire)

def only (m : Mode) : Mode → Job → Prop :=
  fun mode _ => mode = m

variable {p : Place} {issues : Mode → Job → Prop}

theorem AdmitsFrom.passing {action : Action} (h : p.AdmitsFrom issues .transaction action) :
    p.AdmitsPassing issues action :=
  ⟨h.1, fun outside => absurd outside (h.2 rfl).1⟩

theorem AdmitsFrom.mono {issues' : Mode → Job → Prop} {m : Mode} {action : Action}
    (h : p.AdmitsFrom issues m action) (hissues : ∀ job, issues p.mode job → issues' p.mode job) :
    p.AdmitsFrom issues' m action :=
  ⟨h.1.mono hissues, h.2⟩

end Place

namespace Handle

open Script

variable {α ε : Type} {h : Handle} {store : Nat} {issues : Mode → Job → Prop} {p : Place}

theorem keeps_ask (hstore : h.store = store) {job : Job} (works : p.works = true)
    (loose : job.IsLoose) (issued : job.counts = true → issues p.mode job)
    (home : Place → Prop) (here : home p) (there : home (if p = .begun then .batch else p)) :
    (h.ask job).Keeps (Place.AdmitsFrom issues .transaction) store home p
      fun _ q => q = if p = .begun then .batch else p := by
  subst hstore
  have inside : p ≠ .outside := by
    rintro rfl
    cases works
  refine .ask ⟨Place.admits_perform works loose issued, fun _ => ⟨inside, nofun⟩⟩ (fun _ => here)
    fun reply _ => ?_
  rw [Place.after_of_loose loose]
  exact ⟨rfl, fun _ => there⟩

def passed (h : Handle) (refused : Failure → α) (s : Script α) : Reply → Script α
  | .error f => return refused f
  | .ok _ => do
    let a ← s.guarded [h.request .release]
    Script.surely (h.request .release)
    return a

theorem gated_eq (h : Handle) (refused : Failure → α) (s : Script α) :
    h.gated refused s = Script.ask (h.request .acquire) >>= h.passed refused s :=
  rfl

theorem transaction_outside {ε : Type} (outside : h.mode = .autocommit)
    (body : Handle → Script (Except ε α)) :
    h.transaction body = .step (h.request .acquire) [] (h.passed .refused (h.bracket body)) := by
  rw [Handle.transaction, Handle.passing, outside]
  rfl

/-- A script behind the gate. -/
theorem keeps_gated (hstore : h.store = store) (refused : Failure → α) {s : Script α}
    (held : s.Keeps (Place.AdmitsFrom issues .transaction) store (· = .held) .held
      fun _ q => q = .held) :
    (h.gated refused s).Keeps (Place.AdmitsPassing issues) store (· = .outside) .outside
      fun _ q => q = .outside := by
  subst hstore
  have acquire : (Script.ask (h.request .acquire)).Keeps (Place.AdmitsPassing issues) h.store
      (· = .outside) .outside fun reply q => q = if reply.isOk then .held else .outside :=
    .ask ⟨.inl rfl, fun _ => rfl⟩ (fun _ => rfl) fun reply _ => ⟨rfl, nofun⟩
  refine .bind acquire fun reply q hq => ?_
  cases reply with
  | error f => exact hq
  | ok a =>
    cases hq
    have inner := held.mono (fun _ _ => Place.AdmitsFrom.passing) fun _ _ => id
    refine .bind (inner.guarded fun q hq => ?_) fun a q hq => ?_
    · cases hq
      exact .release (.nil rfl)
    · cases hq
      have release : (Script.surely (h.request .release)).Keeps (Place.AdmitsPassing issues)
          h.store (· = .outside) .held fun _ q => q = .outside :=
        .surely ⟨rfl, nofun⟩ rfl fun _ _ => rfl
      exact .bind release fun _ q hq => hq

theorem keeps_gated_busy (hstore : h.store = store) (refused : Failure → α) (s : Script α) :
    (h.gated refused s).Keeps (Place.AdmitsFrom issues .transaction) store (· = .body) .body
      fun _ q => q = .body := by
  subst hstore
  have acquire : (Script.ask (h.request .acquire)).Keeps (Place.AdmitsFrom issues .transaction)
      h.store (· = .body) .body fun reply q => reply.isOk = false ∧ q = .body := by
    refine .ask ⟨.inr rfl, fun _ => ⟨by simp, by simp⟩⟩ (fun _ => rfl) fun reply gives =>
      ⟨?_, False.elim⟩
    cases hreply : reply.isOk with
    | true => exact absurd (gives.mp hreply) (by simp)
    | false => exact ⟨rfl, by simp [Place.after, hreply]⟩
  refine .bind acquire fun reply q hq => ?_
  cases reply with
  | error f => exact hq.2
  | ok a => cases hq.1

theorem keeps_askControl (hstore : h.store = store) {k : Control} (admits : p.AdmitsControl k)
    (inside : p ≠ .outside) (home : Place → Prop) (here : home p)
    (there : ∀ done, (k = .begin → done = false) → home (p.afterControl done k)) :
    (h.ask (.control k)).Keeps (Place.AdmitsFrom issues .transaction) store home p
      fun reply q => (k = .begin → reply.isOk = true → p = .held) ∧
        q = p.afterControl reply.isOk k := by
  subst hstore
  refine .ask ⟨admits, fun _ => ⟨inside, nofun⟩⟩ (fun _ => here) fun reply gives => ?_
  refine ⟨⟨?_, rfl⟩, fun may => there _ ?_⟩
  · rintro rfl
    exact gives
  · rintro rfl
    exact may

theorem keeps_control {k : Control} {home : Place → Prop} {post : Reply → Place → Prop}
    (asked : (h.ask (.control k)).Keeps (Place.AdmitsFrom issues .transaction) store home p post)
    (told : ∀ reply q, post reply q → post (reply.mapError .ofControl) q) :
    (h.control k).Keeps (Place.AdmitsFrom issues .transaction) store home p post :=
  .bind asked told

theorem keeps_each (hstore : h.store = store) {among home : Place → Prop}
    (closed : ∀ q, among q → q.works = true ∧ home q ∧ among (if q = .begun then .batch else q))
    {jobs : List Job} (plain : ∀ job ∈ jobs, job.IsPlain)
    (issued : ∀ q job, among q → issues q.mode job) (there : among p) :
    (h.each jobs).Keeps (Place.AdmitsFrom issues .transaction) store home p
      fun _ q => among q := by
  induction jobs generalizing p with
  | nil => exact there
  | cons job jobs ih =>
    obtain ⟨hjob, hjobs⟩ := List.forall_mem_cons.mp plain
    obtain ⟨works, here, next⟩ := closed p there
    refine .bind (keeps_ask hstore works (.inl hjob) (fun _ => issued p job there) home here
      (closed _ next).2.1) fun reply q hq => ?_
    rw [← hq] at next
    cases reply with
    | error f => exact next
    | ok a => exact .bind (ih hjobs next) fun _ _ => id

theorem keeps_undo (hstore : h.store = store) (undoes : p.AdmitsControl .rollback) :
    (Script.ask h.undo).Keeps (Place.AdmitsFrom issues .transaction) store
      (Place.AdmitsControl · .rollback) p fun _ q => q = .held :=
  (keeps_askControl hstore undoes undoes.1 _ undoes fun _ _ => ⟨nofun, nofun⟩).mono
    (fun _ _ => id) fun _ _ hq => hq.2

theorem remains_undo (hstore : h.store = store) {q : Place} (undoes : q.AdmitsControl .rollback) :
    Remains store (· = .held) q [h.undo] := by
  subst hstore
  exact .undo undoes (.nil rfl)

theorem keeps_begin (hstore : h.store = store) :
    (h.ask (.control .begin)).Keeps (Place.AdmitsFrom issues .transaction) store (· = .held) .held
      fun reply q => q = if reply.isOk then .begun else .held := by
  refine (keeps_askControl (k := .begin) hstore (.inl rfl) nofun (· = .held) rfl
    fun done lost => ?_).mono (fun _ _ => id) fun _ _ hq => hq.2
  rw [lost rfl]
  rfl

theorem keeps_begin_nested (hstore : h.store = store) :
    (h.ask (.control .begin)).Keeps (Place.AdmitsFrom issues .transaction) store (· = .body) .body
      fun reply q => reply.isOk = false ∧ q = .body := by
  refine (keeps_askControl (k := .begin) hstore (.inr rfl) nofun (· = .body) rfl
    fun done lost => ?_).mono (fun _ _ => id) fun reply q hq => ?_
  · rw [lost rfl]
    rfl
  · obtain ⟨held, rfl⟩ := hq
    cases hreply : reply.isOk with
    | true => exact absurd (held rfl hreply) nofun
    | false => exact ⟨rfl, rfl⟩

theorem undoes_after_commit (done : Bool) (admits : p.AdmitsControl .commit) :
    (p.afterControl done .commit).AdmitsControl .rollback := by
  cases done with
  | true => exact ⟨nofun, nofun⟩
  | false => rcases admits with rfl | rfl | rfl <;> exact ⟨nofun, nofun⟩

/-- The end of a transaction whose jobs are done: it is committed, or taken back. -/
theorem keeps_commit (hstore : h.store = store) (admits : p.AdmitsControl .commit) :
    (h.ask (.control .commit)).Keeps (Place.AdmitsFrom issues .transaction) store
      (Place.AdmitsControl · .rollback) p
      fun reply q => q.AdmitsControl .rollback ∧ (reply.isOk = true → q = .held) := by
  have undoes : p.AdmitsControl .rollback := undoes_after_commit false admits
  refine (keeps_askControl hstore admits undoes.1 _ undoes fun done _ =>
    undoes_after_commit done admits).mono (fun _ _ => id) fun reply q hq => ?_
  obtain ⟨-, rfl⟩ := hq
  exact ⟨undoes_after_commit _ admits, fun ok => by rw [ok]; rfl⟩

theorem keeps_wholeBatch (hstore : h.store = store) {jobs : List Job}
    (plain : ∀ job ∈ jobs, job.IsPlain) :
    (h.wholeBatch jobs).Keeps (Place.AdmitsFrom (Place.only .autocommit) .transaction) store
      (· = .held) .held fun _ q => q = .held := by
  have closed : ∀ q : Place, q = .begun ∨ q = .batch → q.works = true ∧
      q.AdmitsControl .rollback ∧ ((if q = .begun then .batch else q) = .begun ∨
        (if q = .begun then .batch else q) = .batch) := by
    rintro q (rfl | rfl) <;> exact ⟨rfl, ⟨nofun, nofun⟩, .inr rfl⟩
  have issued : ∀ (q : Place) (job : Job), q = .begun ∨ q = .batch →
      Place.only .autocommit q.mode job := by
    rintro q job (rfl | rfl) <;> rfl
  refine .bind (keeps_begin hstore) fun reply q hq => ?_
  cases reply with
  | error f => exact hq
  | ok a =>
    cases hq
    refine .guarded ?_ fun q undoes => remains_undo hstore undoes
    refine .bind (keeps_each hstore closed plain issued (.inl rfl)) fun counts q hq => ?_
    have undoes : q.AdmitsControl .rollback := (closed q hq).2.1
    cases counts with
    | error f => exact .bind (keeps_undo hstore undoes) fun _ _ hq => hq
    | ok counts =>
      have admits : q.AdmitsControl .commit := hq.imp_right .inl
      refine .bind (keeps_commit hstore admits) fun reply q hq => ?_
      cases reply with
      | ok a => exact hq.2 rfl
      | error f => exact .bind (keeps_undo hstore hq.1) fun _ _ hq => hq

theorem keeps_divide (hstore : h.store = store) {k : Control}
    (divides : Place.body.AdmitsControl k) (hk : k ≠ .begin) :
    (h.ask (.control k)).Keeps (Place.AdmitsFrom issues .transaction) store (· = .body) .body
      fun _ q => q = .body := by
  have stays : ∀ done, Place.body.afterControl done k = .body := by
    intro done
    cases k with
    | begin => exact absurd rfl hk
    | commit => exact absurd divides (by simp [Place.AdmitsControl])
    | rollback => exact absurd divides (by simp [Place.AdmitsControl])
    | savepoint | release | rollbackTo => rfl
  refine (keeps_askControl hstore divides (by simp) (· = .body) rfl fun done _ => stays done).mono
    (fun _ _ => id) fun reply q hq => ?_
  rw [hq.2, stays]

theorem keeps_partialBatch (hstore : h.store = store) {jobs : List Job}
    (plain : ∀ job ∈ jobs, job.IsPlain) :
    (h.partialBatch jobs).Keeps (Place.AdmitsFrom (Place.only .transaction) .transaction) store
      (· = .body) .body fun _ q => q = .body := by
  have divide : ∀ {k : Control}, Place.body.AdmitsControl k → k ≠ .begin →
      (h.control k).Keeps (Place.AdmitsFrom (Place.only .transaction) .transaction) store
        (· = .body) .body fun _ q => q = .body :=
    fun divides hk => .bind (keeps_divide hstore divides hk) fun _ _ => id
  have closed : ∀ q : Place, q = .body → q.works = true ∧ q = .body ∧
      (if q = .begun then .batch else q) = .body := by
    rintro q rfl
    exact ⟨rfl, rfl, rfl⟩
  have issued : ∀ (q : Place) (job : Job), q = .body → Place.only .transaction q.mode job := by
    rintro q job rfl
    rfl
  refine .bind (divide rfl nofun) fun reply q hq => ?_
  cases hq
  cases reply with
  | error f => rfl
  | ok a =>
    refine .bind (keeps_each hstore closed plain issued rfl) fun counts q hq => ?_
    cases hq
    cases counts with
    | ok counts => exact .bind (divide rfl nofun) fun _ _ => id
    | error f =>
      refine .bind (keeps_divide hstore rfl nofun) fun reply q hq => ?_
      cases hq
      cases reply with
      | error _ => rfl
      | ok _ => exact .bind (keeps_divide hstore rfl nofun) fun _ _ => id

theorem keeps_enter (hstore : h.store = store) :
    (Script.ask (h.request .enter)).Keeps (Place.AdmitsFrom issues .transaction) store
      (Place.AdmitsControl · .rollback) .begun fun _ q => q = .body := by
  subst hstore
  exact .ask ⟨rfl, fun _ => ⟨nofun, nofun⟩⟩ nofun fun _ _ => ⟨rfl, False.elim⟩

theorem keeps_leave (hstore : h.store = store) {home : Place → Prop} :
    (Script.surely (h.request .leave)).Keeps (Place.AdmitsFrom issues .transaction) store
      home .body fun _ q => q = .left := by
  subst hstore
  exact .surely ⟨rfl, fun _ => ⟨nofun, nofun⟩⟩ rfl fun _ _ => rfl

theorem remains_leave (hstore : h.store = store) {q : Place} (hq : q = .body) :
    Remains store (Place.AdmitsControl · .rollback) q [h.request .leave] := by
  subst hstore hq
  exact .leave (.nil ⟨nofun, nofun⟩)

/-- A transaction behind the gate. -/
theorem keeps_bracket (hstore : h.store = store) {body : Handle → Script (Except ε α)}
    (hbody : (body h.inside).Keeps (Place.AdmitsFrom issues .transaction) store (· = .body)
      .body fun _ q => q = .body) :
    (h.bracket body).Keeps (Place.AdmitsFrom issues .transaction) store (· = .held) .held
      fun _ q => q = .held := by
  refine .bind (keeps_control (keeps_begin hstore) fun reply q hq => ?_) fun reply q hq => ?_
  · rwa [Site.isOk_mapError]
  cases reply with
  | error f => exact hq
  | ok a =>
    cases hq
    refine .guarded ?_ fun q undoes => remains_undo hstore undoes
    refine .bind (keeps_enter hstore) fun _ q hq => ?_
    cases hq
    refine .bind (hbody.guarded fun q hq => remains_leave hstore hq) fun result q hq => ?_
    cases hq
    refine .bind (keeps_leave hstore) fun _ q hq => ?_
    cases hq
    cases result with
    | error e => exact .bind (keeps_undo hstore ⟨nofun, nofun⟩) fun _ _ hq => hq
    | ok a =>
      have admits : Place.left.AdmitsControl .commit := .inr (.inr rfl)
      refine .bind (keeps_control (keeps_commit hstore admits) fun reply q hq => ?_)
        fun reply q hq => ?_
      · rwa [Site.isOk_mapError]
      · cases reply with
        | ok a => exact hq.2 rfl
        | error f => exact .bind (keeps_undo hstore hq.1) fun _ _ hq => hq

theorem keeps_bracket_nested (hstore : h.store = store)
    (body : Handle → Script (Except ε α)) :
    (h.bracket body).Keeps (Place.AdmitsFrom issues .transaction) store (· = .body) .body
      fun _ q => q = .body := by
  refine .bind (keeps_control (keeps_begin_nested hstore) fun reply q hq => ?_) fun reply q hq => ?_
  · rwa [Site.isOk_mapError]
  cases reply with
  | error f => exact hq.2
  | ok a => exact absurd hq.1 nofun

end Handle

end Relata
