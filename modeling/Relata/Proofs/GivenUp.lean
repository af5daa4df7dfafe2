import Relata.Proofs.Isolation
import Relata.Proofs.Script.Amid

/-! # Transactions that are given up

A task may give up anywhere in a transaction: while it waits for the gate, in the body, or
while a job is being done. What is left of it takes the transaction back before it leaves the
gate, so that whoever passes the gate next finds no transaction there, and the database as it
was before, or as it was committed. Only a beginning that is given up while it is being done
is not taken back.
-/

namespace Relata

namespace Event

def Passes (store : Nat) (e : Event) : Prop :=
  e.request = ⟨store, .acquire⟩ ∧ ∃ a, e.outcome.reply? = some (.ok a)

def Commits (store t : Nat) (e : Event) : Prop :=
  e.task = t ∧ e.request = ⟨store, .perform (.control .commit)⟩ ∧
    ∃ a, e.outcome.reply? = some (.ok a)

def GivesUp (t : Nat) (e : Event) : Prop :=
  e.task = t ∧ ∀ reply, e.outcome ≠ .answered reply

theorem givesUp_lost (t : Nat) (r : Request) (reply : Reply) :
    GivesUp t ⟨t, r, .lost reply⟩ :=
  ⟨rfl, nofun⟩

theorem recovers_answered (t : Nat) (r : Request) (reply : Reply) :
    Recovers ⟨t, r, .answered reply⟩ :=
  nofun

end Event

namespace Place

variable {p : Place} {issues : Mode → Job → Prop} {action : Action} {reply : Reply}

theorem Admits.of_outside (admits : outside.Admits issues action) :
    action = .acquire ∨ action = .tally := by
  cases action with
  | acquire => exact .inl rfl
  | tally => exact .inr rfl
  | release | enter | leave => cases admits
  | perform job => exact absurd rfl admits.inside
  | leaveBehind job => exact admits.elim

theorem body_of_mode (within : p.mode = .transaction) : p = .body := by
  cases p with
  | body => rfl
  | outside | held | begun | batch | left => cases within

/-- Only jobs begin and end transactions. -/
theorem inTransaction_after_of_idle (admits : p.Admits issues action)
    (gives : p.Gives reply action) (idle : ∀ job, action ≠ .perform job) :
    (p.after reply action).inTransaction = p.inTransaction := by
  cases action with
  | acquire =>
    by_cases ok : reply.isOk = true
    · rw [after, if_pos ok, gives.mp ok]
      rfl
    · rw [after, if_neg ok]
  | release | enter | leave =>
    cases admits
    rfl
  | perform job => exact absurd rfl (idle job)
  | leaveBehind job => exact admits.elim
  | tally => rfl

end Place

theorem Remains.arrived {store : Nat} {home : Place → Prop} {p : Place}
    (remains : Remains store home p []) : home p := by
  cases remains with
  | nil arrived => exact arrived

theorem Remains.after {store : Nat} {home : Place → Prop} {p : Place} {r : Request}
    {rest : List Request} (remains : Remains store home p (r :: rest)) (reply : Reply) :
    Remains store home (p.after reply r.action) rest ∧
      ∀ job, r.action = .perform job →
        Remains store home (p.after reply r.action) (r :: rest) := by
  cases remains with
  | leave further | release further => exact ⟨further, nofun⟩
  | undo _ further => exact ⟨further, fun _ _ => .undo ⟨nofun, nofun⟩ further⟩

namespace World

variable {α : Type} {store t : Nat} {u v w : World α} {e : Event} {es : List Event}

theorem Move.sites_of_idle (move : Move w e v) (idle : ∀ job, e.request.action ≠ .perform job)
    (ahead : ∀ job, e.request.action ≠ .leaveBehind job) : v.sites = w.sites := by
  cases move with
  | @answered v t r instead next reply doing served =>
    obtain ⟨s, action⟩ := r
    show v.sites = w.sites
    cases action with
    | acquire =>
      simp only [serve?] at served
      split at served
      · cases served
        rfl
      · split at served
        · cases served
          rfl
        · cases served
    | release | enter | leave | tally =>
      cases served
      rfl
    | perform job => exact absurd rfl (idle job)
    | leaveBehind job => exact absurd rfl (ahead job)
  | withdrawn => rfl
  | @lost v t s job => exact absurd rfl (idle job)

theorem Move.sites_of_unserved (move : Move w e v) (unserved : e.outcome.reply? = none) :
    v.sites = w.sites := by
  cases move with
  | withdrawn => rfl
  | answered | lost => cases unserved

theorem Move.performs {job : Job} {outcome : Outcome} {reply : Reply}
    (move : Move w ⟨t, ⟨store, .perform job⟩, outcome⟩ v) (served : outcome.reply? = some reply) :
    reply = ((w.sites store).perform job).1 ∧ v.sites store = ((w.sites store).perform job).2 := by
  cases move with
  | withdrawn => cases served
  | answered _ done | lost _ done =>
    cases served
    rw [Sound.serve?_perform] at done
    obtain ⟨rfl, rfl⟩ := Prod.mk.inj (Option.some.inj done)
    exact ⟨rfl, replace_self ..⟩

end World

/-- A script on its way through a transaction: it is before the gate again, or else the jobs on
data that it asks for up to then come through the handles of the transaction. -/
def Script.Underway {α : Type} (store : Nat) (p : Place) (s : Script α) : Prop :=
  p = .outside ∨ ∃ (β : Type) (x : Script β) (k : β → Script α), s = x >>= k ∧
    x.Keeps (Place.AdmitsPassing (Place.only .transaction)) store (· = .outside) p
      fun _ q => q = .outside

namespace Script

variable {α : Type} {store : Nat} {p : Place}

theorem underway_givenUp {rest : List Request} (remains : Remains store (· = .outside) p rest) :
    (World.givenUp rest : Script (Option α)).Underway store p :=
  .inr ⟨_, _, .done, (bind_pure _).symm, remains.keeps (Place.lawful_admitsPassing _)⟩

theorem Underway.asks {r : Request} {instead : List Request} {next : Reply → Script α}
    (underway : (step r instead next).Underway store p) (inside : p ≠ .outside) :
    p.Admits (Place.only .transaction) r.action ∧
    (World.waits r.action = true → Remains store (· = .outside) p instead) ∧
    ∀ reply, p.Gives reply r.action →
      (next reply).Underway store (p.after reply r.action) ∧
      (r.action.MayBeLost reply →
        Remains store (· = .outside) (p.after reply r.action) instead) := by
  rcases underway with outside | ⟨β, x, k, hs, keeps⟩
  · exact absurd outside inside
  cases x with
  | done a => exact absurd keeps inside
  | step r' instead' next' =>
    cases hs
    obtain ⟨⟨-, admits, -⟩, waits, replied⟩ := keeps
    refine ⟨admits, waits, fun reply gives => ?_⟩
    obtain ⟨keeps, lost⟩ := replied reply gives
    exact ⟨.inr ⟨β, _, k, rfl, keeps⟩, lost⟩

end Script

namespace World

variable {α : Type} {store t : Nat} {issues : Nat → Mode → Job → Prop} {kept : Database}
  {u v w : World α} {e : Event} {es since : List Event}

theorem Move.underway {p : Place} (move : Move w e v)
    (underway : (w.tasks e.task).script.Underway store p) (inside : p ≠ .outside)
    (gives : ∀ reply, e.outcome.reply? = some reply → p.Gives reply e.request.action)
    (recovers : e.Recovers) :
    p.Admits (Place.only .transaction) e.request.action ∧
      (v.tasks e.task).script.Underway store (e.after p) := by
  cases move with
  | answered doing _ =>
    rw [doing] at underway
    obtain ⟨admits, -, replied⟩ := underway.asks inside
    rw [script_setScript_self]
    exact ⟨admits, (replied _ (gives _ rfl)).1⟩
  | withdrawn doing waiting =>
    rw [doing] at underway
    obtain ⟨admits, waits, -⟩ := underway.asks inside
    rw [script_setScript_self]
    exact ⟨admits, Script.underway_givenUp (waits waiting)⟩
  | lost doing _ =>
    rw [doing] at underway
    obtain ⟨admits, -, replied⟩ := underway.asks inside
    rw [script_setScript_self]
    exact ⟨admits, Script.underway_givenUp ((replied _ (gives _ rfl)).2 (recovers _ rfl))⟩

/-- A step in a transaction takes the store to where its place says; only a commit makes what
was done last. -/
theorem Move.stands {p : Place} {action : Action} {outcome : Outcome}
    (move : Move w ⟨t, ⟨store, action⟩, outcome⟩ v)
    (admits : p.Admits (Place.only .transaction) action)
    (gives : ∀ reply, outcome.reply? = some reply → p.Gives reply action)
    (stands : (w.sites store).Stands p kept) :
    ∃ db, (v.sites store).Stands (Event.after ⟨t, ⟨store, action⟩, outcome⟩ p) db ∧
      (db = kept ∨ Event.Commits store t ⟨t, ⟨store, action⟩, outcome⟩ ∧
        db = (w.sites store).connection.database) := by
  rw [Event.after]
  cases served : outcome.reply? with
  | none =>
    rw [move.sites_of_unserved served]
    exact ⟨kept, stands, .inl rfl⟩
  | some reply =>
    have replied := gives reply served
    cases action with
    | perform job =>
      obtain ⟨rfl, hsite⟩ := move.performs served
      obtain ⟨-, db, after, lasts⟩ := stands.perform admits
      rw [hsite]
      refine ⟨db, after, ?_⟩
      rcases lasts with same | ⟨rfl, ok, hdb⟩ | ⟨counts, apart⟩
      · exact .inl same
      · cases hreply : ((w.sites store).perform (.control .commit)).1 with
        | ok a => exact .inr ⟨⟨rfl, rfl, a, served.trans (congrArg some hreply)⟩, hdb⟩
        | error f =>
          rw [hreply] at ok
          cases ok
      · rw [Place.body_of_mode (admits.counts counts).2] at apart
        cases apart
    | leaveBehind job => exact admits.elim
    | acquire | release | enter | leave | tally =>
      rw [move.sites_of_idle (by simp) (by simp)]
      refine ⟨kept, stands.congr (Place.inTransaction_after_of_idle admits replied ?_), .inl rfl⟩
      simp

/-- A task is on its way through a transaction, no other task is behind the gate, and without
the transaction there is a given database. -/
structure Attended (store t : Nat) (kept : Database) (places : Nat → Place) (w : World α) :
    Prop where
  alone : ∀ t', t' ≠ t → places t' = .outside
  underway : (w.tasks t).script.Underway store (places t)
  stands : (w.sites store).Stands (places t) kept

theorem Attended.skip (attended : Attended store t kept (Event.places es) w)
    (move : Move w e v) (here : e.request.store = store)
    (outside : Event.places es e.task = .outside)
    (admits : Place.outside.Admits (issues e.task) e.request.action)
    (passes : ¬ e.Passes store) : Attended store t kept (Event.places (es ++ [e])) v := by
  obtain ⟨task, ⟨s, action⟩, outcome⟩ := e
  cases here
  have idle : (∀ job, action ≠ .perform job) ∧ ∀ job, action ≠ .leaveBehind job := by
    rcases admits.of_outside with rfl | rfl <;> exact ⟨nofun, nofun⟩
  have stays : Event.after ⟨task, ⟨s, action⟩, outcome⟩ .outside = .outside := by
    rw [Event.after]
    cases served : outcome.reply? with
    | none => rfl
    | some reply =>
      rcases admits.of_outside with rfl | rfl
      · cases reply with
        | ok a => exact absurd ⟨rfl, a, served⟩ passes
        | error f => rfl
      · rfl
  have places : Event.places (es ++ [⟨task, ⟨s, action⟩, outcome⟩]) = Event.places es := by
    rw [Event.places_append, Event.move]
    exact replace_eq_self (outside.trans (by rw [outside, stays]))
  rw [places]
  refine ⟨attended.alone, ?_, ?_⟩
  · by_cases own : t = task
    · subst own
      exact .inl outside
    · rw [move.tasks_of_ne own]
      exact attended.underway
  · rw [move.sites_of_idle idle.1 idle.2]
    exact attended.stands

/-- A step while nobody else passes the gate: only a commit makes what was done last. -/
theorem Attended.move (attended : Attended store t kept (Event.places es) w)
    (regular : IssuesOrderly store issues es w) (move : Move w e v) (recovers : e.Recovers)
    (passes : ¬ e.Passes store) :
    ∃ db, Attended store t db (Event.places (es ++ [e])) v ∧
      (db = kept ∨ e.Commits store t ∧ db = (w.sites store).connection.database) := by
  obtain ⟨here, allowed, gives⟩ := regular.asks (fun t => Place.lawful_admitsFrom (issues t)) move
  by_cases inside : Event.places es e.task = .outside
  · have admits := allowed.1
    rw [inside] at admits
    exact ⟨kept, attended.skip move here inside admits passes, .inl rfl⟩
  have own : e.task = t := by
    by_contra other
    exact inside (attended.alone _ other)
  obtain ⟨task, ⟨s, action⟩, outcome⟩ := e
  cases here
  cases own
  obtain ⟨admits, underway⟩ := move.underway attended.underway inside gives recovers
  obtain ⟨db, stands, lasts⟩ := move.stands admits gives attended.stands
  rw [Event.places_append, Event.move]
  refine ⟨db, ⟨fun t' other => ?_, ?_, ?_⟩, lasts⟩
  · exact (replace_of_ne other).trans (attended.alone t' other)
  · rwa [replace_self]
  · rwa [replace_self]

/-- Nobody else passes the gate while a task goes through a transaction: what was done lasts
only if it was committed. -/
theorem Attended.trace (prepared : Prepared store issues u) (earlier : Trace u es v)
    (attended : Attended store t kept (Event.places es) v) (later : Trace v since w)
    (recovers : ∀ e ∈ es ++ since, e.Recovers) (alone : ∀ e ∈ since, ¬ e.Passes store) :
    ∃ db, Attended store t db (Event.places (es ++ since)) w ∧
      (db = kept ∨ ∃ mid c rest x y, since = mid ++ c :: rest ∧ Happens v mid x c y rest w ∧
        c.Commits store t ∧ db = (x.sites store).connection.database) := by
  induction later with
  | nil =>
    rw [List.append_nil]
    exact ⟨kept, attended, .inl rfl⟩
  | @snoc since e x w before last ih =>
    rw [← List.append_assoc] at recovers ⊢
    obtain ⟨hrecovers, he⟩ := forall_mem_snoc.mp recovers
    obtain ⟨halone, passes⟩ := forall_mem_snoc.mp alone
    obtain ⟨db, attended, lasts⟩ := ih hrecovers halone
    have regular := prepared.regular (earlier.append before) hrecovers
    obtain ⟨db', attended', same | ⟨commits, hdb⟩⟩ := attended.move regular last he passes
    · refine ⟨db', attended', lasts.imp same.trans ?_⟩
      rintro ⟨mid, c, rest, x, y, rfl, happens, commits, hdb⟩
      refine ⟨mid, c, rest ++ [e], x, y, by simp, ?_, commits, same.trans hdb⟩
      exact ⟨happens.earlier, happens.move, .snoc happens.later last⟩
    · exact ⟨db', attended', .inr ⟨since, e, [], x, w, rfl, ⟨before, last, .nil⟩, commits, hdb⟩⟩

/-- What is left to a task that gave up. -/
def Leaves (store : Nat) (p : Place) (s : Script (Option α)) : Prop :=
  ∃ rest, s = givenUp rest ∧ Remains store (· = .outside) p rest

theorem Move.leaves (move : Move w e v) (regular : IssuesOrderly store issues es w)
    (recovers : e.Recovers) (gives : e.GivesUp t) :
    Leaves store (Event.places (es ++ [e]) t) (v.tasks t).script := by
  obtain ⟨rfl, unanswered⟩ := gives
  have keeps := regular.keeps e.task
  rw [Event.places_append, Event.move, replace_self]
  obtain ⟨-, -, replied⟩ := regular.asks (fun t => Place.lawful_admitsFrom (issues t)) move
  cases move with
  | answered => exact absurd rfl (unanswered _)
  | withdrawn doing waiting =>
    rw [doing] at keeps
    rw [script_setScript_self]
    exact ⟨_, rfl, keeps.2.1 waiting⟩
  | lost doing _ =>
    rw [doing] at keeps
    rw [script_setScript_self]
    exact ⟨_, rfl, (keeps.2.2 _ (replied _ rfl)).2 (recovers _ rfl)⟩

theorem step_of_givenUp {rest instead : List Request} {r : Request}
    {next : Reply → Script (Option α)} (doing : givenUp rest = .step r instead next) :
    ∃ more, rest = r :: more ∧ instead = r :: more ∧ next = fun _ => givenUp more := by
  cases rest with
  | nil => cases doing
  | cons r more =>
    cases doing
    exact ⟨more, rfl, rfl, rfl⟩

theorem Leaves.move (leaves : Leaves store (Event.places es t) (w.tasks t).script)
    (move : Move w e v) : Leaves store (Event.places (es ++ [e]) t) (v.tasks t).script := by
  rw [Event.places_append, Event.move]
  by_cases own : t = e.task
  case neg =>
    rw [replace_of_ne own, move.tasks_of_ne own]
    exact leaves
  subst own
  obtain ⟨rest, given, remains⟩ := leaves
  rw [replace_self]
  cases move with
  | answered doing _ =>
    obtain ⟨more, rfl, -, rfl⟩ := step_of_givenUp (given.symm.trans doing)
    rw [script_setScript_self]
    exact ⟨more, rfl, (remains.after _).1⟩
  | withdrawn doing _ =>
    obtain ⟨more, rfl, rfl, -⟩ := step_of_givenUp (given.symm.trans doing)
    rw [script_setScript_self]
    exact ⟨_, rfl, remains⟩
  | lost doing _ =>
    obtain ⟨more, rfl, rfl, -⟩ := step_of_givenUp (given.symm.trans doing)
    rw [script_setScript_self]
    exact ⟨_, rfl, (remains.after _).2 _ rfl⟩

theorem Leaves.trace (leaves : Leaves store (Event.places es t) (v.tasks t).script)
    (later : Trace v since w) : Leaves store (Event.places (es ++ since) t) (w.tasks t).script := by
  induction later with
  | nil => rwa [List.append_nil]
  | snoc _ last ih =>
    rw [← List.append_assoc]
    exact ih.move last

theorem served_of_remains {home : Place → Prop} {p : Place} {r : Request} {rest : List Request}
    (remains : Remains store home p (r :: rest)) (w : World α) (t : Nat) :
    r.action ≠ .acquire ∧ ∃ reply v, w.serve? t r = some (reply, v) := by
  cases remains with
  | leave | undo | release => exact ⟨nofun, _, _, rfl⟩

/-- A task that gave up leaves the gate by its own steps. -/
theorem Leaves.gate (prepared : Prepared store issues u) (trace : Trace u es w)
    (recovers : ∀ e ∈ es, e.Recovers)
    (alone : ∀ t', t' ≠ t → Event.places es t' = .outside)
    (leaves : Leaves store (Event.places es t) (w.tasks t).script) :
    ∃ fs x, Trace w fs x ∧ (∀ e ∈ fs, e.task = t ∧ ¬ e.Passes store) ∧
      x.holders store = none := by
  obtain ⟨rest, given, remains⟩ := leaves
  induction rest generalizing es w with
  | nil =>
    refine ⟨[], w, .nil, by simp, (prepared.regular trace recovers).free_iff.mpr fun t' => ?_⟩
    by_cases own : t' = t
    · rw [own]
      exact remains.arrived
    · exact alone t' own
  | cons r rest ih =>
    obtain ⟨hr, reply, v, served⟩ := served_of_remains remains w t
    have move : Move w ⟨t, r, .answered reply⟩ (v.setScript t (givenUp rest)) :=
      .answered given served
    have place : Event.places (es ++ [⟨t, r, .answered reply⟩]) t =
        (Event.places es t).after reply r.action := by
      rw [Event.places_append, Event.move, replace_self]
      rfl
    have others : ∀ t', t' ≠ t → Event.places (es ++ [⟨t, r, .answered reply⟩]) t' = .outside := by
      intro t' other
      rw [Event.places_append, Event.move, replace_of_ne other]
      exact alone t' other
    have further := (remains.after reply).1
    rw [← place] at further
    obtain ⟨fs, x, later, own, free⟩ := ih (trace.snoc move)
      (forall_mem_snoc.mpr ⟨recovers, Event.recovers_answered t r reply⟩) others
      (script_setScript_self ..) further
    refine ⟨_, x, .cons move later, List.forall_mem_cons.mpr ⟨⟨rfl, ?_⟩, own⟩, free⟩
    exact fun passes => hr (congrArg Request.action passes.1)

theorem attended_of_passes {β ε : Type} {h : Handle} {body : Handle → Script (Except ε β)}
    {k : Ending ε β → Script (Option α)} {issued : Mode → Job → Prop}
    (prepared : Prepared store issues u) (earlier : Trace u es v) (here : h.store = store)
    (outside : h.mode = .autocommit) (calls : (v.tasks t).script = h.transaction body >>= k)
    (inner : (body h.inside).IsTask store issued .transaction) (first : Move v e w)
    (own : e.task = t) (recovers : ∀ x ∈ es ++ [e], x.Recovers) (passes : e.Passes store) :
    Attended store t (v.sites store).connection.database (Event.places (es ++ [e])) w := by
  have regular := prepared.regular (earlier.snoc first) recovers
  have same := first.sites_of_idle (by simp [passes.1]) (by simp [passes.1])
  have place : Event.places (es ++ [e]) t = .held := by
    obtain ⟨a, ha⟩ := passes.2
    rw [Event.places_append, Event.move, own, replace_self, Event.after, ha, passes.1]
    rfl
  have inside : Event.places (es ++ [e]) t ≠ .outside := by simp [place]
  have suits := regular.held t ((regular.holder t).mpr inside)
  refine ⟨fun t' other => regular.outside_of_ne inside other, ?_, ?_⟩
  · rw [place]
    have keeps : (h.transaction body).Keeps (Place.AdmitsPassing (Place.only .transaction)) store
        (· = .outside) .outside fun _ q => q = .outside :=
      Handle.keeps_transaction here outside (inner.keeps_body rfl fun _ _ => rfl)
    rw [Handle.transaction_outside outside] at calls keeps
    obtain ⟨-, -, replied⟩ := keeps
    obtain ⟨a, ha⟩ := passes.2
    subst own
    cases first with
    | withdrawn => cases ha
    | lost => cases passes.1
    | answered doing _ =>
      cases calls.symm.trans doing
      cases ha
      rw [script_setScript_self]
      exact .inr ⟨_, _, k, rfl, (replied (.ok a) ⟨fun _ => rfl, fun _ => rfl⟩).1⟩
  · rw [place] at suits ⊢
    rw [same] at suits ⊢
    rw [Site.Suits, if_neg (by simp [Place.inTransaction])] at suits
    rw [Site.Stands, if_neg (by simp [Place.inTransaction])]
    exact ⟨suits, rfl⟩

/-- Wherever a transaction with a body is given up, it leaves nothing behind. At the gate the
task does not do anything at all. Once it passed the gate, nobody else does before it left the
gate, which it does by itself if it gives up; and when the gate is free again, no transaction
is open and the database is as it was at first, or as it was when the transaction was
committed. -/
theorem transaction_given_up {β ε : Type} {h : Handle} {body : Handle → Script (Except ε β)}
    {k : Ending ε β → Script (Option α)} {issued : Mode → Job → Prop} {x : World α}
    (prepared : Prepared store issues u) (earlier : Trace u es v) (here : h.store = store)
    (outside : h.mode = .autocommit) (calls : (v.tasks t).script = h.transaction body >>= k)
    (inner : (body h.inside).IsTask store issued .transaction) (first : Move v e w)
    (own : e.task = t) (later : Trace w since x)
    (recovers : ∀ e' ∈ es ++ e :: since, e'.Recovers)
    (alone : ∀ e' ∈ since, ¬ e'.Passes store) :
    (e.outcome = .withdrawn → w = v.setScript t (.done none)) ∧
    (e.Passes store →
      (x.holders store = none →
        (x.sites store).connection.opened = none ∧
        ((x.sites store).connection.database = (v.sites store).connection.database ∨
          ∃ mid c rest y z, since = mid ++ c :: rest ∧ Happens w mid y c z rest x ∧
            c.Commits store t ∧
            (x.sites store).connection.database = (y.sites store).connection.database)) ∧
      ((∃ e' ∈ since, e'.GivesUp t) →
        ∃ fs y, Trace x fs y ∧ (∀ e' ∈ fs, e'.task = t ∧ ¬ e'.Passes store) ∧
          y.holders store = none)) := by
  constructor
  · intro withdrawn
    subst own
    rw [Handle.transaction_outside outside] at calls
    cases first with
    | answered | lost => cases withdrawn
    | withdrawn doing _ =>
      cases calls.symm.trans doing
      rfl
  intro passes
  have trace := earlier.snoc first
  rw [List.append_cons] at recovers
  obtain ⟨hfirst, hsince⟩ := List.forall_mem_append.mp recovers
  have attended := attended_of_passes prepared earlier here outside calls inner first own hfirst
    passes
  obtain ⟨db, attended, lasts⟩ := attended.trace prepared trace later recovers alone
  have regular := prepared.regular (trace.append later) recovers
  constructor
  · intro free
    have stands := attended.stands
    rw [regular.free_iff.mp free t, Site.Stands, if_neg (by simp [Place.inTransaction])] at stands
    obtain ⟨closed, rfl⟩ := stands
    exact ⟨closed, lasts⟩
  · rintro ⟨e', he', gives⟩
    obtain ⟨xs, ys, rfl⟩ := List.append_of_mem he'
    obtain ⟨y, before, rest⟩ := later.of_append
    obtain ⟨z, move, rest⟩ := rest.of_cons
    obtain ⟨hxs, hys⟩ := List.forall_mem_append.mp hsince
    have hbefore := List.forall_mem_append.mpr ⟨hfirst, hxs⟩
    have leaves := move.leaves (prepared.regular (trace.append before) hbefore)
      (hys _ List.mem_cons_self) gives
    have left := leaves.trace rest
    rw [List.append_assoc, List.append_assoc, List.singleton_append] at left
    exact left.gate prepared (trace.append later) recovers attended.alone

/-- A job of a task is done, but the task gave up meanwhile. -/
def lose (w : World α) (t store : Nat) (job : Job) (instead : List Request) : World α :=
  ({ w with sites := replace w.sites store ((w.sites store).perform job).2 }).setScript t
    (givenUp instead)

theorem trace_lose (w : World α) (ts ts' : List Nat) {job : Job} {instead : List Request}
    {next : Reply → Script (Option α)}
    (doing : ((w.follow ts).2.tasks t).script = .step ⟨store, .perform job⟩ instead next) :
    let v := (w.follow ts).2
    let x := v.lose t store job instead
    Trace w ((w.follow ts).1 ++
      ⟨t, ⟨store, .perform job⟩, .lost ((v.sites store).perform job).1⟩ :: (x.follow ts').1)
      (x.follow ts').2 :=
  (trace_follow w ts).append (.cons (.lost doing (Sound.serve?_perform ..)) (trace_follow _ ts'))

def leaving : List Request :=
  [⟨0, .leave⟩, ⟨0, .perform (.control .rollback)⟩, ⟨0, .release⟩]

/-- The first task has begun its transaction, gave up while its order was being added, and left
the gate. -/
def givenUpWorld : World (Except Failure Answer) :=
  (((orderWorld.follow [0, 0, 0]).2.lose 0 0 insertOrder leaving).follow [0, 0, 0]).2

def leavingEvents (job : Job) (a b c d : Reply) : List Event :=
  [⟨0, ⟨0, .perform job⟩, .lost a⟩, ⟨0, ⟨0, .leave⟩, .answered b⟩,
    ⟨0, ⟨0, .perform (.control .rollback)⟩, .answered c⟩, ⟨0, ⟨0, .release⟩, .answered d⟩]

def givenUpEvents (a b c d f g : Reply) : List Event :=
  ⟨0, ⟨0, .perform (.control .begin)⟩, .answered a⟩ :: ⟨0, ⟨0, .enter⟩, .answered b⟩ ::
    leavingEvents insertOrder c d f g

theorem transaction_given_up_order :
    ∃ e since w, Move orderWorld e w ∧ Trace w since givenUpWorld ∧ e.Passes 0 ∧
      (∃ e' ∈ since, e'.Executes 0 insertOrder ∧ e'.GivesUp 0) ∧ givenUpWorld.holders 0 = none ∧
      (givenUpWorld.sites 0).connection.opened = none ∧
      (givenUpWorld.sites 0).connection.database = (orderWorld.sites 0).connection.database := by
  have trace := trace_lose (t := 0) orderWorld [0, 0, 0] [0, 0, 0] rfl
  obtain ⟨w, first, later⟩ := trace.of_cons
  obtain ⟨a, b, c, d, f, g, later⟩ :
      ∃ a b c d f g, Trace w (givenUpEvents a b c d f g) givenUpWorld :=
    ⟨_, _, _, _, _, _, later⟩
  have recovers : ∀ e ∈ [] ++ ⟨0, ⟨0, .acquire⟩, .answered (.ok {})⟩ ::
      givenUpEvents a b c d f g, e.Recovers := by
    simp [givenUpEvents, leavingEvents, Event.Recovers, Action.MayBeLost, insertOrder]
  have alone : ∀ e ∈ givenUpEvents a b c d f g, ¬ e.Passes 0 := by
    simp [givenUpEvents, leavingEvents, Event.Passes]
  have uncommitted : ∀ e ∈ givenUpEvents a b c d f g, ¬ e.Commits 0 0 := by
    simp [givenUpEvents, leavingEvents, Event.Commits, insertOrder]
  have lost : (⟨0, ⟨0, .perform insertOrder⟩, .lost c⟩ : Event) ∈ givenUpEvents a b c d f g := by
    simp [givenUpEvents, leavingEvents]
  have inner : ((Handle.inside {}).perform insertOrder).run.IsTask 0 (orderIssues 0) .transaction :=
    .call rfl id (.asks (.perform rfl)) (Handle.issues_perform (.inl ⟨rfl, rfl, rfl⟩))
  obtain ⟨-, passed⟩ := transaction_given_up prepared_orderWorld .nil rfl rfl rfl inner first rfl
    later recovers alone
  obtain ⟨free, -⟩ := passed ⟨rfl, _, rfl⟩
  obtain ⟨closed, same | ⟨mid, e, rest, _, _, split, -, commits, -⟩⟩ := free rfl
  · exact ⟨_, _, w, first, later, ⟨rfl, _, rfl⟩,
      ⟨_, lost, ⟨rfl, rfl, rfl⟩, Event.givesUp_lost ..⟩, rfl, closed, same⟩
  · exact absurd commits (uncommitted e (split ▸ by simp))

/-- A beginning that is given up while it is being done is not taken back: the gate is free, and
a transaction is open of which no task knows. -/
theorem begun_unknown {β ε : Type} {h : Handle} {body : Handle → Script (Except ε β)}
    {k : Ending ε β → Script (Option α)} (outside : h.mode = .autocommit)
    (calls : (w.tasks t).script = h.transaction body >>= k) (apart : (w.tasks t).bodies = [])
    (free : w.holders h.store = none) (isOpen : (w.sites h.store).isOpen = true)
    (closed : (w.sites h.store).connection.opened = none) :
    ∃ a x, Trace w [⟨t, h.request .acquire, .answered (.ok {})⟩,
        ⟨t, h.request (.perform (.control .begin)), .lost (.ok a)⟩,
        ⟨t, h.request .release, .answered (.ok {})⟩] x ∧
      x.holders h.store = none ∧ (x.sites h.store).connection.IsBegun := by
  rw [Handle.transaction_outside outside] at calls
  have served : w.serve? t (h.request .acquire) =
      some (.ok {}, w.setHolder h.store (some t)) := by
    simp [serve?, Handle.request, apart, free]
  have passes := Move.answered calls served
  have begun : (w.sites h.store).perform (.control .begin) =
      (.ok { count := (w.sites h.store).connection.changes },
        { w.sites h.store with connection := (w.sites h.store).connection.begun }) := by
    rw [Site.perform_control isOpen, Connection.run_control_ok (Connection.control_begin closed)]
    rfl
  generalize hv : (w.setHolder h.store (some t)).setScript t _ = v at passes
  have site : v.sites h.store = w.sites h.store := by rw [← hv]; rfl
  obtain ⟨next, doing⟩ : ∃ next, (v.tasks t).script =
      .step (h.request (.perform (.control .begin))) [h.request .release] next := by
    rw [← hv, script_setScript_self]
    exact ⟨_, rfl⟩
  have lost : Move v ⟨t, h.request (.perform (.control .begin)), .lost _⟩
      (v.lose t h.store (.control .begin) [h.request .release]) :=
    .lost doing (Sound.serve?_perform ..)
  rw [site, begun] at lost
  have leaves : Move (v.lose t h.store (.control .begin) [h.request .release])
      ⟨t, h.request .release, .answered (.ok {})⟩ _ := .answered (script_setScript_self ..) rfl
  refine ⟨_, _, .cons passes (.cons lost (.cons leaves .nil)), replace_self .., ?_⟩
  show Connection.IsBegun (replace v.sites h.store _ h.store).connection
  rw [replace_self, site, begun]
  exact ⟨_, rfl, rfl⟩

/-- What another task does then, outside of transactions, is done in that one, and nobody
commits it. -/
theorem begun_unknown_order :
    orderWorld.Initial ∧ ∃ es x, Trace orderWorld es x ∧ (∃ e ∈ es, e.GivesUp 0) ∧
      (∃ e ∈ es, e.task = 1 ∧ e.Executes 0 removeOrders) ∧
      (x.tasks 0).script = .done none ∧ (x.tasks 1).script = .done (some (.ok {})) ∧
      x.holders 0 = none ∧ (x.sites 0).connection.IsBegun := by
  have trace := trace_lose (t := 0) orderWorld [0] [0, 1, 1, 1, 1, 1, 1] rfl
  refine ⟨prepared_orderWorld.toInitial, _, _, trace, ?_, ?_, rfl, rfl, rfl, _, rfl, rfl⟩
  · exact ⟨_, List.mem_append_right _ List.mem_cons_self, Event.givesUp_lost ..⟩
  · refine ⟨⟨1, ⟨0, .perform removeOrders⟩, .answered (.ok {})⟩, ?_, rfl, rfl, rfl, rfl⟩
    exact List.mem_append_right _ (List.mem_cons_of_mem _ (List.mem_cons_of_mem _
      (List.mem_cons_of_mem _ List.mem_cons_self)))

end World

end Relata
