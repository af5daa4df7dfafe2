import Relata.Proofs.Model.SingleRow
import Relata.Proofs.Script.Turns
import Relata.Proofs.Transaction

/-! # One at a time

Operations that pass the gate once do all that they do behind it. So however the programs
of several tasks come between each other, every operation has the result, and the store is
left, as if the operations were carried out one at a time, in the order in which they passed
the gate.
-/

namespace Relata

/-- A script that needs no store, or passes the gate once and ends behind it but for what is
made of its result. -/
inductive Script.IsSingle (store : Nat) : {α : Type} → Script α → Prop
  | decided {α : Type} (a : α) : IsSingle store (.done a)
  | gated {α β : Type} {h : Handle} (here : h.store = store) (refused : Failure → α)
      {inner : Script α}
      (held : inner.Keeps (Place.AdmitsFrom (fun _ _ => True) .transaction) store (· = .held)
        .held fun _ q => q = .held) (f : α → β) :
      IsSingle store (h.gated refused inner >>= fun a => .done (f a))

namespace Script.IsSingle

variable {α β : Type} {store : Nat} {h : Handle}

theorem of_gated (here : h.store = store) (refused : Failure → α) {inner : Script α}
    (held : inner.Keeps (Place.AdmitsFrom (fun _ _ => True) .transaction) store (· = .held)
      .held fun _ q => q = .held) : (h.gated refused inner).IsSingle store := by
  have same := IsSingle.gated here refused held id
  rwa [show (h.gated refused inner >>= fun a => .done (id a)) = h.gated refused inner from
    Script.bind_pure _] at same

theorem map {x : Script α} (single : x.IsSingle store) (f : α → β) :
    (x >>= fun a => .done (f a)).IsSingle store := by
  cases single with
  | decided a => exact .decided (f a)
  | @gated γ _ h here refused inner held g =>
    have assoc : (h.gated refused inner >>= fun a => .done (g a)) >>= (fun b => .done (f b)) =
        h.gated refused inner >>= fun a => .done (f (g a)) :=
      Script.bind_assoc _ _ _
    rw [assoc]
    exact .gated here refused held fun a => f (g a)

theorem op_map {x : Op α} (single : x.run.IsSingle store) (f : α → β) :
    (x >>= fun a => pure (f a)).run.IsSingle store := by
  have mapped := single.map fun result => result.map f
  have same : (x >>= fun a => pure (f a)).run =
      x.run >>= fun result => .done (result.map f) := by
    have hbind : (x >>= fun a => pure (f a)).run =
        x.run >>= ExceptT.bindCont fun a => pure (f a) := rfl
    rw [hbind]
    congr 1
    funext result
    cases result <;> rfl
  rwa [same]

theorem check {e : Except Fault α} {f : α → Op β}
    (rest : ∀ a, e = .ok a → (f a).run.IsSingle store) :
    (liftM e >>= f : Op β).run.IsSingle store := by
  cases e with
  | error fault => exact .decided _
  | ok a => exact rest a rfl

theorem hold (here : h.store = store) (outside : h.mode = .autocommit) {x : Handle → Op α}
    (held : h.inside.Asks Job.IsPlain (x h.inside)) : (h.hold x).run.IsSingle store := by
  rw [Handle.run_hold_outside outside]
  have keeps := held.keeps (p := .held) here rfl (.inl rfl)
  exact .of_gated here .error (keeps.mono (fun _ _ allowed => allowed.mono fun _ _ => trivial)
    fun _ _ => id)

theorem perform (here : h.store = store) (outside : h.mode = .autocommit) {job : Job}
    (plain : job.IsPlain) : (h.perform job).run.IsSingle store :=
  .hold here outside (.perform (h := h.inside) plain)

theorem batch (here : h.store = store) (outside : h.mode = .autocommit) {jobs : List Job}
    (plain : ∀ job ∈ jobs, job.IsPlain) : (h.batch jobs).run.IsSingle store := by
  rcases Handle.run_batch_cases (h := h) jobs with hx | ⟨-, hx⟩ | ⟨inside, -⟩
  · rw [hx]
    exact .decided _
  · rw [hx]
    exact .of_gated here .error ((Handle.keeps_wholeBatch here plain).mono
      (fun _ _ allowed => allowed.mono fun _ _ => trivial) fun _ _ => id)
  · rw [outside] at inside
    cases inside

theorem transaction {ε : Type} (here : h.store = store) (outside : h.mode = .autocommit)
    {body : Handle → Script (Except ε α)}
    (hbody : (body h.inside).IsTask store (fun _ _ => True) .transaction) :
    (h.transaction body).IsSingle store := by
  rw [Handle.transaction, Handle.passing, outside]
  exact .of_gated here _ (Handle.keeps_bracket here hbody.keeps)

/-- A single script keeps to the places of its store, and does nothing before the gate but
to pass it. -/
theorem keeps {x : Script α} (single : x.IsSingle store) :
    x.Keeps (Place.AdmitsPassing fun _ _ => True) store (· = .outside) .outside
      fun _ q => q = .outside := by
  cases single with
  | decided a => rfl
  | gated here refused held f =>
    exact .bind (Handle.keeps_gated here refused held) fun _ _ hq => hq

/-- The turn of a script that passes the gate once: what it does behind the gate. -/
theorem run_turn_gated {γ : Type} (here : h.store = store) (refused : Failure → α)
    {inner : Script α}
    (held : inner.Keeps (Place.AdmitsFrom (fun _ _ => True) .transaction) store (· = .held)
      .held fun _ q => q = .held) {s : Session} (stands : s.Stands .outside)
    (k : α → Script γ) :
    s.run (h.gated refused inner >>= k).turn =
        (k ({ s with holds := true }.run inner).1,
          { ({ s with holds := true }.run inner).2 with holds := false }) ∧
      ({ s with holds := true }.run inner).2.site.Suits .outside := by
  subst here
  have passed : Session.Stands { s with holds := true } .held :=
    ⟨stands.behind, stands.bodies, stands.suits.congr rfl⟩
  have rest : s.run (h.gated refused inner >>= k).turn =
      (s.serve ⟨h.store, .acquire⟩).2.run
        (h.passed refused inner (s.serve ⟨h.store, .acquire⟩).1 >>= k).turn := by
    rw [Handle.gated_eq]
    rfl
  have assoc : (h.passed refused inner (.ok {}) >>= k) =
      (inner.guarded [h.request .release]) >>= fun a =>
        .step (h.request .release) [h.request .release] fun _ => k a :=
    Script.bind_assoc _ _ _
  have guarded : (inner.guarded [h.request .release]).Keeps
      (Place.AdmitsFrom (fun _ _ => True) .transaction) h.store (· = .outside) .held
      fun _ q => q = .held := by
    refine held.guarded fun q hq => ?_
    cases hq
    exact .release (.nil rfl)
  obtain ⟨hrun, q, rfl, left⟩ := passed.run_turn_bind guarded
    (k := fun a => Script.step (h.request .release) [h.request .release] fun _ => k a)
  rw [Session.run_guarded] at hrun left
  refine ⟨?_, left.suits.congr rfl⟩
  rw [rest, Session.serve_acquire_outside stands.bodies]
  simp only [assoc, hrun]
  rfl

/-- A single script with something after it has its turn, and the rest is what comes after
its result. -/
theorem run_turn {γ : Type} {x : Script α} (single : x.IsSingle store) {site : Site}
    (suits : site.Suits .outside) (k : α → Script γ) :
    (∃ a, x = .done a) ∨
      (Session.run { site } (x >>= k).turn).1 = k (Session.run { site } x).1 ∧
      (Session.run { site } (x >>= k).turn).2.site = (Session.run { site } x).2.site ∧
      (Session.run { site } x).2.site.Suits .outside := by
  cases single with
  | decided a => exact .inl ⟨a, rfl⟩
  | @gated γ _ h here refused inner held f =>
    right
    have stands := Session.stands_of_suits suits
    have assoc : ((h.gated refused inner >>= fun a => .done (f a)) >>= k) =
        h.gated refused inner >>= fun a => k (f a) :=
      Script.bind_assoc _ _ _
    obtain ⟨hrun, left⟩ := run_turn_gated here refused held stands
      fun a => k (f a)
    rw [assoc, hrun, Session.run_bind, Session.run_gated rfl]
    exact ⟨rfl, rfl, left⟩

end Script.IsSingle

namespace Model

/-- The operations that pass the gate once. Rows that are added one by one are read again
after it, and relations are attached one after another. -/
def Operation.IsSingle {α : Type} : Operation α → Prop
  | .findMany _ => False
  | .findFirst _ => False
  | .findUnique _ => False
  | .create _ _ => False
  | .count _ => True
  | .aggregate _ => True
  | .createMany _ => True
  | .update _ _ => True
  | .updateMany _ _ => True
  | .delete _ => True
  | .deleteMany _ => True
  | .upsert _ _ _ _ => True

variable {m : Model} {store : Nat}

open Script

theorem isSingle_ask {α : Type} {o : Operation α} (here : m.handle.store = store)
    (outside : m.handle.mode = .autocommit) (single : o.IsSingle) :
    (m.ask o).run.IsSingle store := by
  have perform {k : Command} {verb : String} (hk : k.verb? = some verb) :
      (m.perform k).run.IsSingle store :=
    .perform here outside (Option.isSome_of_eq_some hk)
  cases o with
  | findMany | findFirst | findUnique | create => exact single.elim
  | count f =>
    exact .check fun _ _ => .check fun _ _ => .check fun _ hk =>
      .op_map (perform (Command.verb_counting hk)) _
  | aggregate a =>
    exact .check fun _ _ => .check fun _ _ => .check fun _ hk =>
      .op_map (perform (Command.verb_aggregation hk)) _
  | createMany rows =>
    rw [ask, createMany]
    split
    · exact .decided _
    · exact .check fun ks hks => .op_map (.batch here outside (m.isPlain_insertions hks)) _
  | update f data =>
    rw [ask, update_eq]
    split
    · exact .check fun _ _ => .check fun _ _ =>
        .hold here outside ((m.through m.handle.inside).asks_updateHeld f data)
    · exact .decided _
  | updateMany f data =>
    rw [ask, updateMany]
    split
    · exact .check fun _ _ => .check fun _ _ => .check fun _ _ => .check fun _ hk =>
        .op_map (perform (Command.verb_assignment hk)) _
    · exact .decided _
  | delete f =>
    rw [ask, delete_eq]
    exact .check fun _ _ =>
      .hold here outside ((m.through m.handle.inside).asks_deleteHeld f)
  | deleteMany f =>
    exact .check fun _ _ => .check fun _ _ => .check fun _ hk =>
      .op_map (perform (Command.verb_removal hk)) _
  | upsert fresh f create update =>
    rw [ask, upsert_eq]
    exact .hold here outside
      ((m.through m.handle.inside).asks_upsertHeld rfl fresh f create update)

end Model

/-- What a task wants of a store at a time, by what it gets: a model is asked, a statement in
the words of the caller is carried out, or a transaction is run with its body. -/
inductive Errand : Type → Type 1
  | ask {α : Type} (m : Model) (o : Model.Operation α) : Errand (Except Failure α)
  | query (c : Client) (sql : String) (values : List Value) :
      Errand (Except Failure (List Record))
  | execute (c : Client) (sql : String) (values : List Value) : Errand (Except Failure Nat)
  | transaction {ε α : Type} (c : Client) (body : Client → Script (Except ε α)) :
      Errand (Ending ε α)

namespace Errand

variable {α : Type} {store : Nat}

def script {α : Type} : Errand α → Script α
  | ask m o => (m.ask o).run
  | query c sql values => (c.query sql values).run
  | execute c sql values => (c.execute sql values).run
  | transaction c body => c.transaction body

/-- An errand of an autocommit client of a store. A statement of the caller's is one on data;
the body of a transaction is a program inside of transactions. -/
def Fits (store : Nat) {α : Type} : Errand α → Prop
  | ask m o => m.handle = ⟨store, .autocommit⟩ ∧ o.IsSingle
  | query c sql values =>
    c.handle = ⟨store, .autocommit⟩ ∧
      ∀ s, Statement.raw sql values = .ok s → (Job.raw s).IsPlain
  | execute c sql values =>
    c.handle = ⟨store, .autocommit⟩ ∧
      ∀ s, Statement.raw sql values = .ok s → (Job.raw s).IsPlain
  | transaction c body =>
    c.handle = ⟨store, .autocommit⟩ ∧
      (body c.inside).IsTask store (fun _ _ => True) .transaction

theorem Fits.isSingle {e : Errand α} (fits : e.Fits store) : e.script.IsSingle store := by
  cases e with
  | ask m o =>
    obtain ⟨handle, single⟩ := fits
    exact Model.isSingle_ask (by rw [handle]) (by rw [handle]) single
  | query c sql values =>
    obtain ⟨handle, plain⟩ := fits
    exact .check fun s hs =>
      .op_map (.perform (by rw [handle]) (by rw [handle]) (plain s hs)) _
  | execute c sql values =>
    obtain ⟨handle, plain⟩ := fits
    exact .check fun s hs =>
      .op_map (.perform (by rw [handle]) (by rw [handle]) (plain s hs)) _
  | transaction c body =>
    obtain ⟨handle, inner⟩ := fits
    exact .transaction (by rw [handle]) (by rw [handle]) inner

end Errand

/-- The program of a task: one errand after another, where the results of the earlier ones
decide what the later ones are. -/
inductive Program (α : Type) : Type 1
  | done (a : α)
  | next {β : Type} (e : Errand β) (rest : β → Program α)

namespace Program

variable {α : Type} {store : Nat}

def script : Program α → Script (Option α)
  | done a => .done (some a)
  | next e rest => e.script >>= fun b => (rest b).script

def Fits (store : Nat) : Program α → Prop
  | done _ => True
  | next e rest => e.Fits store ∧ ∀ b, (rest b).Fits store

/-- The program from its first errand on that needs a store. -/
def settled : Program α → Program α
  | done a => done a
  | next e rest =>
    match e.script with
    | .done b => (rest b).settled
    | .step .. => next e rest

theorem script_settled (p : Program α) : p.settled.script = p.script := by
  induction p with
  | done a => rfl
  | next e rest ih =>
    rw [settled, script]
    split
    · next b hb =>
      rw [ih, hb]
      rfl
    · rfl

theorem Fits.settled {p : Program α} (fits : p.Fits store) : p.settled.Fits store := by
  induction p with
  | done a => trivial
  | next e rest ih =>
    rw [Program.settled]
    split
    · next b _ => exact ih b (fits.2 b)
    · exact fits

theorem settled_next {p : Program α} {β : Type} {e : Errand β} {rest : β → Program α}
    (h : p.settled = next e rest) (b : β) : e.script ≠ .done b := by
  induction p with
  | done a => cases h
  | next e' rest' ih =>
    rw [settled] at h
    split at h
    · exact ih _ h
    · next hstep =>
      cases h
      rw [hstep]
      nofun

theorem settled_of_script {p : Program α} {a : α} (h : p.script = .done (some a)) :
    p.settled = done a := by
  induction p with
  | done b =>
    cases h
    rfl
  | next e rest ih =>
    rw [settled]
    rw [script] at h
    cases he : e.script with
    | done b =>
      rw [he] at h
      exact ih b h
    | step r instead next =>
      rw [he] at h
      cases h

theorem Fits.keeps {p : Program α} (fits : p.Fits store) :
    p.script.Keeps (Place.AdmitsPassing fun _ _ => True) store (· = .outside) .outside
      fun _ q => q = .outside := by
  induction p with
  | done a => rfl
  | next e rest ih =>
    refine .bind fits.1.isSingle.keeps fun b q hq => ?_
    cases hq
    exact ih b (fits.2 b)

end Program

/-- What the programs of tasks come to one errand at a time. -/
structure Serial (α : Type) where
  site : Site
  programs : Nat → Program α

namespace Serial

variable {α : Type} {store : Nat}

/-- The next errand of a task that needs the store, from its beginning to its end. -/
def turn (c : Serial α) (t : Nat) : Serial α :=
  match (c.programs t).settled with
  | .done _ => c
  | .next e rest =>
    let (b, s) := Session.run { site := c.site } e.script
    { site := s.site, programs := fun t' => if t' = t then rest b else c.programs t' }

def turns (c : Serial α) (ts : List Nat) : Serial α :=
  ts.foldl turn c

def course (c : Serial α) : Course α where
  site := c.site
  scripts t := (c.programs t).script

/-- The programs fit their store, and no transaction is open. -/
structure Fits (store : Nat) (c : Serial α) : Prop where
  programs : ∀ t, (c.programs t).Fits store
  suits : c.site.Suits .outside

/-- An errand is the turn of its task. -/
theorem Fits.turn {c : Serial α} (fits : c.Fits store) (t : Nat) :
    (c.turn t).Fits store ∧ (c.turn t).course = c.course.turn t := by
  have scripts : c.course.scripts t = (c.programs t).settled.script :=
    (c.programs t).script_settled.symm
  have hfits := (fits.programs t).settled
  rw [Serial.turn, Course.turn, scripts]
  cases hs : (c.programs t).settled with
  | done a =>
    refine ⟨fits, ?_⟩
    have stays : World.replace c.course.scripts t (.done (some a)) = c.course.scripts := by
      refine World.replace_eq_self ?_
      rw [scripts, hs]
      rfl
    show c.course = ⟨c.site, World.replace c.course.scripts t (.done (some a))⟩
    rw [stays]
    rfl
  | next e rest =>
    rw [hs] at hfits
    obtain ⟨he, hrest⟩ := hfits
    rcases he.isSingle.run_turn fits.suits (fun b => (rest b).script) with
      ⟨b, hb⟩ | ⟨hscript, hsite, suits⟩
    · exact absurd hb (Program.settled_next hs b)
    · refine ⟨⟨fun t' => ?_, suits⟩, ?_⟩
      · show (if t' = t then _ else c.programs t').Fits store
        split
        · exact hrest _
        · exact fits.programs t'
      · have same : (fun t' => (if t' = t then rest (Session.run { site := c.site } e.script).1
            else c.programs t').script) = World.replace c.course.scripts t
              (Session.run { site := c.site }
                (e.script >>= fun b => (rest b).script).turn).1 := by
          rw [hscript]
          funext t'
          by_cases ht : t' = t
          · subst ht
            rw [if_pos rfl, World.replace_self]
          · rw [if_neg ht, World.replace_of_ne ht]
            rfl
        exact congrArg₂ Course.mk hsite.symm same

theorem Fits.turns {c : Serial α} (fits : c.Fits store) (ts : List Nat) :
    (c.turns ts).course = c.course.turns ts := by
  induction ts generalizing c with
  | nil => rfl
  | cons t ts ih =>
    obtain ⟨fits, same⟩ := fits.turn t
    exact (ih fits).trans (congrArg (Course.turns · ts) same)

end Serial

namespace World

variable {α : Type} {store : Nat} {programs : Nat → Program α} {u w : World α} {es : List Event}

/-- No update is lost. The programs of any number of tasks consist of errands that pass the
gate of a store once, and nobody gives up. Then whatever the order of their steps, they come
to what they come to one errand at a time, in the order in which they passed the gate: when
the gate is free, the store is the same and so is what is left of every program, which depends
on all of its results so far; a program that has ended has the same result; and when all have
ended, the gate is free. While a task is behind the gate, no other makes a step, so what it
has found there is as it was when it writes. -/
theorem serializable (fits : ∀ t, (programs t).Fits store) (initial : u.Initial)
    (begins : ∀ t, (u.tasks t).script = (programs t).script) (trace : Trace u es w)
    (answered : ∀ e ∈ es, e.IsAnswered) :
    (w.holders store = none →
      w.sites store = (Serial.turns ⟨u.sites store, programs⟩ (Event.passing es)).site ∧
      ∀ t, (w.tasks t).script =
        ((Serial.turns ⟨u.sites store, programs⟩ (Event.passing es)).programs t).script) ∧
    (∀ t a, (w.tasks t).script = .done (some a) →
      ((Serial.turns ⟨u.sites store, programs⟩ (Event.passing es)).programs t).settled =
        .done a) ∧
    ((∀ t, ∃ a, (w.tasks t).script = .done (some a)) → w.holders store = none) ∧
    ∀ t e v, w.holders store = some t → Move w e v → e.IsAnswered → e.task = t := by
  have sound : Sound store (fun _ => .outside) u := .of_initial initial
  have orderly : Orderly passingOnly store (fun _ => .outside) u :=
    ⟨sound, fun t => by
      rw [begins t]
      exact (fits t).keeps⟩
  have serial : Serial.Fits store ⟨u.sites store, programs⟩ :=
    ⟨fits, sound.free (initial.free store)⟩
  have course : Serial.course ⟨u.sites store, programs⟩ =
      ⟨u.sites store, fun t => (u.tasks t).script⟩ :=
    congrArg (Course.mk _) (funext fun t => (begins t).symm)
  have aligned := aligned orderly trace answered
  rw [← course, ← serial.turns] at aligned
  have now := orderly.trace (fun _ => Place.lawful_admitsPassing _) trace fun e he =>
    (answered e he).recovers
  have ended {t : Nat} {a : α} (hdone : (w.tasks t).script = .done (some a)) :
      Event.places es t = .outside := by
    have keeps := now.keeps t
    rw [hdone] at keeps
    exact keeps
  refine ⟨fun free => ⟨aligned.free free, fun t => ?_⟩, fun t a hdone => ?_, fun hdone => ?_,
    fun t e v holds move hanswered => ?_⟩
  · exact aligned.outside t (now.free_iff.mp free t)
  · refine Program.settled_of_script ?_
    rw [← hdone, aligned.outside t (ended hdone)]
    rfl
  · refine now.free_iff.mpr fun t => ?_
    obtain ⟨a, ha⟩ := hdone t
    exact ended ha
  · by_contra ne
    have inside := (now.holder t).mp holds
    have outside := now.outside_of_ne inside ne
    have asks := now.keeps e.task
    obtain ⟨reply, hreply⟩ := hanswered
    cases move with
    | @answered v t' r instead next reply doing served =>
      obtain ⟨s, action⟩ := r
      rw [doing] at asks
      obtain ⟨⟨rfl, allowed⟩, -, -⟩ := asks
      obtain ⟨-, free, -⟩ := now.free_of_serve outside allowed served
      rw [free] at holds
      cases holds
    | withdrawn => cases hreply
    | lost => cases hreply

section

open Model

def rewriteOrder (status next : String) : Errand (Except Failure Record) :=
  .ask declaredOrders (.upsert "o3" (withStatus status) [] [("status", .text next)])

def orderPrograms : Nat → Program (Except Failure Record)
  | 0 => .next (rewriteOrder "A" "B") fun _ => .next (rewriteOrder "A" "B") .done
  | 1 => .next (rewriteOrder "B" "A") .done
  | _ => .done (.ok [])

def rewritingWorld : World (Except Failure Record) where
  sites _ := orderStore.site
  holders _ := none
  tasks t := { script := (orderPrograms t).script }

theorem fits_orderPrograms : ∀ t, (orderPrograms t).Fits 0
  | 0 => ⟨⟨rfl, trivial⟩, fun _ => ⟨⟨rfl, trivial⟩, fun _ => trivial⟩⟩
  | 1 => ⟨⟨rfl, trivial⟩, fun _ => trivial⟩
  | _ + 2 => trivial

/-- The second task has its turn between the two turns of the first one. -/
theorem serializable_orders :
    ∃ es w, Trace rewritingWorld es w ∧ Event.passing es = [0, 1, 0] ∧
      w.sites 0 = (Serial.turns ⟨orderStore.site, orderPrograms⟩ [0, 1, 0]).site ∧
      ∀ t, (w.tasks t).script =
        ((Serial.turns ⟨orderStore.site, orderPrograms⟩ [0, 1, 0]).programs t).script := by
  have initial : rewritingWorld.Initial := ⟨fun _ => rfl, fun _ => rfl, fun _ => rfl⟩
  have sound : Sound 0 (fun _ => .outside) rewritingWorld := .of_initial initial
  have orderly : Orderly passingOnly 0 (fun _ => .outside) rewritingWorld :=
    ⟨sound, fun t => (fits_orderPrograms t).keeps⟩
  have serial : Serial.Fits 0 ⟨orderStore.site, orderPrograms⟩ :=
    ⟨fits_orderPrograms, sound.free rfl⟩
  obtain ⟨first, afterFirst⟩ := serial.turn 0
  obtain ⟨-, afterSecond⟩ := first.turn 1
  have going : (Serial.course ⟨orderStore.site, orderPrograms⟩).Going [0, 1, 0] := by
    refine ⟨⟨_, _, _, rfl⟩, ?_⟩
    rw [← afterFirst]
    refine ⟨⟨_, _, _, rfl⟩, ?_⟩
    rw [← afterSecond]
    exact ⟨⟨_, _, _, rfl⟩, trivial⟩
  obtain ⟨es, w, trace, answered, passing, free⟩ := exists_turns orderly going
  obtain ⟨alike, -⟩ := serializable fits_orderPrograms initial (fun _ => rfl) trace answered
  rw [passing] at alike
  exact ⟨es, w, trace, passing, alike free⟩

end

end World

end Relata
