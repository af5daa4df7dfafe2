import Relata.Proofs.Script.Task

/-! # Results of scripts

What an operation can end with, given what a store replies. A store never reports a fault
of a query, so an operation ends with one only if a check of its own found it.
-/

namespace Relata

def NoFault {α : Type} (result : Except Failure α) : Prop :=
  ∀ f, result ≠ .error (.fault f)

theorem noFault_ok {α : Type} (a : α) : NoFault (.ok a) :=
  nofun

theorem NoFault.error {α β : Type} {e : Failure} (h : NoFault (.error e : Except Failure α)) :
    NoFault (.error e : Except Failure β) :=
  fun f hf => h f (congrArg _ (Except.error.inj hf))

namespace Script

variable {α β : Type}

/-- Whatever it is replied of a kind, a script ends with a result of a kind. -/
def Ends (replied : Reply → Prop) : Script α → (α → Prop) → Prop
  | done a, post => post a
  | step _ _ next, post => ∀ reply, replied reply → Ends replied (next reply) post

namespace Ends

variable {replied : Reply → Prop} {x : Script α} {f : α → Script β} {mid : α → Prop}
  {post : β → Prop}

theorem bind (first : x.Ends replied mid) (rest : ∀ a, mid a → (f a).Ends replied post) :
    (x >>= f).Ends replied post := by
  induction x with
  | done a => exact rest a first
  | step r instead next ih => exact fun reply hreply => ih reply (first reply hreply)

theorem mono {kind : α → Prop} (h : x.Ends replied mid) (himp : ∀ a, mid a → kind a) :
    x.Ends replied kind := by
  induction x with
  | done a => exact himp a h
  | step r instead next ih => exact fun reply hreply => ih reply (h reply hreply)

theorem ask {r : Request} : (Script.ask r).Ends replied replied :=
  fun _ hreply => hreply

theorem surely {r : Request} : (Script.surely r).Ends replied fun _ => True :=
  fun _ _ => trivial

theorem guarded {post : α → Prop} {undo : List Request} (h : x.Ends replied post) :
    (x.guarded undo).Ends replied post := by
  induction x with
  | done a => exact h
  | step r instead next ih => exact fun reply hreply => ih reply (h reply hreply)

end Ends

end Script

theorem Refusal.noFault {α : Type} (r : Refusal) :
    NoFault (.error r.failure : Except Failure α) := by
  intro f h
  have : r.failure ≠ .fault f := by
    rw [Refusal.failure, Report.failure, Report.ofDatabase]
    repeat' split
    all_goals simp
  exact this (Except.error.inj h)

theorem Site.noFault_perform (s : Site) (job : Job) : NoFault (s.perform job).1 := by
  intro f
  have open_ (job : Job) (hj : job ≠ .shut) : (s.perform job).1 ≠ .error (.fault f) := by
    cases h : s.isOpen with
    | false =>
      rw [perform_of_shut h hj]
      simp [shutFailure]
    | true =>
      rw [perform_of_isOpen h hj]
      cases (s.connection.perform job).1 with
      | ok a => simp [Except.mapError]
      | error r => exact Refusal.noFault r f
  cases job with
  | shut => simp [perform]
  | command | raw | define | index | control | probe => exact open_ _ (by simp)

theorem Session.noFault_serve (s : Session) (r : Request) : NoFault (s.serve r).1 := by
  intro f
  obtain ⟨store, action⟩ := r
  cases action with
  | acquire =>
    simp only [serve]
    split <;> simp [busyFailure]
  | perform job => exact s.site.noFault_perform job f
  | release | enter | leave | leaveBehind | tally => simp [serve]

theorem Session.run_ends {α : Type} {x : Script α} {post : α → Prop} (ends : x.Ends NoFault post)
    (s : Session) : post (s.run x).1 := by
  induction x generalizing s with
  | done a => exact ends
  | step r instead next ih => exact ih _ (ends _ (s.noFault_serve r)) _

namespace Op

variable {α β : Type}

/-- An operation that never ends with a fault. -/
def Faultless (x : Op α) : Prop :=
  x.run.Ends NoFault NoFault

/-- An operation that ends with a fault before it asks for anything, or not at all. -/
def ChecksFirst (x : Op α) : Prop :=
  (∃ f, x.run = .done (.error (.fault f))) ∨ Faultless x

variable {x : Op α} {f : α → Op β}

theorem faultless_pure (a : α) : Faultless (pure a : Op α) :=
  noFault_ok a

theorem Faultless.bind (first : Faultless x) (rest : ∀ a, Faultless (f a)) :
    Faultless (x >>= f) := by
  have hbind : (x >>= f).run = x.run >>= ExceptT.bindCont f := rfl
  rw [Faultless, hbind]
  refine Script.Ends.bind first fun result hresult => ?_
  cases result with
  | error e => exact hresult.error
  | ok a => exact rest a

theorem faultless_gated (h : Handle) {inner : Script (Except Failure α)}
    (ends : inner.Ends NoFault NoFault) : (h.gated .error inner).Ends NoFault NoFault := by
  rw [Handle.gated_eq]
  refine .bind .ask fun reply hreply => ?_
  cases reply with
  | error e => exact hreply.error
  | ok a => exact .bind (.guarded ends) fun result hresult => .bind .surely fun _ _ => hresult

theorem faultless_perform (h : Handle) (job : Job) : Faultless (h.perform job) := by
  have asks (inner : Handle) : (inner.ask job).Ends NoFault NoFault := .ask
  rw [Faultless, Handle.perform]
  cases hm : h.mode with
  | autocommit =>
    rw [Handle.run_hold_outside hm]
    exact faultless_gated h (asks _)
  | transaction =>
    rw [Handle.run_hold_inside hm]
    exact asks h

theorem ends_each (h : Handle) (jobs : List Job) : (h.each jobs).Ends NoFault NoFault := by
  induction jobs with
  | nil => exact noFault_ok _
  | cons job jobs ih =>
    refine .bind .ask fun reply hreply => ?_
    cases reply with
    | error e => exact hreply.error
    | ok a =>
      refine .bind ih fun counts hcounts => ?_
      cases counts with
      | error e => exact hcounts.error
      | ok counts => exact noFault_ok _

theorem ends_control (h : Handle) (k : Control) : (h.control k).Ends NoFault NoFault := by
  refine .bind .ask fun reply hreply => ?_
  cases reply with
  | ok a => exact noFault_ok _
  | error e =>
    intro f hf
    have := Except.error.inj hf
    cases e with
    | fault why => exact hreply why rfl
    | _ => simp [Failure.ofControl] at this

theorem ends_undo (h : Handle) {e : Failure} {α : Type}
    (he : NoFault (.error e : Except Failure α)) :
    (Script.ask h.undo >>= fun _ => .done (.error e : Except Failure α)).Ends NoFault NoFault :=
  .bind .ask fun _ _ => he

theorem faultless_batch (h : Handle) (jobs : List Job) : Faultless (h.batch jobs) := by
  rcases Handle.run_batch_cases (h := h) jobs with hx | ⟨-, hx⟩ | ⟨-, hx⟩
  · rw [Faultless, hx]
    exact noFault_ok _
  · rw [Faultless, hx]
    refine faultless_gated h (.bind .ask fun reply hreply => ?_)
    cases reply with
    | error e => exact hreply.error
    | ok a =>
      refine .guarded (.bind (ends_each h jobs) fun counts hcounts => ?_)
      cases counts with
      | error e => exact ends_undo h hcounts
      | ok counts =>
        refine .bind .ask fun reply hreply => ?_
        cases reply with
        | ok a => exact noFault_ok _
        | error e => exact ends_undo h hreply.error
  · rw [Faultless, hx]
    refine .bind (ends_control h _) fun reply hreply => ?_
    cases reply with
    | error e => exact hreply.error
    | ok a =>
      refine .bind (ends_each h jobs) fun counts hcounts => ?_
      cases counts with
      | ok counts =>
        refine .bind (ends_control h _) fun reply hreply => ?_
        cases reply with
        | ok a => exact noFault_ok _
        | error e => exact hreply.error
      | error e =>
        refine .bind .ask fun reply hreply => ?_
        cases reply with
        | error _ => exact hcounts
        | ok _ => exact .bind .ask fun _ _ => hcounts

end Op

end Relata
