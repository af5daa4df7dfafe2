import Relata.Proofs.Script.Batch
import Relata.Proofs.Store.Alike

/-! # Sessions alike

Sessions are alike if their connections are, and if the task is in the same place in both.
Scripts that go on by success and failure alone, and not by counts, and that ask for no job
that looks at counters, have alike results in alike sessions and leave alike sessions.
-/

namespace Relata

variable {dialect : Dialect}

/-- The same connection, up to what it counts. -/
structure Site.Alike (dialect : Dialect) (s t : Site) : Prop where
  connection : Connection.Alike dialect s.connection t.connection
  isOpen : s.isOpen = t.isOpen

theorem Site.Alike.shut {s t : Site} (h : Alike dialect s t) : Alike dialect s.shut t.shut := by
  have hr := Connection.control_counting (c := s.connection) .rollback t.connection.toCounters
  rw [← h.connection.eq_counting] at hr
  simp only [Connection.control] at hr
  refine ⟨?_, rfl⟩
  simp only [Site.shut, hr]
  cases hs : s.connection.rollback with
  | ok c =>
    have hc : c.dialect = s.connection.dialect := Connection.dialect_control (k := .rollback) hs
    exact .of_counting (hc.trans h.connection.left) _
  | error r => exact h.connection

theorem Site.Alike.perform {s t : Site} (h : Alike dialect s t) {job : Job}
    (blind : job.Blind dialect) :
    (s.perform job).1.map (job.told dialect) = (t.perform job).1.map (job.told dialect) ∧
      Alike dialect (s.perform job).2 (t.perform job).2 := by
  by_cases last : job = .shut
  · rw [last]
    exact ⟨rfl, h.shut⟩
  · by_cases isOpen : s.isOpen = true
    · obtain ⟨htold, halike⟩ := h.connection.perform blind
      rw [perform_of_isOpen isOpen last, perform_of_isOpen (h.isOpen ▸ isOpen) last]
      refine ⟨?_, halike, h.isOpen⟩
      rcases map_eq_map htold with ⟨e, hs, ht⟩ | ⟨a, b, hs, ht, hab⟩
      · rw [hs, ht]
      · rw [hs, ht]
        exact congrArg Except.ok hab
    · have shut : s.perform job = (.error shutFailure, s) ∧
          t.perform job = (.error shutFailure, t) := by
        have isOpen' := h.isOpen ▸ isOpen
        cases job with
        | shut => exact absurd rfl last
        | command | raw | define | index | control | probe =>
          exact ⟨if_neg isOpen, if_neg isOpen'⟩
      rw [shut.1, shut.2]
      exact ⟨rfl, h⟩

namespace Session

/-- The same place of the task, with nothing left behind that looks at counters, and alike
sites. -/
structure Alike (dialect : Dialect) (s t : Session) : Prop where
  site : Site.Alike dialect s.site t.site
  bodies : s.bodies = t.bodies
  behind : s.behind = t.behind
  blind : ∀ job ∈ s.behind, job.Blind dialect
  inBatch : s.inBatch = t.inBatch

variable {s t : Session}

theorem Alike.catchUp (h : Alike dialect s t) : Alike dialect s.catchUp t.catchUp := by
  refine ⟨?_, h.bodies, rfl, by rintro job ⟨⟩, h.inBatch⟩
  have hfold (jobs : List Job) : ∀ {s t : Site}, Site.Alike dialect s t →
      (∀ job ∈ jobs, job.Blind dialect) →
      Site.Alike dialect (jobs.foldl (fun site job => (site.perform job).2) s)
        (jobs.foldl (fun site job => (site.perform job).2) t) := by
    induction jobs with
    | nil => exact fun h _ => h
    | cons job jobs ih =>
      intro s t h blind
      obtain ⟨hjob, hjobs⟩ := List.forall_mem_cons.mp blind
      exact ih (h.perform hjob).2 hjobs
  simp only [Session.catchUp, ← h.behind]
  exact hfold s.behind h.site h.blind

/-- Alike sessions give alike replies, and stay alike. -/
theorem Alike.perform (h : Alike dialect s t) {job : Job} (blind : job.Blind dialect) :
    (s.perform job).1.map (job.told dialect) = (t.perform job).1.map (job.told dialect) ∧
      Alike dialect (s.perform job).2 (t.perform job).2 := by
  obtain ⟨htold, hsite⟩ := h.site.perform blind
  have hok : (s.site.perform job).1.isOk = (t.site.perform job).1.isOk := by
    rcases map_eq_map htold with ⟨e, hs, ht⟩ | ⟨a, b, hs, ht, -⟩
    · rw [hs, ht]
    · rw [hs, ht]
      rfl
  refine ⟨htold, ?_⟩
  have hafter : Alike dialect
      { s with
        site := (s.site.perform job).2
        inBatch := inBatchAfter s.inBatch (s.site.perform job).1.isOk job }
      { t with
        site := (t.site.perform job).2
        inBatch := inBatchAfter s.inBatch (s.site.perform job).1.isOk job } :=
    ⟨hsite, h.bodies, h.behind, h.blind, rfl⟩
  simp only [Session.perform, ← h.inBatch, ← hok]
  split
  · exact hafter
  · exact hafter.catchUp

end Session

/-- In alike sessions the scripts have related results and leave alike sessions. -/
def Script.Related (dialect : Dialect) {α β : Type} (R : α → β → Prop) (x : Script α)
    (y : Script β) : Prop :=
  ∀ s t : Session, Session.Alike dialect s t →
    R (s.run x).1 (t.run y).1 ∧ Session.Alike dialect (s.run x).2 (t.run y).2

namespace Script.Related

open Session

variable {α β γ δ : Type} {R : α → β → Prop} {S : γ → δ → Prop} {x : Script α} {y : Script β}

theorem done {a : α} {b : β} (h : R a b) : Related dialect R (Script.done a) (Script.done b) :=
  fun _ _ alike => ⟨h, alike⟩

theorem bind {f : α → Script γ} {g : β → Script δ} (first : Related dialect R x y)
    (rest : ∀ a b, R a b → Related dialect S (f a) (g b)) : Related dialect S (x >>= f) (y >>= g) := by
  intro s t alike
  obtain ⟨hR, halike⟩ := first s t alike
  rw [run_bind, run_bind]
  exact rest _ _ hR _ _ halike

/-- Results that tell the same have both failed, or have both succeeded. -/
theorem bind_cases {ε τ : Type} {f : α → τ} {g : β → τ} {x : Script (Except ε α)}
    {y : Script (Except ε β)} {k : Except ε α → Script γ} {l : Except ε β → Script δ}
    (first : Related dialect (fun a b => a.map f = b.map g) x y)
    (failed : ∀ e, Related dialect S (k (.error e)) (l (.error e)))
    (succeeded : ∀ a b, f a = g b → Related dialect S (k (.ok a)) (l (.ok b))) :
    Related dialect S (x >>= k) (y >>= l) := by
  refine bind first fun _ _ same => ?_
  rcases map_eq_map same with ⟨e, rfl, rfl⟩ | ⟨a, b, rfl, rfl, hab⟩
  · exact failed e
  · exact succeeded a b hab

theorem guarded (undo : List Request) (h : Related dialect R x y) :
    Related dialect R (x.guarded undo) (y.guarded undo) := by
  intro s t alike
  rw [run_guarded, run_guarded]
  exact h s t alike

theorem ask (h : Handle) (job : Job) (blind : job.Blind dialect) :
    Related dialect (fun a b => a.map (job.told dialect) = b.map (job.told dialect))
      (h.ask job) (h.ask job) :=
  fun _ _ alike => alike.perform blind

theorem gated (h : Handle) {refused : Failure → α} {refused' : Failure → β}
    (hrefused : ∀ f, R (refused f) (refused' f)) (hx : Related dialect R x y) :
    Related dialect R (h.gated refused x) (h.gated refused' y) := by
  intro s t alike
  by_cases outside : s.bodies = 0
  · rw [run_gated outside, run_gated (alike.bodies ▸ outside)]
    obtain ⟨hR, halike⟩ := hx { s with holds := true } { t with holds := true }
      ⟨alike.site, alike.bodies, alike.behind, alike.blind, alike.inBatch⟩
    exact ⟨hR, halike.site, halike.bodies, halike.behind, halike.blind, halike.inBatch⟩
  · rw [run_gated_busy outside, run_gated_busy (alike.bodies ▸ outside)]
    exact ⟨hrefused _, alike⟩

theorem control (h : Handle) (k : Control) :
    Related dialect
      (fun a b => a.map ((Job.control k).told dialect) = b.map ((Job.control k).told dialect))
      (h.control k) (h.control k) :=
  bind_cases (ask h (.control k) trivial) (fun _ => done rfl)
    fun _ _ hab => done (congrArg Except.ok hab)

end Script.Related

def Job.toldAll (dialect : Dialect) : List Job → List Nat → List Nat :=
  List.zipWith fun job n => (job.told dialect { count := n }).count

theorem Job.zipWith_told {jobs : List Job} {ms ns : List Nat}
    (h : Job.toldAll dialect jobs ms = Job.toldAll dialect jobs ns) :
    List.zipWith (Job.told dialect) jobs (ms.map fun n => { count := n }) =
      List.zipWith (Job.told dialect) jobs (ns.map fun n => { count := n }) := by
  have hcount (job : Job) (n : Nat) :
      job.told dialect { count := n } = { count := (job.told dialect { count := n }).count } := by
    rw [Job.told, Answer.told]
    cases job.counted dialect <;> rfl
  have hall (ns : List Nat) :
      List.zipWith (Job.told dialect) jobs (ns.map fun n => { count := n }) =
        (Job.toldAll dialect jobs ns).map fun n => { count := n } := by
    rw [List.zipWith_map_right, Job.toldAll, List.map_zipWith]
    exact congrArg (List.zipWith · jobs ns) (funext₂ hcount)
  rw [hall, hall, h]

namespace Script.Related

variable {jobs : List Job}

/-- Counts of which the one list tells as much as the other. -/
def SameCounts (dialect : Dialect) (jobs : List Job) (a b : Except Failure (List Nat)) : Prop :=
  a.map (Job.toldAll dialect jobs) = b.map (Job.toldAll dialect jobs)

theorem each (h : Handle) {jobs : List Job} (blind : ∀ job ∈ jobs, job.Blind dialect) :
    Related dialect (SameCounts dialect jobs) (h.each jobs) (h.each jobs) := by
  induction jobs with
  | nil => exact done rfl
  | cons job jobs ih =>
    obtain ⟨hjob, blind⟩ := List.forall_mem_cons.mp blind
    refine bind_cases (ask h job hjob) (fun _ => done rfl) fun a b hab => ?_
    have hcount := congrArg Answer.count hab
    rw [← Job.count_told, ← Job.count_told job b] at hcount
    exact bind_cases (ih blind) (fun _ => done rfl)
      fun ms ns hmn => done (congrArg Except.ok (congrArg₂ List.cons hcount hmn))

theorem wholeBatch (h : Handle) (blind : ∀ job ∈ jobs, job.Blind dialect) :
    Related dialect (SameCounts dialect jobs) (h.wholeBatch jobs) (h.wholeBatch jobs) := by
  have failed (f : Failure) : Related dialect (SameCounts dialect jobs)
      (do let _ ← h.ask (.control .rollback); return .error f)
      (do let _ ← h.ask (.control .rollback); return .error f) :=
    bind (ask h (.control .rollback) trivial) fun _ _ _ => done rfl
  refine bind_cases (ask h (.control .begin) trivial) (fun _ => done rfl) fun _ _ _ => ?_
  refine guarded _ (bind_cases (each h blind) failed fun ms ns hmn => ?_)
  exact bind_cases (ask h (.control .commit) trivial) failed
    fun _ _ _ => done (congrArg Except.ok hmn)

theorem partialBatch (h : Handle) (blind : ∀ job ∈ jobs, job.Blind dialect) :
    Related dialect (SameCounts dialect jobs) (h.partialBatch jobs) (h.partialBatch jobs) := by
  refine bind_cases (control h (.savepoint Handle.batchName)) (fun _ => done rfl)
    fun _ _ _ => bind_cases (each h blind) (fun _ => ?_) fun ms ns hmn => ?_
  · exact bind_cases (ask h (.control (.rollbackTo Handle.batchName)) trivial)
      (fun _ => done rfl) fun _ _ _ =>
        bind (ask h (.control (.release Handle.batchName)) trivial) fun _ _ _ => done rfl
  · exact bind_cases (control h (.release Handle.batchName)) (fun _ => done rfl)
      fun _ _ _ => done (congrArg Except.ok hmn)

theorem batch (h : Handle) (blind : ∀ job ∈ jobs, job.Blind dialect) :
    Related dialect (SameCounts dialect jobs) (h.batch jobs).run (h.batch jobs).run := by
  rw [Handle.batch]
  split
  · exact done rfl
  · cases h.mode with
    | autocommit => exact gated h (fun _ => rfl) (wholeBatch h blind)
    | transaction => exact partialBatch h blind

theorem perform (h : Handle) {job : Job} (blind : job.Blind dialect) :
    Related dialect (fun a b => a.map (job.told dialect) = b.map (job.told dialect))
      (h.perform job).run (h.perform job).run := by
  rw [Handle.perform, Handle.hold]
  cases h.mode with
  | autocommit => exact gated h (fun _ => rfl) (ask h.inside job blind)
  | transaction => exact ask h job blind

end Script.Related

/-- What may be asked of a store after something else. -/
inductive FollowUp
  | job (job : Job)
  | batch (jobs : List Job)
  | control (k : Control)

namespace FollowUp

def jobs : FollowUp → List Job
  | job j => [j]
  | batch js => js
  | control k => [.control k]

def script (h : Handle) : FollowUp → Script (Except Failure (List Answer))
  | job j => do return (← (h.perform j).run).map fun a => [a]
  | batch js => do return (← (h.batch js).run).map (List.map fun n => { count := n })
  | control k => do return (← h.control k).map fun a => [a]

def told (dialect : Dialect) (m : FollowUp) :
    Except Failure (List Answer) → Except Failure (List Answer) :=
  Except.map (List.zipWith (Job.told dialect) m.jobs)

theorem related (h : Handle) {m : FollowUp} (blind : ∀ job ∈ m.jobs, job.Blind dialect) :
    Script.Related dialect (fun a b => m.told dialect a = m.told dialect b)
      (m.script h) (m.script h) := by
  cases m with
  | job j =>
    exact .bind_cases (.perform h (blind j List.mem_cons_self)) (fun _ => .done rfl)
      fun _ _ hab => .done (congrArg (fun a => Except.ok [a]) hab)
  | batch js =>
    exact .bind_cases (.batch h blind) (fun _ => .done rfl)
      fun _ _ hab => .done (congrArg Except.ok (Job.zipWith_told hab))
  | control k =>
    exact .bind_cases (.control h k) (fun _ => .done rfl)
      fun _ _ hab => .done (congrArg (fun a => Except.ok [a]) hab)

end FollowUp

namespace Session

def followUp (dialect : Dialect) (h : Handle) :
    List FollowUp → Session → List (Except Failure (List Answer)) × Session
  | [], s => ([], s)
  | m :: ms, s =>
    let (answers, t) := s.run (m.script h)
    ((m.told dialect answers) :: (followUp dialect h ms t).1, (followUp dialect h ms t).2)

/-- Whatever is asked of alike sessions, they tell the same and stay alike. -/
theorem Alike.followUp {s t : Session} (alike : Alike dialect s t) (h : Handle)
    {ms : List FollowUp} (blind : ∀ m ∈ ms, ∀ job ∈ m.jobs, job.Blind dialect) :
    (s.followUp dialect h ms).1 = (t.followUp dialect h ms).1 ∧
      Alike dialect (s.followUp dialect h ms).2 (t.followUp dialect h ms).2 := by
  induction ms generalizing s t with
  | nil => exact ⟨rfl, alike⟩
  | cons m ms ih =>
    obtain ⟨hm, blind⟩ := List.forall_mem_cons.mp blind
    obtain ⟨htold, hnext⟩ := FollowUp.related h hm s t alike
    obtain ⟨hrest, halike⟩ := ih hnext blind
    exact ⟨congrArg₂ List.cons htold hrest, halike⟩

end Session

end Relata
