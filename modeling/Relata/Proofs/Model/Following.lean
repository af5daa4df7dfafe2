import Relata.Proofs.Model.Lookup

/-! # What follows a session

Whatever comes of an operation, the task can go on as before, and the store is in a relation to
what it was if every job that the operation asks for keeps to that relation.
-/

namespace Relata

namespace Session

variable {s t u : Session} {R : Connection → Connection → Prop}

/-- A session in which a task can go on as in another one, with the store in a relation to what
it was. -/
structure Follows (R : Connection → Connection → Prop) (s u : Session) : Prop where
  connection : R s.site.connection u.site.connection
  behind : u.behind = []
  bodies : u.bodies = s.bodies
  isOpen : u.site.isOpen = s.site.isOpen

namespace Follows

theorem refl (hR : ∀ c, R c c) (hb : s.behind = []) : s.Follows R s :=
  ⟨hR _, hb, rfl, rfl⟩

theorem trans (hR : ∀ {c d e}, R c d → R d e → R c e) (first : s.Follows R t)
    (next : t.Follows R u) : s.Follows R u :=
  ⟨hR first.connection next.connection, next.behind, next.bodies.trans first.bodies,
    next.isOpen.trans first.isOpen⟩

theorem symm (hR : ∀ {c d}, R c d → R d c) (hb : s.behind = []) (follows : s.Follows R u) :
    u.Follows R s :=
  ⟨hR follows.connection, hb, follows.bodies.symm, follows.isOpen.symm⟩

theorem reaches (follows : s.Follows R u) {h : Handle} (reaches : s.Reaches h) : u.Reaches h :=
  reaches.imp_right follows.bodies.trans

theorem ready (follows : s.Follows R u) (ready : s.Ready) : u.Ready :=
  ⟨follows.isOpen.trans ready.isOpen, follows.behind⟩

end Follows

theorem follows_perform (hb : s.behind = []) {job : Job} (hj : job ≠ .shut) (hR : ∀ c, R c c)
    (each : ∀ c : Connection, R c (c.perform job).2) : s.Follows R (s.perform job).2 := by
  rw [perform_of_behind hb]
  cases h : s.site.isOpen with
  | false =>
    rw [Site.perform_of_shut h hj]
    exact ⟨hR _, hb, rfl, rfl⟩
  | true =>
    rw [Site.perform_of_isOpen h hj]
    exact ⟨each _, hb, rfl, rfl⟩

theorem follows_hold {α : Type} {h : Handle} {x : Handle → Op α} (hb : s.behind = [])
    (hR : ∀ c, R c c)
    (held : s.Reaches h → ∀ inner : Handle, inner.mode = .transaction → ∀ u : Session,
      u.site = s.site → u.behind = [] → u.Follows R (u.run (x inner).run).2) :
    s.Follows R (s.run (h.hold x).run).2 := by
  rcases s.run_hold_cases h x with ⟨hm, hx⟩ | ⟨-, hout, hx⟩ | hx
  · rw [hx]
    exact held (.inl hm) h hm s rfl hb
  · rw [hx]
    obtain ⟨hconnection, hbehind, hbodies, hopen⟩ :=
      held (.inr hout) h.inside rfl { s with holds := true } rfl hb
    exact ⟨hconnection, hbehind, hbodies, hopen⟩
  · rw [hx]
    exact .refl hR hb

end Session

theorem Handle.Asks.follows {α : Type} {h : Handle} {allowed : Job → Prop} {x : Op α}
    {R : Connection → Connection → Prop} (asks : h.Asks allowed x) (hR : ∀ c, R c c)
    (trans : ∀ {c d e}, R c d → R d e → R c e)
    (each : ∀ job, allowed job → job ≠ .shut ∧ ∀ c : Connection, R c (c.perform job).2)
    {s : Session} (hb : s.behind = []) : s.Follows R (s.run x.run).2 := by
  induction asks generalizing s with
  | decided result => exact .refl hR hb
  | bind _ _ ihx ihf =>
    have first := ihx hb
    rw [Session.run_op_bind]
    cases hrun : s.run _ with | mk result u =>
    rw [hrun] at first
    cases result with
    | error e => exact first
    | ok a => exact first.trans trans (ihf a first.behind)
  | @perform job hjob =>
    obtain ⟨hj, each⟩ := each job hjob
    exact Session.follows_hold hb hR fun _ inner _ u _ hbu =>
      Session.follows_perform hbu hj hR each

theorem Job.IsPlain.ne_shut {job : Job} (plain : job.IsPlain) : job ≠ .shut := by
  rintro rfl
  exact plain

theorem Model.goesOn_upsert {m : Model} {s : Session} (hb : s.behind = []) (fresh : String)
    (f : Filter) (create update : Record) :
    s.Follows (fun _ _ => True) (s.run (m.upsert fresh f create update).run).2 := by
  rw [upsert_eq]
  refine Session.follows_hold hb (fun _ => trivial) fun _ inner inside u _ hbu => ?_
  exact ((m.through inner).asks_upsertHeld inside fresh f create update).follows
    (fun _ => trivial) (fun _ _ => trivial) (fun job plain => ⟨plain.ne_shut, fun _ => trivial⟩) hbu

/-! ## Jobs of updates -/

namespace Model

variable {m : Model} {data : Record} {f : Filter}

def Assigns (m : Model) (data : Record) (job : Job) : Prop :=
  job.Selects ∨ m.checkData data = .ok () ∧ ∃ f cs k, Filter.conditions f = .ok cs ∧
    Command.assignment m.table data cs = .ok k ∧ job = .command k

theorem Assigns.ne_shut {job : Job} (assigns : m.Assigns data job) : job ≠ .shut := by
  rintro rfl
  rcases assigns with ⟨_, h, -⟩ | ⟨-, _, _, _, -, -, h⟩ <;> cases h

theorem assigns_findUnique (m : Model) (f : Filter) (data : Record) :
    m.handle.Asks (m.Assigns data) (m.findUnique { filter := f }) :=
  (m.reads_findUnique _).mono fun _ => .inl

theorem assigns_updateHeld (hcheck : m.checkData data = .ok ()) (f : Filter) :
    m.handle.Asks (m.Assigns data) (m.updateHeld f data) := by
  refine .bind (m.assigns_findUnique f data) fun found => ?_
  cases found with
  | none => exact .pure none
  | some found =>
    refine .check fun cs hcs => .check fun k hk => ?_
    exact .bind (.perform (.inr ⟨hcheck, _, cs, k, hcs, hk, rfl⟩)) fun _ =>
      m.assigns_findUnique _ data

theorem assigns_updateMany (m : Model) (f : Filter) (data : Record) :
    m.handle.Asks (m.Assigns data) (m.updateMany f data) := by
  rw [updateMany]
  split
  · refine .check fun _ _ => .check fun _ hcheck => .check fun cs hcs => .check fun k hk => ?_
    exact .bind (.perform (.inr ⟨hcheck, f, cs, k, hcs, hk, rfl⟩)) fun _ => .pure _
  · exact .pure 0

section

variable {R : Connection → Connection → Prop} {s : Session} (hR : ∀ c, R c c)
  (trans : ∀ {c d e}, R c d → R d e → R c e)
  (each : ∀ job, m.Assigns data job → ∀ c : Connection, R c (c.perform job).2)

include hR trans each

theorem follows_updateMany (hb : s.behind = []) :
    s.Follows R (s.run (m.updateMany f data).run).2 :=
  (m.assigns_updateMany f data).follows hR trans
    (fun job assigns => ⟨assigns.ne_shut, each job assigns⟩) hb

theorem follows_update (hb : s.behind = []) :
    s.Follows R (s.run (m.update f data).run).2 := by
  have check {e : Except Fault Unit} {x : Unit → Op (Option Record)}
      (rest : ∀ a, e = .ok a → s.Follows R (s.run (x a).run).2) :
      s.Follows R (s.run (liftM e >>= x).run).2 := by
    cases e with
    | error fault => exact .refl hR hb
    | ok a => exact rest a rfl
  rw [update_eq]
  split
  · refine check fun _ _ => check fun _ hcheck => ?_
    refine Session.follows_hold hb hR fun _ inner _ u _ hbu => ?_
    exact (assigns_updateHeld (m := m.through inner) hcheck f).follows hR trans
      (fun job assigns => ⟨assigns.ne_shut, each job assigns⟩) hbu
  · exact .refl hR hb

/-- An upsert that has a row to change adds none. -/
theorem follows_upsert (hb : s.behind = []) (fresh : String) {create : Record}
    (found : (s.run (m.findUnique { filter := f }).run).1 ≠ .ok none) :
    s.Follows R (s.run (m.upsert fresh f create data).run).2 := by
  rw [upsert_eq]
  refine Session.follows_hold hb hR fun reaches inner _ u hu hbu => ?_
  have first := ((m.through inner).assigns_findUnique f data).follows hR trans
    (fun job assigns => ⟨assigns.ne_shut, each job assigns⟩) hbu
  rw [upsertHeld, Session.run_op_bind]
  cases hfind : u.run ((m.through inner).findUnique { filter := f }).run with | mk result v =>
  rw [hfind] at first
  cases result with
  | error e => exact first
  | ok row =>
    cases row with
    | none =>
      obtain ⟨finds, ⟨-, isOpen⟩, -, -⟩ := findUnique_ok hbu hfind
      rw [hu] at finds isOpen
      exact absurd (finds.of_through.run reaches hb isOpen) found
    | some row =>
      refine first.trans trans ?_
      by_cases hdata : data.hasAssignments = true
      · simp only [if_pos hdata]
        have next := follows_update (m := m.through inner) (f := row.locator f) hR trans each
          first.behind
        refine Eq.mp (congrArg _ ?_) next
        exact congrArg Prod.snd (Session.run_op_map ..).symm
      · simp only [if_neg hdata]
        exact .refl hR first.behind

end

end Model

end Relata
