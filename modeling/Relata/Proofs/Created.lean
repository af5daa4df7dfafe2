import Relata.Proofs.Model.Creation
import Relata.Proofs.Script.Amid

/-! # What a creation answers

A creation passes the gate twice, once to insert its row and once to read it again. Whatever
other tasks do between the two is seen by the second one: a row that they left as it is is
answered, a row that they changed is answered as they left it, and one that they removed is lost.
-/

namespace Relata

open Text

abbrev Event.carried (t store : Nat) (k : Command) (reply : Reply) : Event :=
  ⟨t, ⟨store, .perform (.command k)⟩, .answered reply⟩

namespace World

variable {α : Type} {u w : World α} {es : List Event} {t store : Nat} {m : Model}
  {fresh : String} {data : Record} {k : Command} {b : Answer} {a : α}

/-- However other tasks come between its steps, a creation whose insertion the store answered
reads its row again at some later time, and answers what it finds then. -/
theorem created_row_is_read_again {answer : Except Failure Record → α}
    (outside : m.handle = ⟨store, .autocommit⟩) (free : (u.tasks t).bodies = [])
    (begins : (u.tasks t).script =
      (m.create fresh data).run >>= fun result => .done (some (answer result)))
    (trace : Trace u es w)
    (inserts : Command.insertion m.table (data.identified fresh).2 = .ok k)
    (inserted : .carried t store k (.ok b) ∈ es)
    (ended : (w.tasks t).script = .done (some a)) :
    ∃ before between after v x y z b s reply result,
      let insertion := Event.carried t store k (.ok b)
      let lookup := Event.carried t store (.lookup m.table s) reply
      es = before ++ insertion :: (between ++ lookup :: after) ∧
      Happens u before v insertion x (between ++ lookup :: after) w ∧
      Happens x between y lookup z after w ∧
      a = answer result ∧
      ((y.sites store).isOpen = true → Sql.isKeyword m.table.toList = false →
        m.Rereads (data.identified fresh).1 (y.sites store) result) ∧
      ∀ table, m.Keyed (v.sites store).connection.database table →
        Entries.Distinct (data.identified fresh).2 →
        ∃ new, table.Adds (v.sites store).connection (x.sites store).connection new ∧
          table.definition.Fills (v.sites store).connection.database.now
            (data.identified fresh).2 new ∧
          ∀ table', (y.sites store).isOpen = true → Sql.isKeyword m.table.toList = false →
            m.Keyed (y.sites store).connection.database table' →
            table'.definition = table.definition → new ∈ table'.rows →
            (Filter.truth ((y.sites store).connection.database.frame table') new
              (Filter.eq [] Record.key (data.identified fresh).1)).holds = true →
            result = .ok (table.definition.record new) := by
  rcases m.run_create_cases fresh data with ⟨f, refused⟩ | ⟨checked, k', hk'⟩
  · have done : (u.tasks t).script = .done (some (answer (.error f))) := by
      rw [begins, refused]
      rfl
    exact absurd rfl ((trace.task_ne_of_done done).2 _ inserted)
  cases inserts.symm.trans hk'
  obtain ⟨sought, plain, s, hs⟩ := Model.exists_identity checked inserts
  have present := Record.isNull_identified fresh data
  rw [Model.run_create_bind checked inserts, Model.perform, outside] at begins
  obtain ⟨before, leaving, rest, v, x, y₁, b', rfl, insertion, hreply, hx, leaves, later, hy₁,
    free₁⟩ := trace.performs_answered free begins ended (fun f => ⟨_, rfl⟩) inserted
  have rereads : (y₁.tasks t).script =
      ((⟨store, .autocommit⟩ : Handle).perform (.command (.lookup m.table s))).run >>=
        fun reply => .done (some (answer (m.rereads (data.identified fresh).1 reply))) := by
    rw [hy₁, ← outside]
    exact Model.run_reread_bind sought plain present hs _
  obtain ⟨before₂, leaving₂, rest₂, y, z, y₂, rfl, reading, -, -, later₂, hy₂, -⟩ :=
    later.performs free₁ rereads ended
  cases ended.symm.trans (later₂.task_ne_of_done hy₂).1
  have reads (isOpen : (y.sites store).isOpen = true)
      (unambiguous : Sql.isKeyword m.table.toList = false) :=
    Model.rereads_lookup isOpen unambiguous plain present hs
  refine ⟨before, leaving ++ before₂, leaving₂ ++ rest₂, v, x, y, z, b', s, _, _, by simp,
    by simpa using insertion, ⟨leaves.append reading.earlier, reading.move, reading.later⟩, rfl,
    reads, fun table keyed distinct => ?_⟩
  obtain ⟨answered, left⟩ := Site.execute_of_perform hreply
  obtain ⟨new, adds, fills⟩ :=
    Model.adds_of_insertion keyed checked inserts distinct answered
  rw [hx, left]
  refine ⟨new, adds, fills, fun table' isOpen unambiguous keyed' same hnew holds => ?_⟩
  rw [← same]
  exact (reads isOpen unambiguous).found table' keyed' new hnew holds

/-! ### An order that is removed -/

open Model

def third : Filter :=
  Filter.eq [] Record.key (.text "o3")

/-- One task adds a third order, and another one removes it. -/
def twoTasks : World (Except Failure Record ⊕ Except Failure Nat) where
  sites _ := orderStore.site
  holders _ := none
  tasks
    | 0 =>
      { script := (declaredOrders.create "o3" [("status", .text "C")]).run >>= fun result =>
          .done (some (.inl result)) }
    | 1 =>
      { script := (declaredOrders.deleteMany third).run >>= fun result =>
          .done (some (.inr result)) }
    | _ => { script := .done none }

def twoScripts : Nat → Script (Option (Except Failure Record ⊕ Except Failure Nat))
  | 0 =>
    (declaredOrders.perform Model.addOrder).run >>= fun reply =>
      match reply with
      | .error f => .done (some (.inl (.error f)))
      | .ok _ =>
        (declaredOrders.perform (.lookup "orders" (.text "o3"))).run >>= fun reply =>
          .done (some (.inl (declaredOrders.rereads (.text "o3") reply)))
  | 1 =>
    (declaredOrders.perform (.delete "orders" (Condition.keyed (.text "o3")))).run >>= fun reply =>
      .done (some (.inr (reply.map Answer.count)))
  | _ => .done none

theorem twoTasks_eq :
    twoTasks = ⟨fun _ => orderStore.site, fun _ => none, fun t => ⟨twoScripts t, []⟩⟩ := by
  have checked : declaredOrders.checkFilter third = .ok () := checkFilter_key rfl
  refine congrArg (World.mk _ _) (funext fun t => ?_)
  match t with
  | 0 =>
    refine congrArg (Running.mk · []) ((run_create_bind rfl rfl _).trans ?_)
    refine congrArg (Script.andThen _) (funext fun reply => ?_)
    cases reply with
    | error f => rfl
    | ok _ => exact run_reread_bind checked (isPlainName_iff.mp rfl) rfl rfl _
  | 1 =>
    refine congrArg (Running.mk · []) ?_
    rw [deleteMany, checked]
    show ((declaredOrders.perform (.delete "orders" (Condition.keyed (.text "o3")))).run >>= _) >>=
      _ = _
    refine (Script.bind_assoc _ _ _).trans ?_
    refine congrArg (Script.andThen _) (funext fun reply => ?_)
    cases reply <;> rfl
  | t + 2 => rfl

def threeOrders : Site where
  connection := leftWith (twoOrders.rows ++ [thirdOrder]) 3
  executed := 2

def orderRemoved : Site where
  connection := { leftWith twoOrders.rows 3 with total := 2 }
  executed := 2

theorem keyed_threeOrders : declaredOrders.Keyed threeOrders.connection.database
    ⟨orderTable, twoOrders.rows ++ [thirdOrder]⟩ where
  regular :=
    { distinct := List.pairwise_singleton ..
      tables := List.forall_mem_singleton.mpr
        { regular := regular_orderTable
          fits := List.forall_mem_append.mpr ⟨(keyed_orders.rows).fits,
            List.forall_mem_singleton.mpr ⟨rfl, by decide, by decide⟩⟩ } }
  known := rfl
  identified :=
    { identity := ⟨_, List.mem_cons_self, rfl⟩
      present := by decide
      apart := by decide }
  declared := keyed_orders.declared

def thirdRead (site : Site) : Except Failure Record :=
  declaredOrders.rereads (.text "o3")
    (site.perform (.command (.lookup "orders" (.text "o3")))).1

theorem rereads_third {s : Site} (isOpen : s.isOpen = true) :
    declaredOrders.Rereads (.text "o3") s (thirdRead s) :=
  rereads_lookup isOpen rfl (isPlainName_iff.mp rfl) rfl rfl

theorem truth_third (f : Frame) (row : Row) :
    (Filter.truth f row third).holds = Condition.selects f (Condition.keyed (.text "o3")) row :=
  (Filter.selects_conditions rfl f row).symm

/-- Where the order is read again before the other task passes the gate, it is answered. -/
theorem created_row_is_read_again_order :
    ∃ es w, Trace twoTasks es w ∧
      (w.tasks 0).script = .done (some (.inl (.ok (orderTable.record thirdOrder)))) ∧
      ∃ between after x y z e, Happens x between y e z after w ∧
        ((y.sites 0).isOpen = true → declaredOrders.Rereads (.text "o3") (y.sites 0)
          (.ok (orderTable.record thirdOrder))) := by
  let schedule : List Nat := [1, 0, 1, 1, 0, 0, 0, 0, 0, 0]
  have trace := trace_follow twoTasks schedule
  have inserted : .carried 0 0 Model.addOrder (.ok { count := 1 }) ∈
      (twoTasks.follow schedule).1 := by
    rw [twoTasks_eq]
    refine List.mem_cons_of_mem _ (List.mem_cons_of_mem _ (List.mem_cons_of_mem _ ?_))
    exact List.mem_cons_of_mem _ List.mem_cons_self
  have found : thirdRead threeOrders = .ok (orderTable.record thirdOrder) :=
    (rereads_third rfl).found _ keyed_threeOrders thirdOrder
      (List.mem_append_right _ (List.mem_singleton_self _)) ((truth_third _ _).trans rfl)
  have ended : ((twoTasks.follow schedule).2.tasks 0).script =
      .done (some (.inl (thirdRead threeOrders))) := by
    rw [twoTasks_eq]
    rfl
  rw [found] at ended
  obtain ⟨_, between, after, _, x, y, z, _, _, _, result, -, -, reads, hresult, rereads, -⟩ :=
    created_row_is_read_again rfl rfl rfl trace rfl inserted ended
  cases hresult
  exact ⟨_, _, trace, ended, between, after, x, y, z, _, reads, fun isOpen => rereads isOpen rfl⟩

/-- Where the other task passes the gate between the insertion and the second reading, the order
is stored, but its addition fails. -/
theorem created_row_is_lost :
    ∃ es w, Trace twoTasks es w ∧
      .carried 0 0 Model.addOrder (.ok { count := 1 }) ∈ es ∧
      (w.tasks 0).script = .done (some (.inl (.error
        (.internal "orders row Text(\"o3\") missing after insert")))) := by
  let schedule : List Nat := [0, 0, 0, 1, 1, 1, 0, 0, 0]
  refine ⟨_, _, trace_follow twoTasks schedule, ?_, ?_⟩
  · rw [twoTasks_eq]
    exact List.mem_cons_of_mem _ List.mem_cons_self
  · have lacks : orderRemoved.connection.database.Lacks twoOrders (.text "o3") := by
      intro r hr
      refine (truth_third _ r).trans ?_
      revert r
      decide
    have lost : thirdRead orderRemoved = .error (declaredOrders.lostRow (.text "o3")) :=
      (rereads_third rfl).lost twoOrders keyed_orders lacks
    have ended : ((twoTasks.follow schedule).2.tasks 0).script =
        .done (some (.inl (thirdRead orderRemoved))) := by
      rw [twoTasks_eq]
      rfl
    rw [ended, lost]
    rfl

end World

end Relata
