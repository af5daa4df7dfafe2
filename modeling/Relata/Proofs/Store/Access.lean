import Relata.Proofs.Result
import Relata.Store.Database

/-! # Access

However rows are come by, they are the same rows, in another order at most.
-/

namespace Relata

namespace Access

theorem perm_arrange (f : Frame) (access : Access) (rows : List Row) :
    (access.arrange f rows).Perm rows := by
  have turned (reversed : Bool) {sorted rows : List Row} (h : sorted.Perm rows) :
      (if reversed then sorted.reverse else sorted).Perm rows := by
    cases reversed with
    | true => exact (List.reverse_perm sorted).trans h
    | false => exact h
  refine @Access.rec (fun access => ∀ rows, (access.arrange f rows).Perm rows)
    (fun parts => ∀ rows, (arrangeBranches f parts rows).Perm rows)
    (fun part => ∀ rows, (part.2.arrange f rows).Perm rows) ?_ ?_ ?_ ?_ ?_ ?_ access rows
  · intro reversed rows
    rw [arrange]
    exact turned reversed (.refl _)
  · intro place reversed rows
    rw [arrange]
    exact turned reversed (List.mergeSort_perm _ _)
  · intro parts hparts rows
    rw [arrange]
    exact hparts rows
  · intro rows
    rw [arrangeBranches]
  · intro part rest hpart hrest rows
    rw [arrangeBranches, List.partition_eq_filter_filter]
    exact ((hpart _).append (hrest _)).trans (List.filter_append_perm _ _)
  · exact fun part access h => h

end Access

namespace Database

variable {db : Database} {table : String} {cs : List Condition} {order : Order}

/-- What a query without a page shows are the rows that its conditions select, sorted after
they were come by in some way. -/
theorem query_everything_ok {records : List Record}
    (h : db.query .everything table cs order {} = .ok records) :
    ∃ t access, db.table table = .ok t ∧
      records = (order.sort (db.frame t)
        (Access.arrange (db.frame t) access
          (t.rows.filter (Condition.selects (db.frame t) cs)))).map t.definition.record := by
  obtain ⟨t, ht, hshown⟩ := bind_eq_ok.mp h
  obtain ⟨_, _, htested⟩ := bind_eq_ok.mp hshown
  obtain ⟨_, _, hnames⟩ := bind_eq_ok.mp htested
  obtain ⟨_, _, huse⟩ := bind_eq_ok.mp hnames
  obtain ⟨_, _, hpatterns⟩ := bind_eq_ok.mp huse
  obtain ⟨_, _, hproject⟩ := bind_eq_ok.mp hpatterns
  exact ⟨t, _, ht, (Except.ok.inj hproject).symm⟩

theorem query_everything_single {t : Table} (ht : db.table table = .ok t)
    (hlen : t.rows.length ≤ 1) {records : List Record}
    (h : db.query .everything table cs order {} = .ok records) :
    records = (order.sort (db.frame t)
      (t.rows.filter (Condition.selects (db.frame t) cs))).map t.definition.record := by
  obtain ⟨t', access, ht', rfl⟩ := query_everything_ok h
  cases ht.symm.trans ht'
  have hperm := access.perm_arrange (db.frame t) (t.rows.filter (Condition.selects (db.frame t) cs))
  have hshort : (t.rows.filter (Condition.selects (db.frame t) cs)).length ≤ 1 :=
    Nat.le_trans (List.length_filter_le _ _) hlen
  match hrows : t.rows.filter (Condition.selects (db.frame t) cs), hshort with
  | [], _ => rw [hrows] at hperm; rw [hperm.eq_nil]
  | [row], _ => rw [hrows] at hperm; rw [hperm.eq_singleton]

end Database

end Relata
