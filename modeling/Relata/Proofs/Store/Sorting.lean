import Relata.Store.Frame

/-! # Sorting

Scalars are in one order, and so are rows by the fields of an order. Rows are sorted by
it stably, so that it is the same to sort rows and then to select some, and to sort the
selected ones.
-/

namespace Relata

open Std

section Stable

variable {α : Type} {le : α → α → Bool}

theorem append_inj_of_bound {q : α → Bool} {as bs cs ds : List α} (h : as ++ bs = cs ++ ds)
    (has : ∀ a ∈ as, q a = false) (hbs : ∀ b ∈ bs, q b = true)
    (hcs : ∀ c ∈ cs, q c = false) (hds : ∀ d ∈ ds, q d = true) : as = cs ∧ bs = ds := by
  have count {xs ys : List α} (hx : ∀ x ∈ xs, q x = false) (hy : ∀ y ∈ ys, q y = true) :
      (xs ++ ys).countP q = ys.length := by
    rw [List.countP_append, List.countP_eq_zero.mpr (by simpa using hx),
      List.countP_eq_length.mpr hy, Nat.zero_add]
  have hlen : bs.length = ds.length := by rw [← count has hbs, h, count hcs hds]
  exact List.append_inj' h hlen

/-- Selecting from a sorted list is sorting the selected items. -/
theorem filter_mergeSort (trans : ∀ a b c, le a b → le b c → le a c)
    (total : ∀ a b, le a b || le b a) (p : α → Bool) (as : List α) :
    (as.mergeSort le).filter p = (as.filter p).mergeSort le := by
  -- The first item is put before the items that it is not above, in both lists.
  have above {a : α} {bs cs ds : List α} (h : (a :: bs).mergeSort le = cs ++ a :: ds) :
      ∀ d ∈ ds, le a d = true := by
    have hp := List.pairwise_mergeSort trans total (a :: bs)
    rw [h] at hp
    exact (List.pairwise_cons.mp (List.pairwise_append.mp hp).2.1).1
  induction as with
  | nil => simp
  | cons a as ih =>
    obtain ⟨cs, ds, h, hrest, hcs⟩ := List.mergeSort_cons trans total a as
    have hds := above h
    rw [h, List.filter_append]
    cases hp : p a with
    | false =>
      rw [List.filter_cons_of_neg (by simp [hp]), List.filter_cons_of_neg (by simp [hp]), ← ih,
        hrest, List.filter_append]
    | true =>
      obtain ⟨cs', ds', h', hrest', hcs'⟩ := List.mergeSort_cons trans total a (as.filter p)
      have hds' := above h'
      rw [← ih, hrest, List.filter_append] at hrest'
      obtain ⟨hc, hd⟩ := append_inj_of_bound hrest'
        (fun c hc => by simpa using hcs c (List.mem_filter.mp hc).1)
        (fun d hd => hds d (List.mem_filter.mp hd).1)
        (fun c hc => by simpa using hcs' c hc) hds'
      rw [List.filter_cons_of_pos hp, List.filter_cons_of_pos hp, h', hc, hd]

end Stable

namespace Scalar

def units : Scalar → Int
  | integer n => n.toInt * Binary64.unit
  | real x => x.extended
  | _ => 0

def chars : Scalar → String
  | text s => s
  | _ => ""

def octets : Scalar → List Nat
  | blob bytes => bytes.map UInt8.toNat
  | _ => []

theorem compareLists_toNat (as bs : List UInt8) :
    compareLists (fun a b => compare a.toNat b.toNat) as bs =
      compare (as.map UInt8.toNat) (bs.map UInt8.toNat) := by
  induction as generalizing bs with
  | nil => cases bs <;> rfl
  | cons a as ih =>
    cases bs with
    | nil => rfl
    | cons b bs =>
      rw [List.map_cons, List.map_cons, List.compare_eq_compareLex, List.compareLex_cons_cons,
        ← List.compare_eq_compareLex, ← ih bs, compareLists]
      cases compare a.toNat b.toNat <;> rfl

theorem compare_mul_unit (m n : Int) :
    compare (m * Binary64.unit) (n * Binary64.unit) = compare m n := by
  have hpos : (0 : Int) < Binary64.unit := by decide
  have hlt : m * Binary64.unit < n * Binary64.unit ↔ m < n :=
    ⟨fun h => Int.lt_of_mul_lt_mul_right h (Int.le_of_lt hpos),
      fun h => Int.mul_lt_mul_of_pos_right h hpos⟩
  have heq : m * Binary64.unit = n * Binary64.unit ↔ m = n :=
    Int.mul_eq_mul_right_iff (Int.ne_of_gt hpos)
  simp only [compare, compareOfLessAndEq, hlt, heq]

theorem order_eq :
    order = compareLex (compareOn rank) (compareLex (compareOn units)
      (compareLex (compareOn chars) (compareOn octets))) := by
  funext s t
  cases s <;> cases t <;>
    simp only [order, compareLex, compareOn, rank, units, chars, octets, ReflOrd.compare_self,
      Ordering.eq_then, Ordering.then_eq]
  case integer.integer m n => exact (compare_mul_unit _ _).symm
  case integer.real m y => exact OrientedOrd.eq_swap.symm
  case blob.blob as bs => exact compareLists_toNat as bs
  all_goals rfl

instance : TransCmp order := by
  rw [order_eq]
  infer_instance

end Scalar

namespace Order

variable (f : Frame)

def compareField (field : String) : Direction → Row → Row → Ordering
  | .ascending, a, b => (f.scalar a field).order (f.scalar b field)
  | .descending, a, b => (f.scalar b field).order (f.scalar a field)

theorem compareRows_cons (field : String) (d : Direction) (rest : Order) :
    compareRows f ((field, d) :: rest) =
      compareLex (compareField f field d) (compareRows f rest) := by
  funext a b
  cases d with
  | ascending =>
    simp only [compareRows, compareLex, compareField]
    cases (f.scalar a field).order (f.scalar b field) <;> rfl
  | descending =>
    simp only [compareRows, compareLex, compareField]
    rw [@OrientedCmp.eq_swap _ Scalar.order _ (f.scalar b field)]
    cases (f.scalar a field).order (f.scalar b field) <;> rfl

instance (field : String) (d : Direction) : TransCmp (compareField f field d) where
  eq_swap {a b} := by cases d <;> exact @OrientedCmp.eq_swap _ Scalar.order _ _ _
  isLE_trans {a b c} hab hbc := by
    cases d with
    | ascending => exact @TransCmp.isLE_trans _ Scalar.order _ _ _ _ hab hbc
    | descending => exact @TransCmp.isLE_trans _ Scalar.order _ _ _ _ hbc hab

instance (order : Order) : TransCmp (compareRows f order) := by
  induction order with
  | nil => exact { eq_swap := rfl, isLE_trans := fun _ _ => rfl }
  | cons e rest ih =>
    rw [compareRows_cons]
    infer_instance

/-- Selecting from sorted rows is sorting the selected rows. -/
theorem filter_sort (order : Order) (p : Row → Bool) (rows : List Row) :
    (order.sort f rows).filter p = order.sort f (rows.filter p) := by
  have le (a b : Row) : (compareRows f order a b != .gt) = (compareRows f order a b).isLE := by
    cases compareRows f order a b <;> rfl
  simp only [sort, le]
  refine filter_mergeSort (fun a b c => TransCmp.isLE_trans) (fun a b => ?_) p rows
  rw [@OrientedCmp.eq_swap _ (compareRows f order) _ b a]
  cases compareRows f order a b <;> rfl

theorem pairwise_sort (order : Order) (rows : List Row) :
    (order.sort f rows).Pairwise fun a b => (compareRows f order a b).isLE = true := by
  have le (a b : Row) : (compareRows f order a b != .gt) = (compareRows f order a b).isLE := by
    cases compareRows f order a b <;> rfl
  simp only [sort, le]
  refine List.pairwise_mergeSort (fun a b c => TransCmp.isLE_trans) (fun a b => ?_) rows
  rw [@OrientedCmp.eq_swap _ (compareRows f order) _ b a]
  cases compareRows f order a b <;> rfl

/-- Rows that an order tells apart are sorted in one way, in whatever order they come. -/
theorem sort_eq_of_perm {order : Order} {rows others : List Row} (perm : rows.Perm others)
    (untied : ∀ a ∈ rows, ∀ b ∈ rows, compareRows f order a b = .eq → a = b) :
    order.sort f rows = order.sort f others := by
  refine List.Perm.eq_of_pairwise (fun a b ha hb hab hba => ?_) (pairwise_sort f order rows)
    (pairwise_sort f order others) ?_
  · refine untied a (List.mem_mergeSort.mp ha) b (perm.mem_iff.mpr (List.mem_mergeSort.mp hb)) ?_
    rw [@OrientedCmp.eq_swap _ (compareRows f order) _ b a] at hba
    cases h : compareRows f order a b with
    | eq => rfl
    | lt | gt => simp [h] at hab hba
  · exact (List.mergeSort_perm ..).trans (perm.trans (List.mergeSort_perm ..).symm)

end Order

end Relata
