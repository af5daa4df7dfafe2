import Mathlib.Data.List.Count
import Relata.Query.Aggregate

/-! # Results in their nesting

Results come as one row, each under the label of its group and its field, and are taken out of
the row one after another. No two labels are the same, so that no group takes what belongs to
another one. A field that a group asks for more than once finds nothing the second time, and
the second time counts.
-/

namespace Relata

theorem Entries.get?_ofList_cons {α : Type} (name : String) (a : α) (rest : List (String × α))
    (other : String) :
    get? (ofList ((name, a) :: rest)) other =
      (get? (ofList rest) other).or (if other = name then some a else none) := by
  have last (list : List (String × α)) : get? (ofList list) other = get? list.reverse other := by
    rw [ofList, get?_extend]
    exact Option.or_none
  have head : get? (rest.reverse ++ [(name, a)]) other =
      (get? rest.reverse other).or (get? [(name, a)] other) := List.lookup_append
  rw [last, last, List.reverse_cons, head, get?_cons]
  rfl

theorem Fold.group_injective {fold fold' : Fold} (h : fold.group = fold'.group) : fold = fold' := by
  cases fold <;> cases fold' <;> first | rfl | exact absurd h (by decide)

namespace Aggregate

variable {a : Aggregate} {row row' : Record} {names : List String}

/-! ### Labels -/

/-- A label says which function of which field it stands for. -/
theorem label_injective {fold fold' : Fold} {field field' : String}
    (h : label fold.group field = label fold'.group field') : fold = fold' ∧ field = field' := by
  have chars := congrArg String.toList h
  simp only [label, String.toList_append, List.append_assoc] at chars
  cases fold <;> cases fold' <;> simp [Fold.group, String.toList_inj] at chars <;> simp [chars]

theorem label_ne_group (fold : Fold) (field : String) :
    label fold.group field ≠ Fold.count.group := by
  intro h
  have chars := congrArg String.toList h
  simp only [label, String.toList_append, List.append_assoc] at chars
  cases fold <;> simp [Fold.group] at chars

/-! ### Groups -/

/-- What a group has under a field: its result in the row, if it is asked for once. -/
def taken (row : Record) (group : String) (names : List String) (field : String) : Option Value :=
  match names.count field with
  | 0 => none
  | 1 => some ((Entries.get? row (label group field)).getD .null)
  | _ => some .null

theorem exists_taken {group field : String} :
    (∃ v, taken row group names field = some v) ↔ field ∈ names := by
  rw [← List.count_pos_iff, taken]
  split
  · next h => simp [h]
  · next h => simp [h]
  · next some _ =>
    have there : 0 < names.count field := Nat.pos_of_ne_zero some
    simp [there]

structure Takes (row : Record) (group : String) (names : List String) (entries : Entries Value) :
    Prop where
  distinct : entries.Distinct
  fields : ∀ field, Entries.get? entries field = taken row group names field

theorem Takes.congr {group : String} {entries : Entries Value}
    (h : Takes row group names entries)
    (same : ∀ field, Entries.get? row' (label group field) = Entries.get? row (label group field)) :
    Takes row' group names entries := by
  refine ⟨h.distinct, fun field => ?_⟩
  rw [h.fields, taken, taken, same]

theorem takeGroup_cons (group field : String) (names : List String) (row : Record) :
    takeGroup group (field :: names) row =
      ((field, (Entries.get? row (label group field)).getD .null) ::
          (takeGroup group names (Entries.erase row (label group field))).1,
        (takeGroup group names (Entries.erase row (label group field))).2) :=
  rfl

theorem get?_takeGroup (fold : Fold) (names : List String) (row : Record) (field : String) :
    Entries.get? (Entries.ofList (takeGroup fold.group names row).1) field =
      taken row fold.group names field := by
  induction names generalizing row with
  | nil => rfl
  | cons name names ih =>
    rw [takeGroup_cons, Entries.get?_ofList_cons, ih]
    by_cases h : field = name
    · subst h
      rw [if_pos rfl, taken, taken, List.count_cons_self, Entries.get?_erase_self]
      -- The result is there for the first of the fields only, and the last one counts.
      match names.count field with
      | 0 | 1 | n + 2 => rfl
    · have other : label fold.group field ≠ label fold.group name :=
        fun same => h (label_injective same).2
      rw [if_neg h, Option.or_none, taken, taken, List.count_cons_of_ne (Ne.symm h),
        Entries.get?_erase_of_ne _ other]

theorem takes_takeGroup (fold : Fold) (names : List String) (row : Record) :
    Takes row fold.group names (Entries.ofList (takeGroup fold.group names row).1) := by
  have empty : Entries.Distinct ([] : Entries Value) := List.nodup_nil
  exact ⟨empty.extend _, get?_takeGroup fold names row⟩

theorem get?_left {group name : String} (other : ∀ field, name ≠ label group field)
    (names : List String) (row : Record) :
    Entries.get? (takeGroup group names row).2 name = Entries.get? row name := by
  induction names generalizing row with
  | nil => rfl
  | cons field names ih =>
    rw [takeGroup_cons, ih, Entries.get?_erase_of_ne _ (other field)]

theorem get?_left_of_ne {fold fold' : Fold} (h : fold ≠ fold') (names : List String) (row : Record)
    (field : String) :
    Entries.get? (takeGroup fold'.group names row).2 (label fold.group field) =
      Entries.get? row (label fold.group field) :=
  get?_left (fun _ same => h (label_injective same).1) names row

/-! ### Nesting -/

theorem names_reshapeFolds (a : Aggregate) (l : List Fold) (row : Record) :
    (reshapeFolds a l row).names =
      (l.filter fun fold => !(a.fieldsOf fold).isEmpty).map Fold.group := by
  induction l generalizing row with
  | nil => rfl
  | cons fold l ih =>
    rw [reshapeFolds]
    cases h : (a.fieldsOf fold).isEmpty with
    | true => simpa [h] using ih row
    | false => simpa [h, Entries.names] using ih _

theorem takes_reshapeFolds {l : List Fold} (distinct : l.Nodup) (row : Record) {fold : Fold}
    (mem : fold ∈ l) (some : a.fieldsOf fold ≠ []) :
    ∃ entries, Entries.get? (reshapeFolds a l row) fold.group = .some (.object entries) ∧
      Takes row fold.group (a.fieldsOf fold) entries := by
  induction l generalizing row with
  | nil => cases mem
  | cons head l ih =>
    obtain ⟨fresh, distinct⟩ := List.nodup_cons.mp distinct
    rw [reshapeFolds]
    rcases List.mem_cons.mp mem with rfl | mem
    · rw [if_neg (by simpa using some)]
      exact ⟨_, List.lookup_cons_self, takes_takeGroup fold _ row⟩
    · have other : fold ≠ head := fun same => fresh (same ▸ mem)
      split
      · exact ih distinct row mem
      · obtain ⟨entries, hget, takes⟩ :=
          ih distinct (takeGroup head.group (a.fieldsOf head) row).2 mem
        refine ⟨entries, ?_, takes.congr fun field => ?_⟩
        · rw [Entries.get?_cons, if_neg fun same => other (Fold.group_injective same)]
          exact hget
        · exact (get?_left_of_ne other _ row field).symm

def requested (a : Aggregate) : Fold → Option (List String)
  | .count =>
    match a.count with
    | some (.fields names) => some names
    | _ => none
  | fold => if (a.fieldsOf fold).isEmpty then none else some (a.fieldsOf fold)

def groups (a : Aggregate) : List String :=
  (if a.count.isSome then [Fold.count.group] else []) ++
    (folds.filter fun fold => !(a.fieldsOf fold).isEmpty).map Fold.group

theorem requested_of_ne_count {fold : Fold} (h : fold ≠ .count)
    (asked : a.requested fold = some names) :
    fold ∈ folds ∧ a.fieldsOf fold = names ∧ names ≠ [] := by
  cases fold with
  | count => exact absurd rfl h
  | _ =>
    unfold requested at asked
    dsimp only at asked
    split at asked
    · cases asked
    · next some =>
      cases asked
      exact ⟨by decide, rfl, by simpa using some⟩

theorem names_reshape (a : Aggregate) (row : Record) : (a.reshape row).names = a.groups := by
  unfold reshape groups
  split
  · next h => simp [h, names_reshapeFolds]
  · next h =>
    rw [h, ← names_reshapeFolds a folds (Entries.erase row Fold.count.group)]
    rfl
  · next fields h =>
    rw [h, ← names_reshapeFolds a folds (takeGroup Fold.count.group fields row).2]
    rfl

theorem get?_reshape_rows (h : a.count = some .rows) (row : Record) :
    Entries.get? (a.reshape row) Fold.count.group =
      some ((Entries.get? row Fold.count.group).getD .null) := by
  rw [reshape, h]
  exact List.lookup_cons_self

/-- Each group of fields has its own results of the row. -/
theorem takes_reshape (row : Record) {fold : Fold} (asked : a.requested fold = some names) :
    ∃ entries, Entries.get? (a.reshape row) fold.group = some (.object entries) ∧
      Takes row fold.group names entries := by
  have distinct : folds.Nodup := by decide
  by_cases h : fold = .count
  · subst h
    rw [requested] at asked
    split at asked
    · next fields hcount =>
      cases asked
      rw [reshape, hcount]
      exact ⟨_, List.lookup_cons_self, takes_takeGroup .count _ row⟩
    · cases asked
  · obtain ⟨mem, rfl, some⟩ := requested_of_ne_count h asked
    have other : fold.group ≠ Fold.count.group := fun same => h (Fold.group_injective same)
    unfold reshape
    split
    · exact takes_reshapeFolds distinct row mem some
    · obtain ⟨entries, hget, takes⟩ :=
        takes_reshapeFolds distinct (Entries.erase row Fold.count.group) mem some
      refine ⟨entries, ?_, takes.congr fun field => ?_⟩
      · rw [Entries.get?_cons, if_neg other]
        exact hget
      · exact (Entries.get?_erase_of_ne _ (label_ne_group fold field)).symm
    · next fields hcount =>
      obtain ⟨entries, hget, takes⟩ :=
        takes_reshapeFolds distinct (takeGroup Fold.count.group fields row).2 mem some
      refine ⟨entries, ?_, takes.congr fun field => ?_⟩
      · dsimp only
        rw [Entries.get?_cons, if_neg other]
        exact hget
      · exact (get?_left_of_ne h fields row field).symm

end Aggregate

end Relata
