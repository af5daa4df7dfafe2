import Relata.Store.Frame

/-! # Conditions and their parts

What is defined of a condition part by part is a map over its parts, and what holds
of a group whenever it holds of its parts holds of every condition. Truth is carried
through groups: a conjunction of conjunctions is one conjunction.
-/

namespace Relata

namespace Truth

theorem and_assoc (r s t : Truth) : (r.and s).and t = r.and (s.and t) := by
  rcases r with _ | _ | _ <;> rcases s with _ | _ | _ <;> rcases t with _ | _ | _ <;> rfl

theorem and_true (t : Truth) : t.and (some true) = t := by
  rcases t with _ | _ | _ <;> rfl

theorem true_and (t : Truth) : Truth.and (some true) t = t := by
  rcases t with _ | _ | _ <;> rfl

theorem or_false (t : Truth) : t.or (some false) = t := by
  rcases t with _ | _ | _ <;> rfl

theorem all_cons (t : Truth) (ts : List Truth) : all (t :: ts) = t.and (all ts) :=
  rfl

theorem all_singleton (t : Truth) : all [t] = t :=
  and_true t

theorem any_singleton (t : Truth) : any [t] = t :=
  or_false t

theorem all_append (ss ts : List Truth) : all (ss ++ ts) = (all ss).and (all ts) := by
  induction ss with
  | nil => exact (true_and _).symm
  | cons s ss ih => rw [List.cons_append, all_cons, all_cons, ih, and_assoc]

theorem all_flatten (tss : List (List Truth)) : all tss.flatten = all (tss.map all) := by
  induction tss with
  | nil => rfl
  | cons ts tss ih => rw [List.flatten_cons, all_append, ih, List.map_cons, all_cons]

end Truth

/-! ### Names -/

theorem Definition.cell_of_index? {d : Definition} {name : String} {i : Nat}
    (h : d.index? name = some i) (row : Row) : d.cell row name = row.cells.getD i .null := by
  rw [cell, h]

namespace Frame

variable {f : Frame} {name : String}

theorem constant?_key (now : String) : constant? now Record.key = none :=
  rfl

section

variable (free : constant? f.now name = none)

include free

theorem scalar_of_index? {i : Nat} (h : f.definition.index? name = some i) (row : Row) :
    f.scalar row name = row.cells.getD i .null := by
  rw [scalar, meaning?, free, h]

theorem affinity_of_index? {i : Nat} (h : f.definition.index? name = some i) :
    f.affinity name = (f.definition.columns[i]?.map Column.affinity).getD .none := by
  rw [affinity, meaning?, free, h]

theorem scalar_of_isNumber (hindex : f.definition.index? name = none)
    (hnumber : f.definition.isNumber name = true) (row : Row) :
    f.scalar row name = .integer (Int64.ofInt row.number) := by
  rw [scalar, meaning?, free, hindex]
  simp only [if_pos hnumber]

theorem affinity_of_isNumber (hindex : f.definition.index? name = none)
    (hnumber : f.definition.isNumber name = true) : f.affinity name = .integer := by
  rw [affinity, meaning?, free, hindex]
  simp only [if_pos hnumber]

/-- A name that stands for no place of a row means the same in every row. -/
theorem scalar_of_no_place (hindex : f.definition.index? name = none)
    (hnumber : f.definition.isNumber name = false) (row row' : Row) :
    f.scalar row name = f.scalar row' name := by
  rw [scalar, scalar, meaning?, free, hindex]
  simp only [hnumber, Bool.false_eq_true, if_false]
  cases truth? name <;> rfl

end

/-- A constant is the same in every row, whatever columns there are. -/
theorem scalar_of_constant? {s : Scalar} (h : constant? f.now name = some s) (row : Row) :
    f.scalar row name = s := by
  rw [scalar, meaning?, h]

end Frame

namespace Condition

@[elab_as_elim]
theorem induction {P : Condition → Prop} (constant : ∀ holds, P (.constant holds))
    (isNull : ∀ column, P (.isNull column)) (notNull : ∀ column, P (.notNull column))
    (compare : ∀ column how operand, P (.compare column how operand))
    (among : ∀ column operands, P (.among column operands))
    (outside : ∀ column operands, P (.outside column operands))
    (like : ∀ column pattern, P (.like column pattern))
    (group : ∀ c parts, (∀ part ∈ parts, ∀ d ∈ part, P d) → P (.group c parts))
    (c : Condition) : P c := by
  refine @Condition.rec P (fun parts => ∀ part ∈ parts, ∀ d ∈ part, P d)
    (fun part => ∀ d ∈ part, P d) constant isNull notNull compare among outside like
    group ?_ ?_ ?_ ?_ c
  · simp
  · intro part parts hpart hparts
    exact List.forall_mem_cons.mpr ⟨hpart, hparts⟩
  · simp
  · intro d part hd hpart
    exact List.forall_mem_cons.mpr ⟨hd, hpart⟩

theorem texts_eq (cs : List Condition) : texts cs = cs.map text := by
  induction cs with
  | nil => rfl
  | cons c cs ih => rw [texts, ih, List.map_cons]

theorem partTexts_eq (parts : List (List Condition)) :
    partTexts parts = parts.map conjunctionText := by
  induction parts with
  | nil => rfl
  | cons part parts ih => rw [partTexts, ih, List.map_cons, conjunctionText]

theorem isEmpty_texts (cs : List Condition) : (texts cs).isEmpty = cs.isEmpty := by
  rw [texts_eq, List.isEmpty_map]

theorem isEmpty_partTexts (parts : List (List Condition)) :
    (partTexts parts).isEmpty = parts.isEmpty := by
  rw [partTexts_eq, List.isEmpty_map]

theorem operandsOfAll_eq (cs : List Condition) : operandsOfAll cs = cs.flatMap operands := by
  induction cs with
  | nil => rfl
  | cons c cs ih => rw [operandsOfAll, ih, List.flatMap_cons]

theorem operandsOfParts_eq (parts : List (List Condition)) :
    operandsOfParts parts = parts.flatMap operandsOfAll := by
  induction parts with
  | nil => rfl
  | cons part parts ih => rw [operandsOfParts, ih, List.flatMap_cons]

theorem operandsOfAll_flatten (parts : List (List Condition)) :
    operandsOfAll parts.flatten = parts.flatMap operandsOfAll := by
  induction parts with
  | nil => rfl
  | cons part parts ih =>
    rw [operandsOfAll_eq] at ih ⊢
    rw [List.flatten_cons, List.flatMap_append, ih, List.flatMap_cons, operandsOfAll_eq part]

variable (f : Frame) (row : Row)

theorem truths_eq (cs : List Condition) : truths f row cs = cs.map (truth f row) := by
  induction cs with
  | nil => rfl
  | cons c cs ih => rw [truths, ih, List.map_cons]

def conjunctionTruth (cs : List Condition) : Truth :=
  Truth.all (cs.map (truth f row))

theorem all_truths (cs : List Condition) :
    Truth.all (truths f row cs) = conjunctionTruth f row cs := by
  rw [truths_eq, conjunctionTruth]

theorem partTruths_eq (parts : List (List Condition)) :
    partTruths f row parts = parts.map (conjunctionTruth f row) := by
  induction parts with
  | nil => rfl
  | cons part parts ih => rw [partTruths, ih, List.map_cons, all_truths]

theorem conjunctionTruth_append (cs ds : List Condition) :
    conjunctionTruth f row (cs ++ ds) =
      (conjunctionTruth f row cs).and (conjunctionTruth f row ds) := by
  rw [conjunctionTruth, List.map_append, Truth.all_append, conjunctionTruth, conjunctionTruth]

theorem conjunctionTruth_flatten (parts : List (List Condition)) :
    conjunctionTruth f row parts.flatten = Truth.all (parts.map (conjunctionTruth f row)) := by
  rw [conjunctionTruth, List.map_flatten, Truth.all_flatten, List.map_map]
  rfl

theorem conjunctionTruth_map {g : Condition → Condition} {cs : List Condition}
    (h : ∀ c ∈ cs, truth f row (g c) = truth f row c) :
    conjunctionTruth f row (cs.map g) = conjunctionTruth f row cs := by
  rw [conjunctionTruth, List.map_map, conjunctionTruth]
  exact congrArg Truth.all (List.map_congr_left h)

end Condition

end Relata
