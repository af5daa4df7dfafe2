import Relata.Proofs.Sql.Reader
import Relata.Proofs.Sql.Spelling

/-! # Conditions read back

A written conjunction is read as one that is as true on every row, with each operand at
its mark. `AND` binds tighter than `OR`, so the parts of a group need no parentheses of
their own, and the group needs them.
-/

namespace Relata

open Sql

namespace Condition

mutual

/-- What the text of a condition is read as: conjunctions of a conjunction become one. -/
def asRead : Condition → Condition
  | group .and parts => Reader.grouped [(asReadParts parts).flatten]
  | group .or parts => Reader.grouped (asReadParts parts)
  | c => c

def asReadEach : List Condition → List Condition
  | [] => []
  | c :: cs => asRead c :: asReadEach cs

def asReadParts : List (List Condition) → List (List Condition)
  | [] => []
  | part :: parts => asReadEach part :: asReadParts parts

end

theorem asReadEach_eq (cs : List Condition) : asReadEach cs = cs.map asRead := by
  induction cs with
  | nil => rfl
  | cons c cs ih => rw [asReadEach, ih, List.map_cons]

theorem asReadParts_eq (parts : List (List Condition)) :
    asReadParts parts = parts.map (List.map asRead) := by
  induction parts with
  | nil => rfl
  | cons part parts ih => rw [asReadParts, ih, asReadEach_eq, List.map_cons]

theorem truth_grouped (f : Frame) (row : Row) (parts : List (List Condition)) :
    truth f row (Reader.grouped parts) = Truth.any (parts.map (conjunctionTruth f row)) := by
  match parts with
  | [] => rw [Reader.grouped, truth, partTruths_eq]; simp
  | [part] =>
    rw [Reader.grouped, truth, partTruths_eq]
    simp only [List.map_cons, List.map_nil, Truth.all_singleton, Truth.any_singleton]
  | _ :: _ :: _ => rw [Reader.grouped, truth, partTruths_eq]; simp

/-- A condition means what its text is read as. -/
theorem truth_asRead (f : Frame) (row : Row) (c : Condition) :
    truth f row (asRead c) = truth f row c := by
  induction c using Condition.induction with
  | group c parts ih =>
    have hparts : ∀ part ∈ parts,
        conjunctionTruth f row (part.map asRead) = conjunctionTruth f row part :=
      fun part hp => conjunctionTruth_map f row (ih part hp)
    cases c with
    | and =>
      rw [asRead, truth_grouped, List.map_singleton, Truth.any_singleton, asReadParts_eq,
        conjunctionTruth_flatten, List.map_map, truth, partTruths_eq]
      exact congrArg Truth.all (List.map_congr_left hparts)
    | or =>
      rw [asRead, truth_grouped, asReadParts_eq, List.map_map, truth, partTruths_eq]
      exact congrArg Truth.any (List.map_congr_left hparts)
  | _ => rfl

end Condition

namespace Sql.Reader

open Condition

def TakesNames (first : Reader String) : Prop :=
  ∀ cs ts ps, isKeyword cs = false → first ⟨.word cs :: ts, ps⟩ = .ok (String.ofList cs, ⟨ts, ps⟩)

theorem takesNames_operand : TakesNames operand :=
  fun _ _ _ h => operand_cons h

theorem takesNames_openedOperand : TakesNames openedOperand :=
  fun _ _ _ h => openedOperand_cons h

/-- A condition of which the tokens are read back, whatever follows them. The fuel is
bounded by the tokens that are left. -/
def ReadsBack (c : Condition) : Prop :=
  ∀ (fuel : Nat) (first : Reader String) (rest : List Token) (more : List Scalar),
    TakesNames first → 3 * (c.tokens ++ rest).length ≤ fuel + 1 →
      primary fuel first ⟨c.tokens ++ rest, c.operands ++ more⟩ = .ok (c.asRead, ⟨rest, more⟩)

variable {rest : List Token} {more : List Scalar}

theorem predicate_isNull (column : String) :
    predicate column ⟨.word ['I', 'S'] :: .word ['N', 'U', 'L', 'L'] :: rest, more⟩ =
      .ok (.isNull column, ⟨rest, more⟩) :=
  rfl

theorem predicate_notNull (column : String) :
    predicate column ⟨.word ['I', 'S'] :: .word ['N', 'O', 'T'] ::
        .word ['N', 'U', 'L', 'L'] :: rest, more⟩ =
      .ok (.notNull column, ⟨rest, more⟩) :=
  rfl

theorem predicate_like (column pattern : String) :
    predicate column ⟨.word ['L', 'I', 'K', 'E'] :: .sign ['?'] :: rest, .text pattern :: more⟩ =
      .ok (.like column pattern, ⟨rest, more⟩) :=
  rfl

theorem predicate_compare (column : String) (how : Comparison) (operand : Scalar) :
    predicate column ⟨how.token :: .sign ['?'] :: rest, operand :: more⟩ =
      .ok (.compare column how operand, ⟨rest, more⟩) := by
  cases how <;> rfl

theorem listOf_mark {operands : List Scalar} (ho : operands ≠ []) :
    listOf mark ⟨[Token.sign [',']].intercalate
        (List.replicate operands.length [.sign ['?']]) ++ .sign [')'] :: rest, operands ++ more⟩ =
      .ok (operands, ⟨.sign [')'] :: rest, more⟩) := by
  have := @listOf_items _ mark (fun _ => [.sign ['?']]) (fun s => [s]) operands ho (by simp)
    (fun s _ _ _ => mark_cons s) (.sign [')'] :: rest) more (by simp [isSign])
  simpa using this

theorem listed_marks (f : List Scalar → Condition) {operands : List Scalar} (ho : operands ≠ []) :
    (do
      let operands ← listOf mark
      sign ")"
      return f operands : Reader Condition)
        ⟨[Token.sign [',']].intercalate (List.replicate operands.length [.sign ['?']]) ++
          [.sign [')']] ++ rest, operands ++ more⟩ = .ok (f operands, ⟨rest, more⟩) := by
  rw [List.append_assoc, List.singleton_append, bind_of_ok (listOf_mark ho),
    bind_of_ok (sign_cons rfl)]
  rfl

theorem predicate_among (column : String) {operands : List Scalar} (ho : operands ≠ []) :
    predicate column ⟨.word ['I', 'N'] :: (markTokens operands.length ++ rest), operands ++ more⟩ =
      .ok (.among column operands, ⟨rest, more⟩) :=
  listed_marks (.among column) ho

theorem predicate_outside (column : String) {operands : List Scalar} (ho : operands ≠ []) :
    predicate column ⟨.word ['N', 'O', 'T'] :: .word ['I', 'N'] ::
        (markTokens operands.length ++ rest), operands ++ more⟩ =
      .ok (.outside column operands, ⟨rest, more⟩) :=
  listed_marks (.outside column) ho

/-- A condition that begins with a name is read by what follows the name. -/
theorem primary_of_predicate {column : String} (name : IsName column) {fuel : Nat}
    {first : Reader String} (hf : TakesNames first) {ts : List Token} {ps : List Scalar}
    {c : Condition} (h : predicate column ⟨ts, ps⟩ = .ok (c, ⟨rest, more⟩)) :
    primary (fuel + 1) first ⟨.word column.toList :: ts, ps⟩ = .ok (c, ⟨rest, more⟩) := by
  have : primary (fuel + 1) first ⟨.word column.toList :: ts, ps⟩ =
      (first >>= predicate) ⟨.word column.toList :: ts, ps⟩ := rfl
  rw [this, bind_of_ok (hf _ _ _ name.free), String.ofList_toList]
  exact h

theorem conjunction_tokens {cs : List Condition} (hne : cs ≠ []) (h : ∀ c ∈ cs, ReadsBack c)
    (hr : ∀ t ∈ rest.head?, isWord "and" t = false) {n : Nat} {first : Reader String}
    (hf : TakesNames first) (hfuel : 3 * (conjunctionTokens cs ++ rest).length ≤ n) :
    conjunction n first ⟨conjunctionTokens cs ++ rest, cs.flatMap operands ++ more⟩ =
      .ok (cs.map asRead, ⟨rest, more⟩) := by
  induction cs generalizing n first with
  | nil => exact absurd rfl hne
  | cons c cs ih =>
    obtain ⟨hc, hcs⟩ := List.forall_mem_cons.mp h
    have hpos := two_le_length_tokens c
    cases cs with
    | nil =>
      simp only [conjunctionTokens, List.map_singleton, List.intercalate_singleton,
        List.flatMap_singleton] at hfuel ⊢
      obtain ⟨k, rfl⟩ : ∃ k, n = k + 1 :=
        ⟨n - 1, by simp only [List.length_append] at hfuel; omega⟩
      rw [conjunction, bind_of_ok (hc k first rest more hf (by omega)),
        bind_of_ok (word?_of_ne hr)]
      rfl
    | cons d cs =>
      simp only [conjunctionTokens, List.map_cons, List.intercalate_cons_cons,
        List.append_assoc, List.nil_append, List.cons_append, List.flatMap_cons] at hfuel ⊢
      obtain ⟨k, rfl⟩ : ∃ k, n = k + 1 :=
        ⟨n - 1, by simp only [List.length_append] at hfuel; omega⟩
      have hrest := ih (by simp) hcs takesNames_operand (n := k) (by
        simp only [conjunctionTokens, List.map_cons, List.length_append,
          List.length_cons] at hfuel ⊢
        omega)
      simp only [conjunctionTokens, List.map_cons, List.flatMap_cons, List.append_assoc] at hrest
      rw [conjunction, bind_of_ok (hc k first _ _ hf (by omega)),
        bind_of_ok (word?_of_eq rfl), if_pos rfl, bind_of_ok hrest]
      rfl

theorem disjunction_tokens {parts : List (List Condition)} (hne : parts ≠ [])
    (full : ∀ part ∈ parts, part ≠ []) (h : ∀ part ∈ parts, ∀ c ∈ part, ReadsBack c)
    (hand : ∀ t ∈ rest.head?, isWord "and" t = false)
    (hor : ∀ t ∈ rest.head?, isWord "or" t = false) {n : Nat} {first : Reader String}
    (hf : TakesNames first)
    (hfuel :
      3 * ([Connective.or.token].intercalate (parts.map conjunctionTokens) ++ rest).length + 1 ≤
        n) :
    disjunction n first
        ⟨[Connective.or.token].intercalate (parts.map conjunctionTokens) ++ rest,
          parts.flatMap operandsOfAll ++ more⟩ =
      .ok (parts.map (List.map asRead), ⟨rest, more⟩) := by
  induction parts generalizing n first with
  | nil => exact absurd rfl hne
  | cons part parts ih =>
    obtain ⟨hp, hps⟩ := List.forall_mem_cons.mp h
    obtain ⟨fp, fps⟩ := List.forall_mem_cons.mp full
    obtain ⟨k, rfl⟩ : ∃ k, n = k + 1 := ⟨n - 1, by omega⟩
    cases parts with
    | nil =>
      simp only [List.map_singleton, List.intercalate_singleton, List.flatMap_singleton,
        operandsOfAll_eq] at hfuel ⊢
      rw [disjunction, bind_of_ok (conjunction_tokens fp hp hand hf (by omega)),
        bind_of_ok (word?_of_ne hor)]
      rfl
    | cons other parts =>
      simp only [List.map_cons, List.intercalate_cons_cons, List.append_assoc,
        List.nil_append, List.cons_append, List.flatMap_cons] at hfuel ⊢
      have hrest := ih (by simp) fps hps takesNames_operand (n := k) (by
        simp only [List.map_cons, List.length_append, List.length_cons] at hfuel ⊢
        omega)
      simp only [List.map_cons, List.flatMap_cons, List.append_assoc] at hrest
      rw [operandsOfAll_eq, disjunction,
        bind_of_ok (conjunction_tokens fp hp (by simp [isWord, Connective.token]) hf (by omega)),
        bind_of_ok (word?_of_eq rfl), if_pos rfl, bind_of_ok hrest]
      rfl

theorem primary_group {parts : List (List Condition)} {ts : List Token} {ps : List Scalar}
    {fuel : Nat} {first : Reader String}
    (h : disjunction fuel openedOperand ⟨ts ++ .sign [')'] :: rest, ps ++ more⟩ =
      .ok (parts, ⟨.sign [')'] :: rest, more⟩)) :
    primary (fuel + 1) first ⟨.sign ['('] :: (ts ++ .sign [')'] :: rest), ps ++ more⟩ =
      .ok (grouped parts, ⟨rest, more⟩) := by
  rw [primary, bind_of_ok (sign?_of_eq rfl), if_pos rfl, bind_of_ok h, bind_of_ok (sign_cons rfl)]
  rfl

theorem readsBack_of_succ {c : Condition}
    (h : ∀ (n : Nat) (first : Reader String) (rest : List Token) (more : List Scalar),
      TakesNames first → 3 * (c.tokens ++ rest).length ≤ n + 2 →
        primary (n + 1) first ⟨c.tokens ++ rest, c.operands ++ more⟩ =
          .ok (c.asRead, ⟨rest, more⟩)) : ReadsBack c := by
  intro fuel first rest more hf hfuel
  have := two_le_length_tokens c
  obtain ⟨n, rfl⟩ : ∃ n, fuel = n + 1 :=
    ⟨fuel - 1, by simp only [List.length_append] at hfuel; omega⟩
  exact h n first rest more hf hfuel

/-- Every condition whose names can stand in an expression is read back. -/
theorem readsBack {c : Condition} (hc : Readable c) : ReadsBack c := by
  induction c using Condition.induction with
  | constant holds => exact readsBack_of_succ fun n first rest more hf _ => by cases holds <;> rfl
  | isNull column =>
    cases hc with | isNull name =>
    exact readsBack_of_succ fun n first rest more hf _ =>
      primary_of_predicate name hf (predicate_isNull column)
  | notNull column =>
    cases hc with | notNull name =>
    exact readsBack_of_succ fun n first rest more hf _ =>
      primary_of_predicate name hf (predicate_notNull column)
  | compare column how operand =>
    cases hc with | compare name =>
    exact readsBack_of_succ fun n first rest more hf _ =>
      primary_of_predicate name hf (predicate_compare column how operand)
  | among column operands =>
    cases hc with | among name some =>
    exact readsBack_of_succ fun n first rest more hf _ =>
      primary_of_predicate name hf (predicate_among column some)
  | outside column operands =>
    cases hc with | outside name some =>
    exact readsBack_of_succ fun n first rest more hf _ =>
      primary_of_predicate name hf (predicate_outside column some)
  | like column pattern =>
    cases hc with | like name =>
    exact readsBack_of_succ fun n first rest more hf _ =>
      primary_of_predicate name hf (predicate_like column pattern)
  | group c parts ih =>
    cases hc with | group some full inner =>
    have hin : ∀ part ∈ parts, ∀ d ∈ part, ReadsBack d :=
      fun part hp d hd => ih part hp d hd (inner part hp d hd)
    refine readsBack_of_succ fun n first rest more hf hfuel => ?_
    rw [Condition.tokens, tokensOfParts_eq, List.cons_append, List.append_assoc,
      List.singleton_append] at hfuel ⊢
    rw [operands, operandsOfParts_eq]
    cases c with
    | and =>
      -- Between the parentheses there is a single conjunction, that of all parts.
      rw [intercalate_conjunctionTokens full] at hfuel ⊢
      rw [asRead, asReadParts_eq, ← List.map_flatten]
      have hne := flatten_ne_nil some full
      have hd := @disjunction_tokens (.sign [')'] :: rest) more [parts.flatten] (by simp)
        (by simpa using hne) (by simpa using fun d part hp hd => hin part hp d hd)
        (by simp [isWord]) (by simp [isWord]) n _ takesNames_openedOperand (by
          simp only [List.map_singleton, List.intercalate_singleton, List.length_cons,
            List.length_append] at hfuel ⊢
          omega)
      simp only [List.map_singleton, List.intercalate_singleton, List.flatMap_singleton,
        operandsOfAll_eq] at hd
      rw [← operandsOfAll_eq, operandsOfAll_flatten] at hd
      exact primary_group hd
    | or =>
      rw [asRead, asReadParts_eq]
      exact primary_group (disjunction_tokens some full hin (by simp [isWord]) (by simp [isWord])
        takesNames_openedOperand (by
          simp only [List.length_cons, List.length_append] at hfuel ⊢
          omega))

/-- The text of a conjunction is read as a whole, and each operand is taken at its mark. -/
theorem expression_conjunctionText {cs : List Condition} (hne : cs ≠ [])
    (h : ∀ c ∈ cs, Readable c) :
    expression ⟨Sql.tokens (conjunctionText cs), operandsOfAll cs⟩ =
      .ok (cs.map asRead, ⟨[], []⟩) := by
  have hd := @disjunction_tokens [] [] [cs] (by simp) (by simpa using hne)
    (by simpa using fun c hc => readsBack (h c hc)) (by simp) (by simp)
    (3 * (conjunctionTokens cs).length + 3) _ takesNames_operand (by simp)
  simp only [List.map_singleton, List.intercalate_singleton, List.flatMap_singleton,
    List.append_nil] at hd
  rw [tokens_conjunctionText fun c hc => (h c hc).isPlain, expression]
  let r : Reader (List (List Condition)) := fun i =>
    disjunction (3 * i.tokens.length + 3) operand i
  have hr : r ⟨conjunctionTokens cs, operandsOfAll cs⟩ = .ok ([cs.map asRead], ⟨[], []⟩) := hd
  exact bind_of_ok hr

end Sql.Reader

end Relata
