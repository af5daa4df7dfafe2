import Mathlib.Data.List.Forall2
import Relata.Proofs.Sql.Clause

/-! # Results read back

A query for results is refused or read as the same results over some rows of the same table,
each under its label, whatever its names are. Only the letters of an argument may have changed
their case.
-/

namespace Relata

open Sql Text

/-- A result that can be written: its label is a name, and so is its argument. -/
structure Measure.IsWritten (m : Measure) : Prop where
  label : PlainName m.label.toList
  free : isReserved m.label.toList = false
  column : ∀ c ∈ m.column, PlainName c.toList

structure Measure.Alike (m m' : Measure) : Prop where
  fold : m'.fold = m.fold
  label : m'.label = m.label
  column : Option.Rel (fun c c' => sameFolded c c' = true) m.column m'.column

theorem Text.sameFolded_refl (s : String) : sameFolded s s = true :=
  sameFolded_iff.mpr rfl

namespace Measure

theorem Alike.refl (m : Measure) : m.Alike m := by
  refine ⟨rfl, rfl, ?_⟩
  cases m.column with
  | none => exact .none
  | some c => exact .some (sameFolded_refl c)

def argumentToken (m : Measure) : Token :=
  match m.column with
  | none => .sign ['*']
  | some c => .word c.toList

def tokens (m : Measure) : List Token :=
  [.word m.fold.keyword.toList, .sign ['('], m.argumentToken, .sign [')'], .word "AS".toList,
    .word m.label.toList]

theorem spells_text {m : Measure} (written : m.IsWritten) : Spells m.text.toList m.tokens := by
  intro rest hrest
  have keyword : PlainName m.fold.keyword.toList := by
    cases m.fold <;> exact isPlainName_iff.mp rfl
  have argument (rest : List Char) : lex ((m.column.getD "*").toList ++ ')' :: rest) =
      m.argumentToken :: .sign [')'] :: lex rest := by
    unfold argumentToken
    cases hc : m.column with
    | none =>
      have star : lex ('*' :: ')' :: rest) = .sign ['*'] :: .sign [')'] :: lex rest := by
        rw [lex_sign _ rfl rfl rfl (by simp [pairs]), lex_close]
      exact star
    | some c =>
      refine (lex_word (written.column c hc) (apart_cons.mpr rfl)).trans ?_
      exact congrArg _ (lex_close rest)
  have chars : m.text.toList ++ rest =
      m.fold.keyword.toList ++ '(' :: ((m.column.getD "*").toList ++ ')' ::
        (' ' :: ("AS".toList ++ ' ' :: (m.label.toList ++ rest)))) := by
    simp only [Measure.text, String.toList_append, List.append_assoc]
    rfl
  rw [chars, lex_word keyword (apart_cons.mpr rfl), lex_open, argument, lex_blank,
    Command.lex_wordBlank rfl, lex_word written.label hrest]
  rfl

end Measure

namespace Sql.Reader

variable {α β : Type} {P : α → Prop} {i j : Input} {ts rest : List Token} {ps : List Scalar}

theorem leaves_operand (cs : List Char) :
    Leaves operand ⟨.word cs :: ts, ps⟩ (fun c => sameFolded (String.ofList cs) c = true)
      ⟨ts, ps⟩ := by
  refine .bind_eq (word?_cons "null") ?_
  cases h : isWord "null" (.word cs) with
  | true =>
    refine .of_eq rfl (sameFolded_iff.mpr ?_)
    rw [String.toList_ofList, beq_iff_eq.mp h]
    rfl
  | false =>
    refine leaves_unless (anyWord?_cons _) ?_ (leaves_unless (anyWord?_cons _) yields_refuse
      (.of_only readsOnly_name (sameFolded_refl _)))
    exact fun i => yields_unfinished _ i

theorem leaves_argument (cs : List Char) :
    Leaves argument ⟨.word cs :: ts, ps⟩ (fun c => sameFolded (String.ofList cs) c = true)
      ⟨ts, ps⟩ := by
  have step : argument ⟨.word cs :: ts, ps⟩ =
      (if isWord "all" (.word cs) || isWord "distinct" (.word cs) then do
        skip
        return String.ofList (Token.word cs).chars
      else if isWord "order" (.word cs) then do
        skip
        refuse
      else operand : Reader String) ⟨.word cs :: ts, ps⟩ := rfl
  unfold Leaves
  rw [step]
  split
  · exact Leaves.of_eq rfl (sameFolded_refl _)
  · split
    · exact Leaves.of_never (yields_bind fun _ => yields_refuse)
    · exact leaves_operand cs

def applied (fold : Fold) (word : String) : Reader Item := do
  let column ← if ← sign? "*" then pure none else some <$> argument
  sign ")"
  let shown := word ++ "(" ++ column.getD "*" ++ ")"
  return .measure ⟨fold, column, ← label shown⟩

theorem item_word (fold : Fold) :
    item ⟨.word fold.keyword.toList :: .sign ['('] :: ts, ps⟩ =
      applied fold fold.keyword ⟨ts, ps⟩ := by
  cases fold <;> rfl

theorem leaves_item {m : Measure} (written : m.IsWritten) :
    Leaves item ⟨m.tokens ++ rest, ps⟩ (fun it => ∃ m', it = .measure m' ∧ m.Alike m')
      ⟨rest, ps⟩ := by
  obtain ⟨fold, column, label⟩ := m
  -- After the argument there is one way to go on.
  have labelled (column' : Option String)
      (alike : Option.Rel (fun c c' => sameFolded c c' = true) column column') :
      Leaves (do
          sign ")"
          let shown := fold.keyword ++ "(" ++ column'.getD "*" ++ ")"
          return Item.measure ⟨fold, column', ← Reader.label shown⟩)
        ⟨.sign [')'] :: .word "AS".toList :: .word label.toList :: rest, ps⟩
        (fun it => ∃ m', it = Item.measure m' ∧ (Measure.mk fold column label).Alike m')
        ⟨rest, ps⟩ := by
    have named : Reader.label (fold.keyword ++ "(" ++ column'.getD "*" ++ ")")
        ⟨.word "AS".toList :: .word label.toList :: rest, ps⟩ = .ok (label, ⟨rest, ps⟩) := by
      rw [Reader.label, bind_of_ok (word?_of_eq rfl), if_pos rfl, name_cons written.free,
        String.ofList_toList]
    refine .bind_eq (sign_cons rfl) (.bind_eq named ?_)
    exact .of_eq rfl ⟨_, rfl, rfl, rfl, alike⟩
  unfold Leaves Measure.tokens
  rw [List.cons_append, List.cons_append, item_word]
  cases column with
  | none =>
    refine Leaves.bind_eq (sign?_of_eq rfl) ?_
    exact Leaves.bind_eq rfl (labelled none .none)
  | some c =>
    refine Leaves.bind_eq (sign?_of_ne (by simp [Measure.argumentToken, isSign])) ?_
    have argued : Leaves (some <$> argument)
        ⟨.word c.toList :: .sign [')'] :: .word "AS".toList :: .word label.toList :: rest, ps⟩
        (fun c' => Option.Rel (fun c c' => sameFolded c c' = true) (some c) c')
        ⟨.sign [')'] :: .word "AS".toList :: .word label.toList :: rest, ps⟩ := by
      have mapped : (some <$> argument : Reader (Option String)) =
        argument >>= fun c => pure (some c) := rfl
      rw [mapped]
      refine .bind (leaves_argument c.toList) fun c' hc' => .of_eq (pure_apply _ _) ?_
      rw [String.ofList_toList] at hc'
      exact .some hc'
    exact Leaves.bind argued fun column' alike => labelled column' alike

theorem leaves_list {item : Reader β} {toks : α → List Token} {R : α → β → Prop} {as : List α}
    (hitem : ∀ a ∈ as, ∀ ts, Leaves item ⟨toks a ++ ts, ps⟩ (R a) ⟨ts, ps⟩)
    (hr : ∀ t ∈ rest.head?, isSign "," t = false) (some : as ≠ []) {fuel : Nat} :
    Leaves (list item fuel) ⟨[Token.sign [',']].intercalate (as.map toks) ++ rest, ps⟩
      (List.Forall₂ R as) ⟨rest, ps⟩ := by
  induction as generalizing fuel with
  | nil => exact absurd rfl some
  | cons a as ih =>
    obtain ⟨ha, has⟩ := List.forall_mem_cons.mp hitem
    cases fuel with
    | zero => exact .of_never yields_refuse
    | succ fuel =>
      cases as with
      | nil =>
        simp only [List.map_singleton, List.intercalate_singleton]
        refine .bind (ha rest) fun b hb => .bind_eq (sign?_of_ne hr) (.of_eq rfl ?_)
        exact .cons hb .nil
      | cons a' as =>
        simp only [List.map_cons, List.intercalate_cons_cons, List.append_assoc,
          List.singleton_append] at ih ⊢
        refine .bind (ha _) fun b hb => .bind_eq (sign?_of_eq rfl) ?_
        refine .bind (ih has (List.cons_ne_nil a' as)) fun bs hbs => .of_eq rfl ?_
        exact .cons hb hbs

end Sql.Reader

namespace Command

open Condition Sql.Reader

variable {table : String} {cs : List Condition} {ms : List Measure}

theorem tokens_results (htable : PlainName table.toList) (plain : ∀ c ∈ cs, Plain c)
    (written : ∀ m ∈ ms, m.IsWritten) :
    tokens (query (.measures ms) table cs [] {}).text =
      .word "SELECT".toList :: ([Token.sign [',']].intercalate (ms.map Measure.tokens) ++
        .word "FROM".toList :: .word table.toList :: clauseTokens cs) := by
  have htext : (query (.measures ms) table cs [] {}).text =
      "SELECT " ++ separated ", " (ms.map Measure.text) ++ " FROM " ++ table ++ whereClause cs ++
        "" ++ "" := rfl
  have hchars (shown clause : String) :
      ("SELECT " ++ shown ++ " FROM " ++ table ++ clause ++ "" ++ "").toList =
        "SELECT".toList ++ ' ' :: (shown.toList ++ ' ' :: ("FROM".toList ++ ' ' ::
          (table.toList ++ clause.toList))) := by
    simp only [String.toList_append, List.append_assoc]
    simp
  have hshown (rest : List Char) := spells_separated lex_comma_blank
    (fun _ => apart_cons.mpr rfl) (fun m hm => Measure.spells_text (written m hm)) (' ' :: rest)
    (apart_cons.mpr rfl)
  rw [tokens_eq, htext, hchars, lex_wordBlank rfl, hshown, lex_blank, lex_wordBlank rfl,
    lex_table htable plain]

theorem exists_measures {items : List Item}
    (h : List.Forall₂ (fun m it => ∃ m', it = Item.measure m' ∧ m.Alike m') ms items) :
    ∃ ms', items = ms'.map Item.measure ∧ List.Forall₂ Measure.Alike ms ms' := by
  induction h with
  | nil => exact ⟨[], rfl, .nil⟩
  | cons item _ ih =>
    obtain ⟨m, rfl, alike⟩ := item
    obtain ⟨ms', rfl, rest⟩ := ih
    exact ⟨m :: ms', rfl, .cons alike rest⟩

theorem projectionOf?_measures (some : ms ≠ []) :
    projectionOf? (ms.map Item.measure) = .some (.measures ms) := by
  have length : 0 ≠ ms.length := Nat.ne_of_lt (List.length_pos_of_ne_nil some)
  simp [projectionOf?, List.filterMap_map, length]

theorem whereClause_tokens {rest : List Token} {more : List Scalar}
    (readable : ∀ c ∈ cs, Readable c)
    (hr : ∀ t ∈ rest.head?, ∀ w ∈ ["where", "and", "or"], isWord w t = false) :
    Reader.whereClause ⟨clauseTokens cs ++ rest, Condition.operandsOfAll cs ++ more⟩ =
      .ok (cs.map Condition.asRead, ⟨rest, more⟩) := by
  have free (w : String) (hw : w ∈ ["where", "and", "or"]) :
      ∀ t ∈ rest.head?, isWord w t = false := fun t ht => hr t ht w hw
  cases hcs : cs.isEmpty with
  | true =>
    obtain rfl := List.isEmpty_iff.mp hcs
    exact bind_of_ok (word?_of_ne (free "where" (by simp)))
  | false =>
    have hne : cs ≠ [] := List.isEmpty_eq_false_iff.mp hcs
    have parts := @disjunction_tokens rest more [cs] (by simp) (by simpa using hne)
      (by simpa using fun c hc => readsBack (readable c hc)) (free "and" (by simp))
      (free "or" (by simp))
      (3 * (Condition.conjunctionTokens cs ++ rest).length + 3) _ takesNames_operand (by simp)
    simp only [List.map_singleton, List.intercalate_singleton, List.flatMap_singleton] at parts
    let r : Reader (List (List Condition)) := fun i =>
      disjunction (3 * i.tokens.length + 3) operand i
    have read : r ⟨Condition.conjunctionTokens cs ++ rest, Condition.operandsOfAll cs ++ more⟩ =
        .ok ([cs.map Condition.asRead], ⟨rest, more⟩) := parts
    rw [clauseTokens, hcs, if_neg Bool.false_ne_true, List.cons_append, Reader.whereClause,
      bind_of_ok (word?_of_eq rfl), if_pos rfl]
    exact bind_of_ok read

theorem whereClause_readable (readable : ∀ c ∈ cs, Readable c) :
    Reader.whereClause ⟨clauseTokens cs, operandsOfAll cs⟩ =
      .ok (cs.map asRead, ⟨[], []⟩) := by
  simpa using @whereClause_tokens cs [] [] readable (by simp)

theorem leaves_projection (some : ms ≠ []) (written : ∀ m ∈ ms, m.IsWritten) {rest : List Token}
    {ps : List Scalar} (hr : ∀ t ∈ rest.head?, isSign "," t = false) :
    Leaves projection ⟨[Token.sign [',']].intercalate (ms.map Measure.tokens) ++ rest, ps⟩
      (fun shown => ∃ ms', shown = .some (ms'.map Item.measure) ∧
        List.Forall₂ Measure.Alike ms ms') ⟨rest, ps⟩ := by
  have star : ∀ t ∈ ([Token.sign [',']].intercalate (ms.map Measure.tokens) ++ rest).head?,
      isSign "*" t = false := by
    obtain ⟨m, ms, rfl⟩ := List.exists_cons_of_ne_nil some
    cases ms <;> simp [Measure.tokens, isSign]
  refine .bind_eq (sign?_of_ne star) ?_
  refine .bind (leaves_list (fun m hm ts => leaves_item (written m hm)) hr some) fun items h => ?_
  obtain ⟨ms', rfl, alike⟩ := exists_measures h
  exact .of_eq (pure_apply _ _) ⟨ms', rfl, alike⟩

theorem results_of_read (named : PlainName table.toList) (plain : ∀ c ∈ cs, Plain c)
    (some : ms ≠ []) (written : ∀ m ∈ ms, m.IsWritten) {k : Command}
    (h : Sql.read (query (.measures ms) table cs [] {}).statement = .ok (.some k)) :
    ∃ ms' cs', k = query (.measures ms') table cs' [] {} ∧ List.Forall₂ Measure.Alike ms ms' ∧
      ((∀ c ∈ cs, Readable c) → cs' = cs.map asRead) := by
  obtain ⟨j, hcommand⟩ := command_of_read h
  rw [statement, tokens_results named plain written, command_select, selection] at hcommand
  obtain ⟨shown, i, hshown, hrest⟩ := bind_ok hcommand
  obtain ⟨⟨ms', rfl, alike⟩, rfl⟩ :=
    leaves_projection some written (by simp [isSign]) shown i hshown
  have some' : ms' ≠ [] := by
    rintro rfl
    cases alike
    exact some rfl
  rw [bind_of_ok (word?_of_eq rfl), if_pos rfl] at hrest
  obtain ⟨name, i, hname, hrest⟩ := bind_ok hrest
  obtain ⟨rfl, rfl⟩ := readsOnly_name _ _ hname
  obtain ⟨cs', i, hclause, hrest⟩ := bind_ok hrest
  obtain ⟨-, rfl⟩ := leaves_whereClause plain cs' i hclause
  have order : orderClause ⟨[], []⟩ = .ok ([], ⟨[], []⟩) := rfl
  have page : pageClause ⟨[], []⟩ = .ok ({}, ⟨[], []⟩) := rfl
  rw [bind_of_ok order, bind_of_ok page] at hrest
  simp only [projectionOf?_measures some', String.ofList_toList] at hrest
  cases hrest
  refine ⟨ms', cs', rfl, alike, fun readable => ?_⟩
  cases (whereClause_readable readable).symm.trans hclause
  rfl

end Command

open Command

namespace Connection

variable {c : Connection} {table : String} {cs : List Condition} {a : Answer}

theorem query_of_runLimited {p : Projection} {order : Order} {page : Page}
    (h : (c.runLimited (.query p table cs order page)).1 = .ok a) :
    c.database.query p table cs order page = .ok a.rows := by
  rw [runLimited] at h
  split at h
  · rw [run, run?] at h
    cases hq : c.database.query p table cs order page with
    | ok rows =>
      rw [hq] at h
      cases h
      rfl
    | error r =>
      rw [hq] at h
      cases h
  · cases h

/-- A query for results that has an answer asks the database for the same results over the rows
that its clause means, which are those that meet its conditions unless a name in them is a
keyword. -/
theorem exists_results {ms : List Measure} (named : PlainName table.toList)
    (plain : ∀ x ∈ cs, Condition.Plain x) (some : ms ≠ []) (written : ∀ m ∈ ms, m.IsWritten)
    (h : (c.execute (query (.measures ms) table cs [] {})).1 = .ok a) :
    ∃ ms' cs', List.Forall₂ Measure.Alike ms ms' ∧
      ((∀ x ∈ cs, Condition.Readable x) → ∀ f row,
        Condition.selects f cs' row = Condition.selects f cs row) ∧
      c.database.query (.measures ms') table cs' [] {} = .ok a.rows := by
  rcases free_or_read rfl h with free | ⟨name, hname, keyword, k, read⟩
  · rw [execute_of_free free] at h
    refine ⟨ms, cs, ?_, fun _ _ _ => rfl, query_of_runLimited h⟩
    exact List.forall₂_same.mpr fun m _ => .refl m
  · obtain ⟨ms', cs', rfl, alike, same⟩ := results_of_read named plain some written read
    rw [execute_of_read hname keyword read] at h
    refine ⟨ms', cs', alike, fun readable f row => ?_, query_of_runLimited h⟩
    rw [same readable, Condition.selects, Condition.selects, Condition.all_truths,
      Condition.all_truths, Condition.conjunctionTruth_map f row fun c _ =>
        Condition.truth_asRead f row c]

end Connection

end Relata
