import Relata.Proofs.Sql.Commands
import Relata.Script.Site

/-! # Clauses of conditions

The statements that show, count, change and remove rows say which rows they mean by the same
clause. If one of them is read at all, the clause is read up to its end, and so it is in the
others: they mean the same conditions, even where a name in them is a keyword.
-/

namespace Relata

open Sql Text

namespace Sql.Reader

variable {α β : Type} {i j k : Input} {P : α → Prop} {ts rest : List Token}
  {ps more : List Scalar}

/-- A reader that leaves nothing else here and gets something of a kind, if it gets anything. -/
def Leaves (x : Reader α) (i : Input) (P : α → Prop) (j : Input) : Prop :=
  ∀ a k, x i = .ok (a, k) → P a ∧ k = j

namespace Leaves

theorem of_eq {x : Reader α} {a : α} (h : x i = .ok (a, j)) (ha : P a) : Leaves x i P j := by
  intro b k hb
  rw [h] at hb
  cases hb
  exact ⟨ha, rfl⟩

theorem of_only {x : Reader α} {a : α} (h : ReadsOnly x i a j) (ha : P a) : Leaves x i P j := by
  intro b k hb
  obtain ⟨rfl, rfl⟩ := h b k hb
  exact ⟨ha, rfl⟩

theorem of_never {x : Reader α} (h : Yields (fun _ => False) x) : Leaves x i P j :=
  fun a k hx => (h i a k hx).elim

theorem bind {Q : β → Prop} {x : Reader β} {f : β → Reader α} (first : Leaves x i Q j)
    (next : ∀ b, Q b → Leaves (f b) j P k) : Leaves (x >>= f) i P k := by
  intro a l h
  obtain ⟨b, j', hx, hf⟩ := bind_ok h
  obtain ⟨hb, rfl⟩ := first b j' hx
  exact next b hb a l hf

theorem bind_eq {x : Reader β} {f : β → Reader α} {b : β} (first : x i = .ok (b, j))
    (next : Leaves (f b) j P k) : Leaves (x >>= f) i P k := by
  intro a l h
  rw [bind_of_ok first] at h
  exact next a l h

end Leaves

/-! ## Words -/

theorem isReserved_of_name {cs : List Char} {n : String}
    (h : name ⟨.word cs :: ts, ps⟩ = .ok (n, i)) : isReserved cs = false := by
  by_contra hreserved
  have hname : name ⟨.word cs :: ts, ps⟩ = (if isReserved cs then refuse
    else do skip; return String.ofList cs : Reader String) ⟨.word cs :: ts, ps⟩ := rfl
  rw [hname, if_pos (by simpa using hreserved)] at h
  exact (yields_refuse (P := fun _ => False) _ _ _ h).elim

theorem yields_unfinished (fuel : Nat) : Yields (fun _ : α => False) (unfinished fuel) := by
  induction fuel with
  | zero => exact yields_refuse
  | succ fuel ih =>
    exact yields_bind fun _ => yields_ite ih (yields_bind fun _ => yields_refuse)

/-- A reader of the word that an expression begins with: it takes that word and no more. -/
def TakesWord (first : Reader String) : Prop :=
  ∀ cs ts ps, Leaves first ⟨.word cs :: ts, ps⟩ (fun _ => True) ⟨ts, ps⟩

/-- A word that makes the rest unreadable, or is left to another reader. -/
theorem leaves_unless {w : Bool} {t : Token} {never other : Reader α} {look : Reader Bool}
    (hlook : look ⟨t :: ts, ps⟩ = .ok (w, ⟨if w then ts else t :: ts, ps⟩))
    (hnever : Yields (fun _ => False) never) (hother : Leaves other ⟨t :: ts, ps⟩ P ⟨ts, ps⟩) :
    Leaves (do if ← look then never else other) ⟨t :: ts, ps⟩ P ⟨ts, ps⟩ := by
  refine .bind_eq hlook ?_
  cases w with
  | true => exact .of_never hnever
  | false => exact hother

theorem takesWord_operand : TakesWord operand := by
  intro cs ts ps
  refine .bind_eq (word?_cons "null") ?_
  cases isWord "null" (.word cs) with
  | true => exact .of_eq rfl trivial
  | false =>
    refine leaves_unless (anyWord?_cons _) ?_ (leaves_unless (anyWord?_cons _) yields_refuse
      (.of_only readsOnly_name trivial))
    exact fun i => yields_unfinished _ i

theorem takesWord_openedOperand : TakesWord openedOperand := by
  intro cs ts ps
  refine leaves_unless (word?_cons _) (fun i => yields_unfinished _ i) ?_
  refine leaves_unless (word?_cons _) (yields_bind fun _ => yields_refuse) ?_
  exact leaves_unless (word?_cons _) yields_refuse (takesWord_operand cs ts ps)

/-! ## Conditions -/

open Condition

/-- A condition of which no token and no operand is left, whatever follows them. -/
def LeavesRest (c : Condition) : Prop :=
  ∀ (fuel : Nat) (first : Reader String) (rest : List Token) (more : List Scalar),
    TakesWord first →
      Leaves (primary fuel first) ⟨c.tokens ++ rest, c.operands ++ more⟩
        (fun c' => c'.operands = c.operands) ⟨rest, more⟩

theorem leavesRest_of_succ {c : Condition}
    (h : ∀ (fuel : Nat) (first : Reader String) (rest : List Token) (more : List Scalar),
      TakesWord first →
        Leaves (primary (fuel + 1) first) ⟨c.tokens ++ rest, c.operands ++ more⟩
          (fun c' => c'.operands = c.operands) ⟨rest, more⟩) : LeavesRest c := by
  intro fuel first rest more takes
  cases fuel with
  | zero => exact .of_never yields_refuse
  | succ fuel => exact h fuel first rest more takes

/-- Where whatever the first word is taken for is tested, the test is read to its end. -/
theorem leavesRest_of_predicate {column : String} {c : Condition} {ts : List Token}
    (htokens : c.tokens = .word column.toList :: ts)
    (h : ∀ name rest more, ∃ c', c'.operands = c.operands ∧
      predicate name ⟨ts ++ rest, c.operands ++ more⟩ = .ok (c', ⟨rest, more⟩)) :
    LeavesRest c := by
  refine leavesRest_of_succ fun fuel first rest more takes => ?_
  rw [htokens]
  have hpredicate : Leaves (first >>= predicate)
      ⟨.word column.toList :: (ts ++ rest), c.operands ++ more⟩
      (fun c' => c'.operands = c.operands) ⟨rest, more⟩ := by
    refine .bind (takes _ _ _) fun name _ => ?_
    obtain ⟨c', hoperands, hread⟩ := h name rest more
    exact .of_eq hread hoperands
  exact hpredicate

theorem leaves_conjunction {cs : List Condition} (hne : cs ≠ []) (h : ∀ c ∈ cs, LeavesRest c)
    (hr : ∀ t ∈ rest.head?, isWord "and" t = false) {fuel : Nat} {first : Reader String}
    (takes : TakesWord first) :
    Leaves (conjunction fuel first) ⟨conjunctionTokens cs ++ rest, cs.flatMap operands ++ more⟩
      (fun cs' => cs'.flatMap operands = cs.flatMap operands) ⟨rest, more⟩ := by
  induction cs generalizing fuel first with
  | nil => exact absurd rfl hne
  | cons c cs ih =>
    obtain ⟨hc, hcs⟩ := List.forall_mem_cons.mp h
    cases fuel with
    | zero => exact .of_never yields_refuse
    | succ fuel =>
      cases cs with
      | nil =>
        simp only [conjunctionTokens, List.map_singleton, List.intercalate_singleton,
          List.flatMap_singleton]
        refine .bind (hc fuel first rest more takes) fun c' hc' => ?_
        exact .bind_eq (word?_of_ne hr) (.of_eq rfl (by simpa using hc'))
      | cons d cs =>
        simp only [conjunctionTokens, List.map_cons, List.intercalate_cons_cons,
          List.append_assoc, List.nil_append, List.cons_append, List.flatMap_cons]
        refine .bind (hc fuel first _ _ takes) fun c' hc' => ?_
        refine .bind_eq (word?_of_eq rfl) ?_
        have hrest := @ih (by simp) hcs fuel _ takesWord_operand
        simp only [conjunctionTokens, List.map_cons, List.flatMap_cons,
          List.append_assoc] at hrest
        exact .bind hrest fun cs' hcs' => .of_eq rfl (by simp [hc', hcs'])

theorem leaves_disjunction {parts : List (List Condition)} (hne : parts ≠ [])
    (full : ∀ part ∈ parts, part ≠ []) (h : ∀ part ∈ parts, ∀ c ∈ part, LeavesRest c)
    (hand : ∀ t ∈ rest.head?, isWord "and" t = false)
    (hor : ∀ t ∈ rest.head?, isWord "or" t = false) {fuel : Nat} {first : Reader String}
    (takes : TakesWord first) :
    Leaves (disjunction fuel first)
      ⟨[Connective.or.token].intercalate (parts.map conjunctionTokens) ++ rest,
        parts.flatMap operandsOfAll ++ more⟩
      (fun parts' => parts'.flatMap operandsOfAll = parts.flatMap operandsOfAll)
      ⟨rest, more⟩ := by
  induction parts generalizing fuel first with
  | nil => exact absurd rfl hne
  | cons part parts ih =>
    obtain ⟨hp, hps⟩ := List.forall_mem_cons.mp h
    obtain ⟨fp, fps⟩ := List.forall_mem_cons.mp full
    cases fuel with
    | zero => exact .of_never yields_refuse
    | succ fuel =>
      cases parts with
      | nil =>
        simp only [List.map_singleton, List.intercalate_singleton, List.flatMap_singleton,
          operandsOfAll_eq]
        refine .bind (leaves_conjunction fp hp hand takes) fun part' hpart' => ?_
        exact .bind_eq (word?_of_ne hor) (.of_eq rfl (by simpa [operandsOfAll_eq] using hpart'))
      | cons other parts =>
        simp only [List.map_cons, List.intercalate_cons_cons, List.append_assoc,
          List.nil_append, List.cons_append, List.flatMap_cons]
        rw [operandsOfAll_eq part]
        refine .bind (leaves_conjunction fp hp (by simp [isWord, Connective.token]) takes)
          fun part' hpart' => ?_
        refine .bind_eq (word?_of_eq rfl) ?_
        have hrest := @ih (by simp) fps hps fuel _ takesWord_operand
        simp only [List.map_cons, List.flatMap_cons, List.append_assoc] at hrest
        exact .bind hrest fun parts' hparts' =>
          .of_eq rfl (by simp [operandsOfAll_eq part', hpart', hparts'])

theorem operands_grouped (parts : List (List Condition)) :
    (grouped parts).operands = parts.flatMap operandsOfAll := by
  unfold grouped
  split <;> rw [operands, operandsOfParts_eq]

/-- Every condition whose names are words is read to its end, if it is read. -/
theorem leavesRest {c : Condition} (hc : Plain c) : LeavesRest c := by
  induction hc with
  | constant holds =>
    refine leavesRest_of_succ fun fuel first rest more _ => ?_
    cases holds <;> exact .of_eq rfl rfl
  | @isNull column _ =>
    exact leavesRest_of_predicate rfl fun name rest more => ⟨.isNull name, rfl, predicate_isNull _⟩
  | @notNull column _ =>
    exact leavesRest_of_predicate rfl fun name rest more =>
      ⟨.notNull name, rfl, predicate_notNull _⟩
  | @compare column how operand _ =>
    exact leavesRest_of_predicate rfl fun name rest more =>
      ⟨.compare name how operand, rfl, predicate_compare _ _ _⟩
  | @among column operands _ some =>
    exact leavesRest_of_predicate rfl fun name rest more =>
      ⟨.among name operands, rfl, predicate_among _ some⟩
  | @outside column operands _ some =>
    exact leavesRest_of_predicate rfl fun name rest more =>
      ⟨.outside name operands, rfl, predicate_outside _ some⟩
  | @like column pattern _ =>
    exact leavesRest_of_predicate rfl fun name rest more =>
      ⟨.like name pattern, rfl, predicate_like _ _⟩
  | @group c parts some full _ ih =>
    refine leavesRest_of_succ fun fuel first rest more _ => ?_
    rw [Condition.tokens, tokensOfParts_eq, List.cons_append, List.append_assoc,
      List.singleton_append, operands, operandsOfParts_eq]
    refine .bind_eq (sign?_of_eq rfl) ?_
    -- Between the parentheses there are alternatives, or a single conjunction of all parts.
    have inner : Leaves (disjunction fuel openedOperand)
        ⟨[c.token].intercalate (parts.map conjunctionTokens) ++ .sign [')'] :: rest,
          parts.flatMap operandsOfAll ++ more⟩
        (fun parts' => parts'.flatMap operandsOfAll = parts.flatMap operandsOfAll)
        ⟨.sign [')'] :: rest, more⟩ := by
      cases c with
      | or =>
        exact leaves_disjunction some full ih (by simp [isWord]) (by simp [isWord])
          takesWord_openedOperand
      | and =>
        have hne := flatten_ne_nil some full
        have hflat := @leaves_disjunction (.sign [')'] :: rest) more [parts.flatten] (by simp)
          (by simpa using hne) (by simpa using fun d part hp hd => ih part hp d hd)
          (by simp [isWord]) (by simp [isWord]) fuel _ takesWord_openedOperand
        simp only [List.map_singleton, List.intercalate_singleton, List.flatMap_singleton,
          operandsOfAll_flatten] at hflat
        rwa [intercalate_conjunctionTokens full]
    refine .bind inner fun parts' hparts' => .bind_eq (sign_cons rfl) ?_
    exact .of_eq rfl ((operands_grouped parts').trans hparts')

/-! ## Clauses -/

def clauseTokens (cs : List Condition) : List Token :=
  if cs.isEmpty then [] else .word "WHERE".toList :: conjunctionTokens cs

theorem isSign_clauseTokens (cs : List Condition) :
    ∀ t ∈ (clauseTokens cs).head?, isSign "," t = false := by
  rw [clauseTokens]
  split <;> simp [isSign]

/-- What the clause of conditions is read as has their operands, and nothing is left. -/
theorem leaves_whereClause {cs : List Condition} (plain : ∀ c ∈ cs, Plain c) :
    Leaves whereClause ⟨clauseTokens cs, operandsOfAll cs⟩
      (fun cs' => operandsOfAll cs' = operandsOfAll cs ∧ (cs = [] → cs' = [])) ⟨[], []⟩ := by
  cases hcs : cs.isEmpty with
  | true =>
    obtain rfl := List.isEmpty_iff.mp hcs
    exact .of_eq rfl ⟨rfl, fun _ => rfl⟩
  | false =>
    have hne : cs ≠ [] := List.isEmpty_eq_false_iff.mp hcs
    rw [clauseTokens, hcs]
    refine .bind_eq (word?_of_eq rfl) ?_
    have hparts := @leaves_disjunction [] [] [cs] (by simp) (by simpa using hne)
      (by simpa using fun c hc => leavesRest (plain c hc)) (by simp) (by simp)
      (3 * (conjunctionTokens cs).length + 3) _ takesWord_operand
    simp only [List.map_singleton, List.intercalate_singleton, List.flatMap_singleton,
      List.append_nil] at hparts
    let r : Reader (List (List Condition)) := fun i =>
      disjunction (3 * i.tokens.length + 3) operand i
    have hr : Leaves r ⟨conjunctionTokens cs, operandsOfAll cs⟩
        (fun parts => parts.flatMap operandsOfAll = operandsOfAll cs) ⟨[], []⟩ := hparts
    refine .bind hr fun parts hoperands => ?_
    match parts with
    | [part] => exact .of_eq rfl ⟨by simpa using hoperands, fun h => absurd h hne⟩
    | [] => exact .of_eq rfl ⟨by simpa [operandsOfAll, operands, operandsOfParts] using hoperands,
        fun h => absurd h hne⟩
    | part :: other :: parts =>
      refine .of_eq rfl ⟨?_, fun h => absurd h hne⟩
      rw [operandsOfAll, operandsOfAll, operands, operandsOfParts_eq, List.append_nil]
      exact hoperands

end Sql.Reader

def Measure.ofRows : Measure :=
  ⟨.count, none, countLabel⟩

namespace Command

open Condition Sql.Reader

variable {table : String} {cs cs' : List Condition} {cells : List (String × Scalar)}

theorem spells_whereClause (plain : ∀ c ∈ cs, Plain c) :
    Spells (whereClause cs).toList (clauseTokens cs) := by
  intro rest hrest
  rw [whereClause, clauseTokens]
  split
  · rfl
  · have hchars : (" WHERE " ++ conjunctionText cs).toList ++ rest =
        ' ' :: ("WHERE".toList ++ ' ' :: ((conjunctionText cs).toList ++ rest)) := by
      rw [String.toList_append, List.append_assoc]
      rfl
    rw [hchars, lex_blank, lex_wordBlank rfl, spells_conjunctionText plain rest hrest]
    rfl

theorem apart_whereClause (cs : List Condition) : Apart (whereClause cs).toList := by
  simpa [following] using apart_clauses cs "" ""

theorem lex_table (htable : PlainName table.toList) (plain : ∀ c ∈ cs, Plain c) :
    lex (table.toList ++ (whereClause cs).toList) = .word table.toList :: clauseTokens cs := by
  rw [lex_word htable (apart_whereClause cs), (spells_whereClause plain).lex_eq]

section

variable (htable : PlainName table.toList) (plain : ∀ c ∈ cs, Plain c)

include htable plain

theorem tokens_paged (page : Page) : tokens (query .everything table cs [] page).text =
    .word "SELECT".toList :: .sign ['*'] :: .word "FROM".toList ::
      .word table.toList :: (clauseTokens cs ++ lex (following page.clause).toList) := by
  have htext : (query .everything table cs [] page).text =
      "SELECT " ++ "*" ++ " FROM " ++ table ++ whereClause cs ++ "" ++ following page.clause := rfl
  have hchars (clause page : String) :
      ("SELECT " ++ "*" ++ " FROM " ++ table ++ clause ++ "" ++ page).toList =
        "SELECT".toList ++ ' ' :: '*' :: ' ' :: ("FROM".toList ++ ' ' ::
          (table.toList ++ (clause.toList ++ page.toList))) := by
    simp only [String.toList_append, List.append_assoc]
    simp
  have hpage : Apart (following page.clause).toList := by
    simpa [whereClause, following] using apart_clauses [] "" page.clause
  have hclauses : Apart ((whereClause cs).toList ++ (following page.clause).toList) := by
    simpa [following] using apart_clauses cs "" page.clause
  rw [tokens_eq, htext, hchars, lex_wordBlank rfl, lex_sign_blank _ rfl rfl rfl,
    lex_wordBlank rfl, lex_word htable hclauses, spells_whereClause plain _ hpage]

theorem tokens_showing : tokens (query .everything table cs [] {}).text =
    .word "SELECT".toList :: .sign ['*'] :: .word "FROM".toList ::
      .word table.toList :: clauseTokens cs := by
  have hnone : lex (following ({} : Page).clause).toList = [] := rfl
  rw [tokens_paged htable plain, hnone, List.append_nil]

theorem tokens_counting : tokens (query (.measures [.ofRows]) table cs [] {}).text =
    .word "SELECT".toList :: .word "COUNT".toList :: .sign ['('] :: .sign ['*'] :: .sign [')'] ::
      .word "AS".toList :: .word "count".toList :: .word "FROM".toList ::
        .word table.toList :: clauseTokens cs := by
  have htext : (query (.measures [.ofRows]) table cs [] {}).text =
      "SELECT " ++ "COUNT(*) AS count" ++ " FROM " ++ table ++ whereClause cs ++ "" ++ "" := rfl
  have hchars (clause : String) :
      ("SELECT " ++ "COUNT(*) AS count" ++ " FROM " ++ table ++ clause ++ "" ++ "").toList =
        "SELECT".toList ++ ' ' :: ("COUNT".toList ++ '(' :: '*' :: ')' :: ' ' ::
          ("AS".toList ++ ' ' :: ("count".toList ++ ' ' :: ("FROM".toList ++ ' ' ::
            (table.toList ++ clause.toList))))) := by
    simp only [String.toList_append, List.append_assoc]
    simp
  have hstar (rest : List Char) :
      lex ('*' :: ')' :: rest) = .sign ['*'] :: .sign [')'] :: lex rest := by
    rw [lex_sign _ rfl rfl rfl (by simp [pairs]), lex_close]
  rw [tokens_eq, htext, hchars, lex_wordBlank rfl,
    lex_word (isPlainName_iff.mp rfl) (apart_cons.mpr rfl), lex_open, hstar, lex_blank,
    lex_wordBlank rfl, lex_wordBlank rfl, lex_wordBlank rfl, lex_table htable plain]

theorem tokens_removing : tokens (delete table cs).text =
    .word "DELETE".toList :: .word "FROM".toList :: .word table.toList :: clauseTokens cs := by
  have htext : (delete table cs).text = "DELETE FROM " ++ table ++ whereClause cs := rfl
  have hchars (clause : String) : ("DELETE FROM " ++ table ++ clause).toList =
      "DELETE".toList ++ ' ' :: ("FROM".toList ++ ' ' :: (table.toList ++ clause.toList)) := by
    simp only [String.toList_append, List.append_assoc]
    rfl
  rw [tokens_eq, htext, hchars, lex_wordBlank rfl, lex_wordBlank rfl, lex_table htable plain]

theorem tokens_changing (names : ∀ cell ∈ cells, PlainName cell.1.toList) :
    tokens (update table cells cs).text =
      .word "UPDATE".toList :: .word table.toList :: .word "SET".toList ::
        ([Token.sign [',']].intercalate (cells.map assignedTokens) ++ clauseTokens cs) := by
  have htext : (update table cells cs).text =
      "UPDATE " ++ table ++ " SET " ++ separated ", " (cells.map fun c => c.1 ++ " = ?") ++
        whereClause cs := rfl
  have hchars (assigned clause : String) :
      ("UPDATE " ++ table ++ " SET " ++ assigned ++ clause).toList =
        "UPDATE".toList ++ ' ' :: (table.toList ++ ' ' :: ("SET".toList ++ ' ' ::
          (assigned.toList ++ clause.toList))) := by
    simp only [String.toList_append, List.append_assoc]
    rfl
  have hcells := spells_separated lex_comma_blank (fun _ => apart_cons.mpr rfl)
    (fun cell hcell => spells_assigned (names cell hcell)) _ (apart_whereClause cs)
  rw [tokens_eq, htext, hchars, lex_wordBlank rfl, lex_wordBlank (isPlainName_iff.mpr htable),
    lex_wordBlank rfl, hcells, (spells_whereClause plain).lex_eq]

end

/-! ## Statements -/

/-- A statement is read as a command if nothing is left behind it. -/
theorem read_of_command {s : Statement} {k : Command} {t : Token} {ts : List Token}
    (htokens : tokens s.sql = t :: ts)
    (h : Reader.command ⟨t :: ts, s.params⟩ = .ok (k, ⟨[], []⟩)) : Sql.read s = .ok (some k) := by
  have hwhole : Reader.whole ⟨t :: ts, s.params⟩ = .ok (k, ⟨[], []⟩) := bind_of_ok h
  rw [Sql.read, htokens]
  dsimp only
  rw [hwhole]
  rfl

/-- The clause of a table that can be named is read as conditions. -/
structure ReadAs (table : String) (cs cs' : List Condition) : Prop where
  named : PlainName table.toList
  free : isReserved table.toList = false
  plain : ∀ c ∈ cs, Plain c
  clause : Reader.whereClause ⟨clauseTokens cs, operandsOfAll cs⟩ = .ok (cs', ⟨[], []⟩)

namespace ReadAs

variable (as : ReadAs table cs cs')

include as

theorem name_table (ts : List Token) (ps : List Scalar) :
    Reader.name ⟨.word table.toList :: ts, ps⟩ = .ok (table, ⟨ts, ps⟩) := by
  rw [name_cons as.free, String.ofList_toList]

theorem showing : Sql.read (query .everything table cs [] {}).statement =
    .ok (some (query .everything table cs' [] {})) := by
  refine read_of_command (tokens_showing as.named as.plain) ?_
  rw [command_select, selection, @bind_of_ok _ _ _ _ _ ⟨.word "FROM".toList :: _, _⟩ none rfl,
    bind_of_ok (word?_of_eq rfl), if_pos rfl, bind_of_ok (as.name_table _ _)]
  exact bind_of_ok as.clause

theorem counting : Sql.read (query (.measures [.ofRows]) table cs [] {}).statement =
    .ok (some (query (.measures [.ofRows]) table cs' [] {})) := by
  refine read_of_command (tokens_counting as.named as.plain) ?_
  rw [command_select, selection,
    @bind_of_ok _ _ _ _ _ ⟨.word "FROM".toList :: _, _⟩ (some [.measure .ofRows]) rfl,
    bind_of_ok (word?_of_eq rfl), if_pos rfl, bind_of_ok (as.name_table _ _)]
  exact bind_of_ok as.clause

theorem removal : Sql.read (delete table cs).statement = .ok (some (delete table cs')) := by
  refine read_of_command (tokens_removing as.named as.plain) ?_
  rw [command_delete, removing, bind_of_ok (word_cons rfl), bind_of_ok (as.name_table _ _)]
  exact bind_of_ok as.clause

theorem assignment (some : cells ≠ []) (names : ∀ cell ∈ cells, PlainName cell.1.toList)
    (free : ∀ cell ∈ cells, isReserved cell.1.toList = false) :
    Sql.read (update table cells cs).statement = .ok (.some (update table cells cs')) := by
  refine read_of_command (tokens_changing as.named as.plain names) ?_
  have hor : isWord "or" (.word table.toList) = false :=
    isWord_of_not_isReserved as.free (by decide)
  have hassigned : ∀ cell ∈ cells, ∀ ts ps,
      assigned ⟨assignedTokens cell ++ ts, [cell.2] ++ ps⟩ = .ok (cell, ⟨ts, ps⟩) := by
    intro cell hcell ts ps
    refine (bind_of_ok (name_cons (free cell hcell))).trans ?_
    rw [String.ofList_toList]
    rfl
  have hcells := @listOf_items _ _ _ _ _ some (by simp [assignedTokens]) hassigned _
    (operandsOfAll cs) (isSign_clauseTokens cs)
  rw [statement, params_update, command_update, changing,
    bind_of_ok (word?_of_ne (by simpa using hor)), if_neg Bool.false_ne_true]
  refine (bind_of_ok (as.name_table _ _)).trans ?_
  rw [bind_of_ok (word_cons rfl), bind_of_ok hcells]
  exact bind_of_ok as.clause

end ReadAs

theorem readAs_of_read (named : PlainName table.toList) (plain : ∀ c ∈ cs, Plain c) {k : Command}
    (h : Sql.read (query .everything table cs [] {}).statement = .ok (some k)) :
    ∃ cs', ReadAs table cs cs' ∧ operandsOfAll cs' = operandsOfAll cs ∧ (cs = [] → cs' = []) := by
  obtain ⟨j, hcommand⟩ := command_of_read h
  rw [statement, tokens_showing named plain, command_select, selection,
    @bind_of_ok _ _ _ _ _ ⟨.word "FROM".toList :: _, _⟩ none rfl,
    bind_of_ok (word?_of_eq rfl), if_pos rfl] at hcommand
  obtain ⟨name, i, hname, hrest⟩ := bind_ok hcommand
  have free : isReserved table.toList = false := isReserved_of_name hname
  obtain ⟨rfl, rfl⟩ := readsOnly_name _ _ hname
  obtain ⟨cs', i, hclause, -⟩ := bind_ok hrest
  obtain ⟨hcs', rfl⟩ := leaves_whereClause plain cs' i hclause
  exact ⟨cs', ⟨named, free, plain, hclause⟩, hcs'⟩

theorem assignment_of_read (named : PlainName table.toList) (plain : ∀ c ∈ cs, Plain c)
    (some : cells ≠ []) (names : ∀ cell ∈ cells, PlainName cell.1.toList) {k : Command}
    (h : Sql.read (update table cells cs).statement = .ok (.some k)) :
    ∃ cs', k = update table cells cs' := by
  obtain ⟨j, hcommand⟩ := command_of_read h
  rw [statement, tokens_changing named plain names, params_update, command_update, changing,
    bind_of_ok (word?_cons "or")] at hcommand
  cases hor : isWord "or" (.word table.toList) with
  | true =>
    rw [hor] at hcommand
    obtain ⟨_, _, hrefused, -⟩ := bind_ok hcommand
    exact (yields_refuse (P := fun _ => False) _ _ _ hrefused).elim
  | false =>
    rw [hor] at hcommand
    obtain ⟨name, i, hname, hrest⟩ := bind_ok hcommand
    obtain ⟨rfl, rfl⟩ := readsOnly_name _ _ hname
    rw [bind_of_ok (word_cons rfl)] at hrest
    obtain ⟨cells', i, hcells, hrest⟩ := bind_ok hrest
    obtain ⟨rfl, rfl⟩ := readsOnly_listOf readsOnly_assigned (isSign_clauseTokens cs) some _ _
      hcells
    obtain ⟨cs', i, -, hdone⟩ := bind_ok hrest
    cases hdone
    rw [String.ofList_toList]
    exact ⟨cs', rfl⟩

end Command

/-! ## Connections -/

open Command

variable {table : String} {cs cs' : List Condition}

/-- Conditions that stand for others in what is carried out on a table. -/
structure Carries (table : String) (cs cs' : List Condition) : Prop where
  operands : Condition.operandsOfAll cs' = Condition.operandsOfAll cs
  empty : cs = [] → cs' = []
  showing : ∀ c : Connection, c.execute (query .everything table cs [] {}) =
    c.runLimited (query .everything table cs' [] {})
  counting : ∀ c : Connection, c.execute (query (.measures [.ofRows]) table cs [] {}) =
    c.runLimited (query (.measures [.ofRows]) table cs' [] {})
  removal : ∀ c : Connection, c.execute (delete table cs) = c.runLimited (delete table cs')
  assignment : ∀ (c : Connection) {cells : List (String × Scalar)}, cells ≠ [] →
    (∀ cell ∈ cells, PlainName cell.1.toList ∧ isKeyword cell.1.toList = false) →
      c.execute (update table cells cs) = c.runLimited (update table cells cs')

namespace Connection

variable {c : Connection} {k k' : Command}

theorem execute_of_free (free : ∀ name ∈ k.names, isKeyword name.toList = false) :
    c.execute k = c.runLimited k := by
  have hnone : (k.names.any fun name => isKeyword name.toList) = false :=
    List.any_eq_false.mpr fun name hname => by simp [free name hname]
  rw [execute, hnone, if_neg Bool.false_ne_true]

theorem execute_of_read {name : String} (hname : name ∈ k.names)
    (keyword : isKeyword name.toList = true) (h : Sql.read k.statement = .ok (some k')) :
    c.execute k = c.runLimited k' := by
  rw [execute, if_pos (List.any_eq_true.mpr ⟨name, hname, keyword⟩), runText, h]

/-- A command that has an answer is read, if one of its names is a keyword. -/
theorem free_or_read {verb : String} (hk : k.verb? = some verb) {a : Answer}
    (h : (c.execute k).1 = .ok a) :
    (∀ name ∈ k.names, isKeyword name.toList = false) ∨
      ∃ name ∈ k.names, isKeyword name.toList = true ∧
        ∃ k', Sql.read k.statement = .ok (some k') := by
  by_cases free : ∀ name ∈ k.names, isKeyword name.toList = false
  · exact .inl free
  simp only [not_forall, Bool.not_eq_false] at free
  obtain ⟨name, hname, keyword⟩ := free
  refine .inr ⟨name, hname, keyword, ?_⟩
  rw [execute, if_pos (List.any_eq_true.mpr ⟨name, hname, keyword⟩), runText] at h
  split at h
  · next k' hread => exact ⟨k', hread⟩
  · next hread => exact absurd hread (Command.read_ne_none hk)
  · cases h

end Connection

namespace Carries

/-- Without a keyword in a name, conditions stand for themselves. -/
theorem refl (free : ∀ name ∈ table :: Condition.columnsOfAll cs, isKeyword name.toList = false) :
    Carries table cs cs := by
  refine ⟨rfl, id, ?_, ?_, ?_, ?_⟩
  · exact fun c => Connection.execute_of_free (by simpa [names, Order.fields] using free)
  · exact fun c => Connection.execute_of_free (by
      simpa [names, Order.fields, Measure.ofRows] using free)
  · exact fun c => Connection.execute_of_free free
  · intro c cells _ hcells
    obtain ⟨htable, hcs⟩ := List.forall_mem_cons.mp free
    refine Connection.execute_of_free (List.forall_mem_cons.mpr ⟨htable, ?_⟩)
    exact List.forall_mem_append.mpr
      ⟨List.forall_mem_map.mpr fun cell hcell => (hcells cell hcell).2, hcs⟩

/-- With a keyword in a name, the clause says which conditions they are. -/
theorem of_readAs (as : ReadAs table cs cs')
    (operands : Condition.operandsOfAll cs' = Condition.operandsOfAll cs)
    (empty : cs = [] → cs' = []) {name : String}
    (hname : name ∈ table :: Condition.columnsOfAll cs) (keyword : isKeyword name.toList = true) :
    Carries table cs cs' := by
  refine ⟨operands, empty, ?_, ?_, ?_, ?_⟩
  · exact fun c => Connection.execute_of_read (by simpa [names, Order.fields] using hname) keyword
      as.showing
  · exact fun c => Connection.execute_of_read (by
      simpa [names, Order.fields, Measure.ofRows] using hname) keyword as.counting
  · exact fun c => Connection.execute_of_read hname keyword as.removal
  · intro c cells some hcells
    have hmem : name ∈ (update table cells cs).names := by
      simp only [names, List.mem_cons, List.mem_append] at hname ⊢
      exact hname.imp_right .inr
    exact Connection.execute_of_read hmem keyword (as.assignment some
      (fun cell hcell => (hcells cell hcell).1)
      fun cell hcell => Reader.isReserved_of_not_isKeyword (hcells cell hcell).2)

end Carries

/-- What rows are shown by, they are also counted, changed and removed by; without a keyword in
a name, the conditions themselves. And the table can be asked for all of its rows. -/
theorem Connection.exists_carries {c : Connection} {a : Answer} (named : PlainName table.toList)
    (plain : ∀ x ∈ cs, Condition.Plain x)
    (h : (c.execute (query .everything table cs [] {})).1 = .ok a) :
    (∃ cs', Carries table cs cs' ∧
      ((∀ name ∈ table :: Condition.columnsOfAll cs, isKeyword name.toList = false) → cs' = cs)) ∧
      Carries table [] [] := by
  have whole (free : isReserved table.toList = false) : Carries table [] [] := by
    cases hkeyword : isKeyword table.toList with
    | false => exact .refl (by simpa [Condition.columnsOfAll] using hkeyword)
    | true =>
      exact .of_readAs ⟨named, free, by simp, rfl⟩ rfl id (List.mem_cons_self) hkeyword
  have hnames (name : String) : name ∈ (query .everything table cs [] {}).names ↔
      name ∈ table :: Condition.columnsOfAll cs := by
    simp [names, Order.fields]
  rcases free_or_read rfl h with free | ⟨name, hname, hkeyword, k, hread⟩
  · simp only [hnames] at free
    have hreserved := Reader.isReserved_of_not_isKeyword (free table List.mem_cons_self)
    exact ⟨⟨cs, .refl free, fun _ => rfl⟩, whole hreserved⟩
  · rw [hnames] at hname
    obtain ⟨cs', as, operands, empty⟩ := readAs_of_read named plain hread
    refine ⟨⟨cs', .of_readAs as operands empty hname hkeyword, fun free => ?_⟩, whole as.free⟩
    exact absurd (free name hname) (by simp [hkeyword])

end Relata
