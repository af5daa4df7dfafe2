import Relata.Proofs.Sql.Kind
import Relata.Proofs.Sql.Reading

/-! # Commands read back

Where a name of a command is a keyword, the text of the command decides what is carried out.
The text of a command that finds rows by their identity, or adds a row, is refused or read as
the command itself.
-/

namespace Relata

open Sql Text

namespace Sql.Reader

variable {α β : Type} {i j k : Input} {a : α} {ts rest : List Token} {ps more : List Scalar}

def ReadsOnly (x : Reader α) (i : Input) (a : α) (j : Input) : Prop :=
  ∀ b k, x i = .ok (b, k) → b = a ∧ k = j

namespace ReadsOnly

theorem of_eq {x : Reader α} (h : x i = .ok (a, j)) : ReadsOnly x i a j := by
  intro b k hb
  rw [h] at hb
  cases hb
  exact ⟨rfl, rfl⟩

theorem refuse : ReadsOnly refuse i a j := by
  intro b k h
  unfold Reader.refuse at h
  split at h <;> cases h

theorem refuse_bind {f : α → Reader β} {b : β} : ReadsOnly (Reader.refuse >>= f) i b k := by
  intro c l h
  obtain ⟨a, j, hx, -⟩ := bind_ok h
  exact (@yields_refuse α (fun _ => False) i a j hx).elim

theorem bind {x : Reader α} {f : α → Reader β} {b : β} (first : ReadsOnly x i a j)
    (next : ReadsOnly (f a) j b k) : ReadsOnly (x >>= f) i b k := by
  intro c l h
  obtain ⟨a', j', hx, hf⟩ := bind_ok h
  obtain ⟨rfl, rfl⟩ := first a' j' hx
  exact next c l hf

end ReadsOnly

theorem readsOnly_name {cs : List Char} :
    ReadsOnly name ⟨.word cs :: ts, ps⟩ (String.ofList cs) ⟨ts, ps⟩ := by
  cases h : isReserved cs with
  | false => exact .of_eq (name_cons h)
  | true =>
    have : name ⟨.word cs :: ts, ps⟩ = (if isReserved cs then refuse
      else do skip; return String.ofList cs : Reader String) ⟨.word cs :: ts, ps⟩ := rfl
    intro b k hb
    rw [this, h, if_pos rfl] at hb
    exact ReadsOnly.refuse b k hb

theorem word_cons {w : String} {t : Token} (h : isWord w t = true) :
    word w ⟨t :: ts, ps⟩ = .ok ((), ⟨ts, ps⟩) := by
  rw [word, bind_of_ok (word?_of_eq h)]
  rfl

theorem readsOnly_list {item : Reader α} {toks : α → List Token} {params : α → List Scalar}
    (hitem : ∀ a ts ps, ReadsOnly item ⟨toks a ++ ts, params a ++ ps⟩ a ⟨ts, ps⟩)
    (hr : ∀ t ∈ rest.head?, isSign "," t = false) {as : List α} (some : as ≠ []) {fuel : Nat} :
    ReadsOnly (list item fuel)
      ⟨[Token.sign [',']].intercalate (as.map toks) ++ rest, as.flatMap params ++ more⟩
      as ⟨rest, more⟩ := by
  induction as generalizing fuel with
  | nil => exact absurd rfl some
  | cons a as ih =>
    cases fuel with
    | zero => exact .refuse
    | succ fuel =>
      cases as with
      | nil =>
        simp only [List.map_singleton, List.intercalate_singleton, List.flatMap_singleton]
        exact .bind (hitem a _ _) (.bind (.of_eq (sign?_of_ne hr)) (.of_eq rfl))
      | cons b as =>
        simp only [List.map_cons, List.intercalate_cons_cons, List.flatMap_cons,
          List.append_assoc, List.singleton_append] at ih ⊢
        exact .bind (hitem a _ _) (.bind (.of_eq (sign?_of_eq rfl))
          (.bind (ih (List.cons_ne_nil b as)) (.of_eq rfl)))

theorem readsOnly_listOf {item : Reader α} {toks : α → List Token} {params : α → List Scalar}
    (hitem : ∀ a ts ps, ReadsOnly item ⟨toks a ++ ts, params a ++ ps⟩ a ⟨ts, ps⟩)
    (hr : ∀ t ∈ rest.head?, isSign "," t = false) {as : List α} (some : as ≠ []) :
    ReadsOnly (listOf item)
      ⟨[Token.sign [',']].intercalate (as.map toks) ++ rest, as.flatMap params ++ more⟩
      as ⟨rest, more⟩ :=
  readsOnly_list hitem hr some

def keyTokens : List Token :=
  [.word "WHERE".toList, .word Record.key.toList, .sign ['='], .sign ['?']]

def assignedTokens (cell : String × Scalar) : List Token :=
  [.word cell.1.toList, .sign ['='], .sign ['?']]

theorem readsOnly_assigned (cell : String × Scalar) (ts : List Token) (ps : List Scalar) :
    ReadsOnly assigned ⟨assignedTokens cell ++ ts, [cell.2] ++ ps⟩ cell ⟨ts, ps⟩ := by
  obtain ⟨column, s⟩ := cell
  refine .bind readsOnly_name (.bind (.of_eq (sign_cons rfl)) (.bind (.of_eq (mark_cons s)) ?_))
  rw [String.ofList_toList]
  exact .of_eq rfl

variable {table : String} {cells : List (String × Scalar)} {s : Scalar}

theorem readsOnly_changing (some : cells ≠ []) :
    ReadsOnly changing
      ⟨.word table.toList :: .word "SET".toList ::
        ([Token.sign [',']].intercalate (cells.map assignedTokens) ++ keyTokens),
        cells.flatMap (fun cell => [cell.2]) ++ [s]⟩
      (.update table cells [.compare Record.key .equal s]) ⟨[], []⟩ := by
  refine .bind (.of_eq (word?_cons "or")) ?_
  cases isWord "or" (.word table.toList) with
  | true => exact .refuse_bind
  | false =>
    refine .bind readsOnly_name (.bind (.of_eq (word_cons rfl)) ?_)
    refine .bind (readsOnly_listOf readsOnly_assigned (by simp [keyTokens, isSign]) some) ?_
    rw [String.ofList_toList]
    exact .of_eq rfl

theorem readsOnly_removing :
    ReadsOnly removing ⟨.word "FROM".toList :: .word table.toList :: keyTokens, [s]⟩
      (.delete table [.compare Record.key .equal s]) ⟨[], []⟩ := by
  refine .bind (.of_eq (word_cons rfl)) (.bind readsOnly_name ?_)
  rw [String.ofList_toList]
  exact .of_eq rfl

theorem readsOnly_selection :
    ReadsOnly selection
      ⟨.sign ['*'] :: .word "FROM".toList :: .word table.toList ::
        (keyTokens ++ [.word "LIMIT".toList, .number ['1']]), [s]⟩
      (.query .everything table [.compare Record.key .equal s] [] { take := some 1 })
      ⟨[], []⟩ := by
  refine .bind (.of_eq rfl) (.bind (.of_eq (word?_of_eq rfl)) (.bind readsOnly_name ?_))
  rw [String.ofList_toList]
  exact .of_eq rfl

def nameTokens (names : List String) : List Token :=
  .sign ['('] :: ([Token.sign [',']].intercalate (names.map fun n => [.word n.toList]) ++
    [.sign [')']])

theorem readsOnly_insertion (some : cells ≠ []) :
    ReadsOnly insertion
      ⟨.word "INTO".toList :: .word table.toList :: (nameTokens (cells.map Prod.fst) ++
        .word "VALUES".toList :: Condition.markTokens cells.length), cells.map Prod.snd⟩
      (.insert table cells) ⟨[], []⟩ := by
  refine .bind (.of_eq (word_cons rfl)) (.bind readsOnly_name (.bind (.of_eq (sign_cons rfl)) ?_))
  have hnames : cells.map Prod.fst ≠ [] := by simpa using some
  have hmarks : cells.map Prod.snd ≠ [] := by simpa using some
  have hname (n : String) (ts : List Token) (ps : List Scalar) :
      ReadsOnly name ⟨[.word n.toList] ++ ts, [] ++ ps⟩ n ⟨ts, ps⟩ := by
    have := @readsOnly_name ts ps n.toList
    rwa [String.ofList_toList] at this
  have hcolumns := @readsOnly_listOf _ (.sign [')'] :: .word "VALUES".toList ::
    Condition.markTokens cells.length) (cells.map Prod.snd) _ _ _ hname (by simp [isSign]) _ hnames
  have hoperands := @listOf_mark [] [] _ hmarks
  have hnone : (cells.map Prod.fst).flatMap (fun _ => ([] : List Scalar)) = [] :=
    List.flatMap_eq_nil_iff.mpr fun _ _ => rfl
  rw [hnone, List.nil_append] at hcolumns
  rw [List.length_map, List.append_nil] at hoperands
  rw [List.append_eq, List.append_assoc]
  refine .bind hcolumns (.bind (.of_eq (sign_cons rfl)) (.bind (.of_eq (word_cons rfl))
    (.bind (.of_eq (sign_cons rfl)) (.bind (.of_eq hoperands)
      (.bind (.of_eq (sign_cons rfl)) ?_)))))
  have hzip : (cells.map Prod.fst).zip (cells.map Prod.snd) = cells :=
    (List.zip_of_prod rfl rfl).symm
  rw [String.ofList_toList, hzip]
  exact .of_eq rfl

end Sql.Reader

namespace Command

open Sql.Reader

variable {table : String} {cells : List (String × Scalar)} {s : Scalar}

theorem lex_wordBlank {w : List Char} (hw : isPlainName w = true) (rest : List Char) :
    lex (w ++ ' ' :: rest) = .word w :: lex rest := by
  rw [lex_word (isPlainName_iff.mp hw) (apart_cons.mpr rfl), lex_blank]

theorem tokens_delete (plain : PlainName table.toList) :
    tokens (delete table [.compare Record.key .equal s]).text =
      .word "DELETE".toList :: .word "FROM".toList :: .word table.toList :: keyTokens := by
  have htext : (delete table [.compare Record.key .equal s]).text =
      "DELETE FROM " ++ table ++ " WHERE id = ?" := rfl
  have hchars : ("DELETE FROM " ++ table ++ " WHERE id = ?").toList =
      "DELETE".toList ++ ' ' :: ("FROM".toList ++ ' ' ::
        (table.toList ++ ' ' :: "WHERE id = ?".toList)) := by
    rw [String.toList_append, String.toList_append, List.append_assoc]
    rfl
  rw [tokens_eq, htext, hchars, lex_wordBlank rfl, lex_wordBlank rfl,
    lex_wordBlank (isPlainName_iff.mpr plain)]
  rfl

theorem tokens_select (plain : PlainName table.toList) :
    tokens (query .everything table [.compare Record.key .equal s] [] { take := some 1 }).text =
      .word "SELECT".toList :: .sign ['*'] :: .word "FROM".toList :: .word table.toList ::
        (keyTokens ++ [.word "LIMIT".toList, .number ['1']]) := by
  have htext : (query .everything table [.compare Record.key .equal s] []
      { take := some 1 }).text =
        "SELECT " ++ "*" ++ " FROM " ++ table ++ " WHERE id = ?" ++ "" ++ " LIMIT 1" := rfl
  have hchars : ("SELECT " ++ "*" ++ " FROM " ++ table ++ " WHERE id = ?" ++ "" ++
      " LIMIT 1").toList =
      "SELECT".toList ++ ' ' :: '*' :: ' ' :: ("FROM".toList ++ ' ' ::
        (table.toList ++ ' ' :: "WHERE id = ? LIMIT 1".toList)) := by
    simp only [String.toList_append, List.append_assoc]
    rfl
  rw [tokens_eq, htext, hchars, lex_wordBlank rfl, lex_sign_blank _ rfl rfl rfl,
    lex_wordBlank rfl, lex_wordBlank (isPlainName_iff.mpr plain)]
  rfl

theorem spells_assigned {cell : String × Scalar} (plain : PlainName cell.1.toList) :
    Spells (cell.1 ++ " = ?").toList (assignedTokens cell) := by
  intro rest _
  have hsign := Comparison.equal.lex_sign ('?' :: rest)
  rw [lex_mark] at hsign
  rw [String.toList_append, List.append_assoc]
  refine (lex_word plain (apart_cons.mpr rfl)).trans ?_
  exact congrArg _ hsign

theorem lex_comma_blank (rest : List Char) :
    lex (", ".toList ++ rest) = .sign [','] :: lex rest :=
  (lex_comma _).trans (congrArg _ (lex_blank rest))

theorem tokens_update (plain : PlainName table.toList)
    (names : ∀ cell ∈ cells, PlainName cell.1.toList) :
    tokens (update table cells [.compare Record.key .equal s]).text =
      .word "UPDATE".toList :: .word table.toList :: .word "SET".toList ::
        ([Token.sign [',']].intercalate (cells.map assignedTokens) ++ keyTokens) := by
  have htext : (update table cells [.compare Record.key .equal s]).text =
      "UPDATE " ++ table ++ " SET " ++ separated ", " (cells.map fun c => c.1 ++ " = ?") ++
        " WHERE id = ?" := rfl
  have hchars (assigned : String) :
      ("UPDATE " ++ table ++ " SET " ++ assigned ++ " WHERE id = ?").toList =
        "UPDATE".toList ++ ' ' :: (table.toList ++ ' ' :: ("SET".toList ++ ' ' ::
          (assigned.toList ++ ' ' :: "WHERE id = ?".toList))) := by
    simp only [String.toList_append, List.append_assoc]
    rfl
  have hcells := spells_separated lex_comma_blank (fun _ => apart_cons.mpr rfl)
    (fun cell hcell => spells_assigned (names cell hcell))
    (' ' :: "WHERE id = ?".toList) (apart_cons.mpr rfl)
  rw [tokens_eq, htext, hchars, lex_wordBlank rfl, lex_wordBlank (isPlainName_iff.mpr plain),
    lex_wordBlank rfl, hcells]
  rfl

theorem tokens_insert (plain : PlainName table.toList)
    (names : ∀ cell ∈ cells, PlainName cell.1.toList) :
    tokens (insert table cells).text =
      .word "INSERT".toList :: .word "INTO".toList :: .word table.toList ::
        (nameTokens (cells.map Prod.fst) ++
          .word "VALUES".toList :: Condition.markTokens cells.length) := by
  have htext : (insert table cells).text =
      "INSERT INTO " ++ table ++ " (" ++ separated ", " (cells.map Prod.fst) ++ ") VALUES (" ++
        Condition.marks cells.length ++ ")" := rfl
  have hchars (columns marks : String) :
      ("INSERT INTO " ++ table ++ " (" ++ columns ++ ") VALUES (" ++ marks ++ ")").toList =
        "INSERT".toList ++ ' ' :: ("INTO".toList ++ ' ' :: (table.toList ++ ' ' :: '(' ::
          (columns.toList ++ ')' :: ' ' :: ("VALUES".toList ++ ' ' :: '(' ::
            (marks.toList ++ [')']))))) := by
    simp only [String.toList_append, List.append_assoc]
    rfl
  have hspells (name : String) (h : name ∈ cells.map Prod.fst) :
      Spells name.toList [.word name.toList] := by
    obtain ⟨cell, hcell, rfl⟩ := List.mem_map.mp h
    exact fun rest hrest => lex_word (names cell hcell) hrest
  have hcolumns (rest : List Char) := @spells_separated _ _ _ id _ lex_comma_blank
    (fun _ => apart_cons.mpr rfl) _ hspells (')' :: rest) (apart_cons.mpr rfl)
  rw [List.map_id] at hcolumns
  have hmarks := @Condition.lex_openMarks cells.length []
  rw [tokens_eq, htext, hchars, lex_wordBlank rfl, lex_wordBlank rfl,
    lex_wordBlank (isPlainName_iff.mpr plain), lex_open, hcolumns, lex_close, lex_blank,
    lex_wordBlank rfl]
  rw [hmarks, lex_nil, List.append_nil, nameTokens, List.cons_append, List.append_assoc]
  rfl

theorem params_update (table : String) (cells : List (String × Scalar)) (cs : List Condition) :
    (update table cells cs).params =
      cells.flatMap (fun cell => [cell.2]) ++ Condition.operandsOfAll cs :=
  congrArg (· ++ Condition.operandsOfAll cs) List.map_eq_flatMap

/-- Commands that find rows by an identity, or add a row, under plain names. -/
inductive Definite : Command → Prop
  | select {table : String} (plain : PlainName table.toList) (s : Scalar) :
      Definite (query .everything table [.compare Record.key .equal s] [] { take := some 1 })
  | insert {table : String} {cells : List (String × Scalar)} (plain : PlainName table.toList)
      (names : ∀ cell ∈ cells, PlainName cell.1.toList) (some : cells ≠ []) :
      Definite (insert table cells)
  | update {table : String} {cells : List (String × Scalar)} (plain : PlainName table.toList)
      (names : ∀ cell ∈ cells, PlainName cell.1.toList) (some : cells ≠ []) (s : Scalar) :
      Definite (update table cells [.compare Record.key .equal s])
  | delete {table : String} (plain : PlainName table.toList) (s : Scalar) :
      Definite (delete table [.compare Record.key .equal s])

/-- The text of such a command is refused or read as the command itself. -/
theorem Definite.eq_of_read {k k' : Command} (definite : k.Definite)
    (h : Sql.read k.statement = .ok (some k')) : k' = k := by
  obtain ⟨j, hcommand⟩ := command_of_read h
  cases definite with
  | select plain s =>
    rw [statement, tokens_select plain, command_select] at hcommand
    exact (readsOnly_selection _ _ hcommand).1
  | insert plain names some =>
    rw [statement, tokens_insert plain names, command_insert] at hcommand
    exact (readsOnly_insertion some _ _ hcommand).1
  | @update table cells plain names some s =>
    rw [statement, tokens_update plain names, params_update, command_update] at hcommand
    exact (readsOnly_changing some _ _ hcommand).1
  | delete plain s =>
    rw [statement, tokens_delete plain, command_delete] at hcommand
    exact (readsOnly_removing _ _ hcommand).1

theorem apart_clauses (cs : List Condition) (order page : String) :
    Apart ((whereClause cs).toList ++ ((following order).toList ++ (following page).toList)) := by
  have clause {c : String} {rest : List Char} (hc : c = "" ∨ ∃ s, c = " " ++ s)
      (hr : Apart rest) : Apart (c.toList ++ rest) := by
    rcases hc with rfl | ⟨s, rfl⟩
    · exact hr
    · rw [String.toList_append]
      exact apart_cons.mpr rfl
  have hfollowing (c : String) : following c = "" ∨ ∃ s, following c = " " ++ s := by
    rw [following]
    split
    · exact .inl rfl
    · exact .inr ⟨c, rfl⟩
  refine clause ?_ (clause (hfollowing order) ?_)
  · rw [whereClause]
    split
    · exact .inl rfl
    · exact .inr ⟨"WHERE " ++ Condition.conjunctionText cs, String.ext (by simp)⟩
  · rw [← List.append_nil (following page).toList]
    exact clause (hfollowing page) (by simp [Apart])

theorem tokens_query (plain : PlainName table.toList) (cs : List Condition) (order : Order)
    (page : Page) :
    ∃ ts, tokens (query .everything table cs order page).text =
      .word "SELECT".toList :: .sign ['*'] :: .word "FROM".toList :: .word table.toList :: ts := by
  have htext : (query .everything table cs order page).text =
      "SELECT " ++ "*" ++ " FROM " ++ table ++ whereClause cs ++ following order.clause ++
        following page.clause := rfl
  have hchars (clause order page : String) :
      ("SELECT " ++ "*" ++ " FROM " ++ table ++ clause ++ order ++ page).toList =
        "SELECT".toList ++ ' ' :: '*' :: ' ' :: ("FROM".toList ++ ' ' :: (table.toList ++
          (clause.toList ++ (order.toList ++ page.toList)))) := by
    simp only [String.toList_append, List.append_assoc]
    rfl
  rw [tokens_eq, htext, hchars, lex_wordBlank rfl, lex_sign_blank _ rfl rfl rfl,
    lex_wordBlank rfl, lex_word plain (apart_clauses cs order.clause page.clause)]
  exact ⟨_, rfl⟩

/-- Whatever the text of a selection of whole rows is read as, it is one from its table. -/
theorem query_of_read {cs : List Condition} {order : Order} {page : Page} {k : Command}
    (plain : PlainName table.toList)
    (h : Sql.read (query .everything table cs order page).statement = .ok (some k)) :
    ∃ cs' order' page', k = query .everything table cs' order' page' := by
  obtain ⟨j, hcommand⟩ := command_of_read h
  obtain ⟨ts, hts⟩ := tokens_query plain cs order page
  rw [statement, hts, command_select, selection,
    @bind_of_ok _ _ _ _ _ ⟨.word "FROM".toList :: .word table.toList :: ts, _⟩ none rfl,
    bind_of_ok (word?_of_eq rfl), if_pos rfl] at hcommand
  obtain ⟨name, i, hname, hrest⟩ := bind_ok hcommand
  obtain ⟨rfl, rfl⟩ := readsOnly_name _ _ hname
  rw [String.ofList_toList] at hrest
  suffices hyields : Yields (fun k => ∃ cs' order' page',
      k = query .everything table cs' order' page') _ from hyields _ _ _ hrest
  exact yields_bind fun _ => yields_bind fun _ => yields_bind fun _ =>
    yields_pure ⟨_, _, _, rfl⟩

end Command

end Relata
