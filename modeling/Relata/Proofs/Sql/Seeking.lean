import Relata.Proofs.Sql.Clause

/-! # Rows sought by equal fields

A row that could be added was written under names that are not reserved. Under such names the
text of a lookup, which asks what fields are equal to, is refused or read as the lookup itself.
-/

namespace Relata

open Sql Text

def Condition.equals (cells : List (String × Scalar)) : List Condition :=
  cells.map fun cell => .compare cell.1 .equal cell.2

abbrev Command.seek (table : String) (cells : List (String × Scalar)) : Command :=
  query .everything table (Condition.equals cells) [] { take := some 1 }

namespace Sql.Reader

variable {α : Type} {P : α → Prop} {ts rest : List Token} {ps more : List Scalar}

/-! ## Names of an insertion -/

theorem yields_name : Yields (fun n => isReserved n.toList = false) name := by
  intro i n j h
  obtain ⟨ts, ps⟩ := i
  have refused (hnone : refuse ⟨ts, ps⟩ = .ok (n, j)) : isReserved n.toList = false :=
    (yields_refuse (P := fun _ => False) _ _ _ hnone).elim
  match ts with
  | [] => exact refused h
  | .number _ :: _ => exact refused h
  | .sign _ :: _ => exact refused h
  | .word cs :: _ =>
    have free := isReserved_of_name h
    obtain ⟨rfl, -⟩ := readsOnly_name n j h
    rwa [String.toList_ofList]

theorem Yields.list {item : Reader α} (each : Yields P item) (fuel : Nat) :
    Yields (fun as => ∀ a ∈ as, P a) (list item fuel) := by
  induction fuel with
  | zero => exact yields_refuse
  | succ fuel ih =>
    refine each.bind fun a ha => yields_bind fun more => ?_
    cases more with
    | true => exact ih.bind fun as has => yields_pure (List.forall_mem_cons.mpr ⟨ha, has⟩)
    | false => exact yields_pure (List.forall_mem_singleton.mpr ha)

theorem Yields.listOf {item : Reader α} (each : Yields P item) :
    Yields (fun as => ∀ a ∈ as, P a) (listOf item) :=
  fun i => each.list _ i

theorem yields_insertion_names :
    Yields (fun k => ∀ n ∈ k.names, isReserved n.toList = false) insertion := by
  refine yields_bind fun _ => yields_name.bind fun table htable => yields_bind fun _ => ?_
  refine yields_name.listOf.bind fun columns hcolumns => ?_
  refine yields_bind fun _ => yields_bind fun _ => yields_bind fun _ => yields_bind fun operands =>
    yields_bind fun _ => yields_pure (List.forall_mem_cons.mpr ⟨htable, ?_⟩)
  refine List.forall_mem_map.mpr fun cell hcell => ?_
  exact hcolumns cell.1 (List.of_mem_zip hcell).1

/-! ## Conditions of a lookup -/

open Condition

theorem readsOnly_operand {cs : List Char} (free : isReserved cs = false) :
    ReadsOnly operand ⟨.word cs :: ts, ps⟩ (String.ofList cs) ⟨ts, ps⟩ := by
  have hw (w : String) (hw : w ∈ reserved) : isWord w (.word cs) = false :=
    isWord_of_not_isReserved free hw
  refine .bind (.of_eq (word?_cons "null")) ?_
  rw [hw "null" (by decide)]
  refine .bind (.of_eq (anyWord?_cons _)) ?_
  have hany : (["not", "case"].any fun w => isWord w (.word cs)) = false := by
    simp [hw "not" (by decide), hw "case" (by decide)]
  rw [hany]
  refine .bind (.of_eq (anyWord?_cons _)) ?_
  cases ["cast", "exists", "raise"].any fun w => isWord w (.word cs) with
  | true => exact .refuse
  | false => exact readsOnly_name

theorem readsOnly_compare {column : String} (free : isReserved column.toList = false)
    (how : Comparison) (s : Scalar) (fuel : Nat) :
    ReadsOnly (primary fuel operand)
      ⟨(compare column how s).tokens ++ rest, (compare column how s).operands ++ more⟩
      (compare column how s) ⟨rest, more⟩ := by
  cases fuel with
  | zero => exact .refuse
  | succ fuel =>
    have hpredicate : ReadsOnly (operand >>= predicate)
        ⟨.word column.toList :: how.token :: .sign ['?'] :: rest, s :: more⟩
        (compare column how s) ⟨rest, more⟩ := by
      refine .bind (readsOnly_operand free) ?_
      rw [String.ofList_toList]
      exact .of_eq (predicate_compare column how s)
    exact hpredicate

theorem readsOnly_conjunction {cells : List (String × Scalar)} (some : cells ≠ [])
    (free : ∀ cell ∈ cells, isReserved cell.1.toList = false)
    (hr : ∀ t ∈ rest.head?, isWord "and" t = false) {fuel : Nat} :
    ReadsOnly (conjunction fuel operand)
      ⟨conjunctionTokens (equals cells) ++ rest, operandsOfAll (equals cells) ++ more⟩
      (equals cells) ⟨rest, more⟩ := by
  induction cells generalizing fuel with
  | nil => exact absurd rfl some
  | cons cell cells ih =>
    obtain ⟨hcell, hcells⟩ := List.forall_mem_cons.mp free
    have first (rest : List Token) (more : List Scalar) (fuel : Nat) :=
      @readsOnly_compare rest more _ hcell .equal cell.2 fuel
    cases fuel with
    | zero => exact .refuse
    | succ fuel =>
      cases cells with
      | nil => exact .bind (first rest more fuel) (.bind (.of_eq (word?_of_ne hr)) (.of_eq rfl))
      | cons other cells =>
        have next := @ih (by simp) hcells fuel
        refine .bind (first _ _ fuel) (.bind (.of_eq (word?_of_eq rfl)) ?_)
        exact .bind next (.of_eq rfl)

theorem readsOnly_whereClause {cells : List (String × Scalar)}
    (free : ∀ cell ∈ cells, isReserved cell.1.toList = false)
    (hwhere : ∀ t ∈ rest.head?, isWord "where" t = false)
    (hand : ∀ t ∈ rest.head?, isWord "and" t = false)
    (hor : ∀ t ∈ rest.head?, isWord "or" t = false) :
    ReadsOnly whereClause
      ⟨clauseTokens (equals cells) ++ rest, operandsOfAll (equals cells) ++ more⟩
      (equals cells) ⟨rest, more⟩ := by
  cases cells with
  | nil => exact .bind (.of_eq (word?_of_ne hwhere)) (.of_eq rfl)
  | cons cell cells =>
    refine .bind (.of_eq (word?_of_eq rfl)) ?_
    let tokens := conjunctionTokens (equals (cell :: cells)) ++ rest
    let r : Reader (List (List Condition)) := fun i =>
      disjunction (3 * i.tokens.length + 3) operand i
    have hparts : ReadsOnly r ⟨tokens, operandsOfAll (equals (cell :: cells)) ++ more⟩
        [equals (cell :: cells)] ⟨rest, more⟩ := by
      refine ReadsOnly.bind (readsOnly_conjunction (by simp) free hand) ?_
      exact .bind (.of_eq (word?_of_ne hor)) (.of_eq rfl)
    exact ReadsOnly.bind hparts (.of_eq rfl)

theorem readsOnly_seek {table : String} {cells : List (String × Scalar)}
    (free : ∀ cell ∈ cells, isReserved cell.1.toList = false) :
    ReadsOnly selection
      ⟨.sign ['*'] :: .word "FROM".toList :: .word table.toList ::
        (clauseTokens (equals cells) ++ [.word "LIMIT".toList, .number ['1']]),
        operandsOfAll (equals cells) ++ []⟩
      (.seek table cells) ⟨[], []⟩ := by
  refine .bind (.of_eq rfl) (.bind (.of_eq (word?_of_eq rfl)) (.bind readsOnly_name ?_))
  rw [String.ofList_toList]
  -- The page begins with none of the words that could go on with the clause.
  have hlimit (w : String) (h : w ≠ "limit") : ∀ t ∈ [Token.word "LIMIT".toList,
      .number ['1']].head?, isWord w t = false := by
    rintro t ⟨⟩
    have hfold : "LIMIT".toList.map foldCase = "limit".toList := rfl
    rw [isWord, hfold, beq_eq_false_iff_ne]
    exact fun heq => h (String.ext heq.symm)
  exact .bind (readsOnly_whereClause free (hlimit _ (by decide)) (hlimit _ (by decide))
    (hlimit _ (by decide))) (.of_eq rfl)

end Sql.Reader

namespace Command

open Sql.Reader

variable {table : String} {cells : List (String × Scalar)}

/-- The text of a lookup under names that are not reserved is refused or read as the lookup. -/
theorem seek_of_read (named : PlainName table.toList)
    (names : ∀ cell ∈ cells, PlainName cell.1.toList)
    (free : ∀ cell ∈ cells, isReserved cell.1.toList = false) {k : Command}
    (h : Sql.read (seek table cells).statement = .ok (some k)) : k = seek table cells := by
  obtain ⟨j, hcommand⟩ := command_of_read h
  have plain : ∀ c ∈ Condition.equals cells, Condition.Plain c :=
    List.forall_mem_map.mpr fun cell hcell => .compare (names cell hcell)
  have hpage : lex (following ({ take := some 1 } : Page).clause).toList =
      [.word "LIMIT".toList, .number ['1']] := rfl
  have hparams : (seek table cells).statement.params =
      Condition.operandsOfAll (Condition.equals cells) ++ [] := (List.append_nil _).symm
  rw [hparams, statement, tokens_paged named plain, hpage, command_select] at hcommand
  exact (readsOnly_seek free k j hcommand).1

end Command

/-! ## Connections -/

namespace Connection

variable {c : Connection} {k : Command} {a : Answer}

theorem free_of_execute_insert {table : String} {cells : List (String × Scalar)}
    (definite : (Command.insert table cells).Definite)
    (h : (c.execute (.insert table cells)).1 = .ok a) :
    ∀ name ∈ (Command.insert table cells).names, isReserved name.toList = false := by
  rcases free_or_read rfl h with free | ⟨name, hname, keyword, k, hread⟩
  · exact fun name hname => Reader.isReserved_of_not_isKeyword (free name hname)
  · obtain rfl := definite.eq_of_read hread
    obtain ⟨ts, hts⟩ := Command.tokens_text (k := .insert table cells) rfl
    obtain ⟨j, hcommand⟩ := command_of_read hread
    rw [Command.statement, hts, Reader.command_insert] at hcommand
    exact Reader.yields_insertion_names _ _ j hcommand

/-- A command that is carried out once, and whose text is read as nothing else, is carried out as
it stands by every connection. -/
theorem execute_of_only {verb : String} (hk : k.verb? = some verb)
    (only : ∀ k', Sql.read k.statement = .ok (some k') → k' = k) (h : (c.execute k).1 = .ok a)
    (d : Connection) : d.execute k = d.runLimited k := by
  rcases free_or_read hk h with free | ⟨name, hname, keyword, k', hread⟩
  · exact execute_of_free free
  · obtain rfl := only k' hread
    exact execute_of_read hname keyword hread

theorem exists_answer {p : Projection} {table : String} {cs : List Condition} {order : Order}
    {page : Page} (only : ∀ k', Sql.read (Command.query p table cs order page).statement =
      .ok (some k') → k' = .query p table cs order page)
    (h : (c.execute (.query p table cs order page)).1 = .ok a) {d : Connection}
    {records : List Record} (hquery : d.database.query p table cs order page = .ok records) :
    (d.execute (.query p table cs order page)).1 = .ok { rows := records, count := d.changes } := by
  have alike := execute_of_only rfl only h
  rw [alike c, runLimited] at h
  split at h
  · next limits =>
    rw [alike d, runLimited, limits, run, run?, hquery]
    rfl
  · cases h

end Connection

end Relata
