import Relata.Proofs.Sql.Clause
import Relata.Proofs.Sql.Words
import Relata.Proofs.Store.Effects
import Relata.Proofs.Store.Regular

/-! # Selected rows

Conditions that a query could evaluate on a table can be evaluated there by every other
command: rows are counted, changed and removed by the same conditions, and they are the rows
that the query shows. Only a rule of the tables can be in the way of the writes.
-/

namespace Relata

open Text

namespace Condition

variable {f : Frame} {row : Row}

theorem truth_measured (ms : List Measure) (c : Condition) :
    truth { f with measures := ms } row c = truth f row c := by
  induction c using Condition.induction with
  | group c parts ih =>
    have hparts : ∀ part ∈ parts, conjunctionTruth { f with measures := ms } row part =
        conjunctionTruth f row part := fun part hp =>
      congrArg Truth.all (List.map_congr_left fun d hd => ih part hp d hd)
    cases c <;> simp only [truth, partTruths_eq, List.map_congr_left hparts]
  | _ => rfl

theorem conjunctionTruth_measured (ms : List Measure) (cs : List Condition) :
    conjunctionTruth { f with measures := ms } row cs = conjunctionTruth f row cs :=
  congrArg Truth.all (List.map_congr_left fun c _ => truth_measured ms c)

theorem selects_measured (ms : List Measure) (cs : List Condition) :
    selects { f with measures := ms } cs row = selects f cs row := by
  simp only [selects, all_truths, conjunctionTruth_measured]

theorem strainsAll_of_strains {ms : List Measure} {cs : List Condition}
    (h : ∀ c ∈ cs, strains { f with measures := ms } row c = strains f row c) :
    strainsAll { f with measures := ms } row cs = strainsAll f row cs := by
  induction cs with
  | nil => rfl
  | cons c cs ih =>
    obtain ⟨hc, hcs⟩ := List.forall_mem_cons.mp h
    simp only [strainsAll, hc, truth_measured, ih hcs]

theorem strains_measured (ms : List Measure) (c : Condition) :
    strains { f with measures := ms } row c = strains f row c := by
  induction c using Condition.induction with
  | group c parts ih =>
    have each (goesOn : Bool) : strainsEach goesOn { f with measures := ms } row parts =
        strainsEach goesOn f row parts := by
      induction parts with
      | nil => rfl
      | cons part parts ihparts =>
        obtain ⟨hpart, hparts⟩ := List.forall_mem_cons.mp ih
        simp only [strainsEach, strainsAll_of_strains hpart, all_truths,
          conjunctionTruth_measured, ihparts hparts]
    cases c <;> simp only [strains, each]
  | _ => rfl

def Visit.name? : Visit → Option String
  | joint => none
  | test name => some name
  | likeness name => some name
  | comparison name => name

theorem complaint?_eq_none {isUnknown : String → Bool} {found : Option String}
    {visits : List Visit} :
    complaint? isUnknown found visits = none ↔
      found = none ∧ ∀ v ∈ visits, ∀ name ∈ v.name?, isUnknown name = false := by
  induction visits generalizing found with
  | nil => simp [complaint?]
  | cons v visits ih =>
    cases v with
    | joint => cases found <;> simp [complaint?, ih, Visit.name?]
    | test name => cases h : isUnknown name <;> simp [complaint?, ih, Visit.name?, Option.filter, h]
    | likeness name =>
      cases h : isUnknown name <;> simp [complaint?, ih, Visit.name?, Option.filter, h]
    | comparison name =>
      cases found with
      | some other => simp [complaint?]
      | none =>
        cases name with
        | none => simp [complaint?, ih, Visit.name?]
        | some name =>
          cases h : isUnknown name <;> simp [complaint?, ih, Visit.name?, Option.filter, h]

theorem mem_joined {parts : List (List Visit)} {part : List Visit} {v : Visit}
    (hp : part ∈ parts) (hv : v ∈ part) : v ∈ joined parts := by
  have hmem : v ∈ parts.flatten := List.mem_flatten.mpr ⟨part, hp, hv⟩
  unfold joined
  split
  · exact hmem
  · exact List.mem_cons_of_mem _ hmem

theorem visitsOfEach_eq (cs : List Condition) : visitsOfEach cs = cs.map visits := by
  induction cs with
  | nil => rfl
  | cons c cs ih => rw [visitsOfEach, ih, List.map_cons]

theorem visitsOfParts_eq (parts : List (List Condition)) :
    visitsOfParts parts = parts.map fun part => joined (part.map visits) := by
  induction parts with
  | nil => rfl
  | cons part parts ih => rw [visitsOfParts, ih, visitsOfEach_eq, List.map_cons]

theorem exists_visit {c : Condition} {name : String} (h : name ∈ columns c) :
    ∃ v ∈ visits c, name ∈ v.name? := by
  induction c using Condition.induction with
  | constant holds => cases h
  | group c parts ih =>
    rw [columns, columnsOfParts_eq] at h
    obtain ⟨part, hp, h⟩ := List.mem_flatMap.mp h
    rw [columnsOfAll_eq] at h
    obtain ⟨d, hd, h⟩ := List.mem_flatMap.mp h
    obtain ⟨v, hv, hname⟩ := ih part hp d hd h
    rw [visits, visitsOfParts_eq]
    exact ⟨v, mem_joined (List.mem_map_of_mem hp) (mem_joined (List.mem_map_of_mem hd) hv), hname⟩
  | _ =>
    cases List.mem_singleton.mp h
    exact ⟨_, List.mem_singleton_self _, rfl⟩

end Condition

namespace Frame

variable {f : Frame} {cs : List Condition}

theorem checkTested_ok (h : f.checkTested cs = .ok ()) :
    ∀ name ∈ Condition.columnsOfAll cs,
      (f.meaning? name).isSome = true ∨ (f.labelled? name).isSome = true := by
  intro name hname
  unfold checkTested at h
  split at h
  · cases h
  · next hnone =>
    obtain ⟨-, hknown⟩ := Condition.complaint?_eq_none.mp hnone
    rw [Condition.columnsOfAll_eq] at hname
    obtain ⟨c, hc, hname⟩ := List.mem_flatMap.mp hname
    obtain ⟨v, hv, hname⟩ := Condition.exists_visit hname
    rw [Condition.visitsOfEach_eq] at hknown
    have := hknown v (Condition.mem_joined (List.mem_map_of_mem hc) hv) name hname
    revert this
    cases f.meaning? name <;> cases f.labelled? name <;> simp

theorem meaning_of_checkTested (h : f.checkTested cs = .ok ()) (none : f.measures = []) :
    ∀ name ∈ Condition.columnsOfAll cs, (f.meaning? name).isSome = true := by
  intro name hname
  refine (checkTested_ok h name hname).resolve_right ?_
  rw [labelled?, none]
  simp

theorem checkTested_measured (h : f.checkTested cs = .ok ()) (none : f.measures = [])
    (ms : List Measure) : { f with measures := ms }.checkTested cs = .ok () := by
  unfold checkTested at h ⊢
  split at h
  · cases h
  · next hnone =>
    have hunknown : Condition.unknown? { f with measures := ms } cs = Option.none := by
      refine Condition.complaint?_eq_none.mpr ⟨rfl, fun v hv name hname => ?_⟩
      have := (Condition.complaint?_eq_none.mp hnone).2 v hv name hname
      rw [labelled?, none] at this
      have hmeaning : ({ f with measures := ms } : Frame).meaning? name = f.meaning? name := rfl
      rw [hmeaning, Bool.and_eq_false_iff]
      exact .inl (by simpa using this)
    rw [hunknown]

theorem checkUse_ok {names : List String} (ordinary : f.measures.any Measure.isDistinct = false)
    (known : ∀ name ∈ names, (f.meaning? name).isSome = true) : f.checkUse names = .ok () := by
  have hmisused : f.misused? names = none := by
    refine List.findSome?_eq_none_iff.mpr fun name hname => ?_
    have hknown := Option.isSome_iff_ne_none.mp (known name hname)
    exact if_neg fun hnone => hknown (Option.isNone_iff_eq_none.mp hnone)
  rw [checkUse, ordinary, hmisused]
  rfl

theorem checkPatterns_measured (ms : List Measure) (rows : List Row) :
    { f with measures := ms }.checkPatterns cs rows = f.checkPatterns cs rows := by
  have hstrains (row : Row) : Condition.strainsAll { f with measures := ms } row cs =
      Condition.strainsAll f row cs :=
    Condition.strainsAll_of_strains fun c _ => Condition.strains_measured ms c
  simp only [checkPatterns, hstrains]

end Frame

def Refusal.IsViolation (r : Refusal) : Prop :=
  r.kind ≠ .other

theorem Refusal.isViolation_brokenReference : Refusal.brokenReference.IsViolation := by
  simp [IsViolation, kind]

namespace Definition

variable {d : Definition} {selected : Row → Bool} {cells : List (String × Scalar)}

def rewritten (d : Definition) (cells : List (String × Scalar)) (row : Row) : Row :=
  match d.changedNumber row cells with
  | .ok number => d.changedRow row number cells
  | .error _ => row

def Numbers (d : Definition) (cells : List (String × Scalar)) : Prop :=
  ∀ s, d.givenNumber? cells = some s → ∃ number, asNumber s = .ok number

theorem isViolation_checkRow {others : List Row} {row : Row} {r : Refusal}
    (h : d.checkRow others row = .error r) : r.IsViolation := by
  unfold checkRow at h
  split at h
  · cases h
    simp [Refusal.IsViolation, Refusal.kind]
  · split at h
    · cases h
      simp [Refusal.IsViolation, Refusal.kind]
    · cases h

theorem changedRow_of_numbers (numbers : d.Numbers cells) (row : Row) :
    ∃ number, d.changedNumber row cells = .ok number ∧
      d.rewritten cells row = d.changedRow row number cells := by
  have hchanged : ∃ number, d.changedNumber row cells = .ok number := by
    unfold changedNumber
    split
    · exact ⟨row.number, rfl⟩
    · next s hs => exact numbers s hs
  obtain ⟨number, hnumber⟩ := hchanged
  refine ⟨number, hnumber, ?_⟩
  rw [rewritten, hnumber]

/-- All of the selected rows are rewritten and counted, and no other row is touched, unless a
rule is in the way. -/
theorem changeRows_eq (numbers : d.Numbers cells) (done rows : List Row) (n : Nat) :
    (∃ r : Refusal, d.changeRows selected cells done rows n = .error r ∧ r.IsViolation) ∨
      d.changeRows selected cells done rows n =
        .ok (done ++ rows.map (fun row => if selected row then d.rewritten cells row else row),
          n + (rows.filter selected).length) := by
  induction rows generalizing done n with
  | nil => exact .inr (by simp [changeRows])
  | cons row rest ih =>
    cases hrow : selected row with
    | false =>
      have hstep : d.changeRows selected cells done (row :: rest) n =
          d.changeRows selected cells (done ++ [row]) rest n := by
        simp [changeRows, hrow]
      rw [hstep]
      simpa [hrow] using ih (done ++ [row]) n
    | true =>
      obtain ⟨number, hnumber, hrewritten⟩ := changedRow_of_numbers numbers row
      have hstep : d.changeRows selected cells done (row :: rest) n = (do
          d.checkRow (done ++ rest) (d.rewritten cells row)
          d.changeRows selected cells (done ++ [d.rewritten cells row]) rest (n + 1)) := by
        rw [changeRows, if_pos hrow, hnumber, hrewritten]
        rfl
      rw [hstep]
      cases hcheck : d.checkRow (done ++ rest) (d.rewritten cells row) with
      | error r => exact .inl ⟨r, rfl, isViolation_checkRow hcheck⟩
      | ok _ =>
        have := ih (done ++ [d.rewritten cells row]) (n + 1)
        simpa [hrow, Nat.add_assoc, Nat.add_comm 1, Bind.bind, Except.bind] using this

theorem changeRows_ok {done rows rows' : List Row} {n k : Nat}
    (h : d.changeRows selected cells done rows n = .ok (rows', k)) :
    rows' = done ++ rows.map (fun row => if selected row then d.rewritten cells row else row) ∧
      k = n + (rows.filter selected).length := by
  induction rows generalizing done n with
  | nil =>
    cases h
    simp
  | cons row rest ih =>
    rw [changeRows] at h
    split at h
    · next hrow =>
      obtain ⟨number, hnumber, h⟩ := bind_eq_ok.mp h
      obtain ⟨_, -, h⟩ := bind_eq_ok.mp h
      have hrewritten : d.rewritten cells row = d.changedRow row number cells := by
        rw [rewritten, hnumber]
      obtain ⟨rfl, rfl⟩ := ih h
      simp [hrow, hrewritten, Nat.add_assoc, Nat.add_comm 1]
    · next hrow =>
      obtain ⟨rfl, rfl⟩ := ih h
      simp [hrow]

theorem checkGiven_ok {refuse : String → Refusal} {names : List String}
    (held : ∀ n ∈ names, d.holds n = true) : d.checkGiven refuse names = .ok () := by
  induction names with
  | nil => rfl
  | cons n names ih =>
    obtain ⟨hn, hnames⟩ := List.forall_mem_cons.mp held
    rw [checkGiven, if_pos hn, ih hnames]

def StandsFor (d : Definition) (name : String) (c : Column) : Prop :=
  sameFolded name c.name = true ∨ d.isKey c.name = true ∧ d.isNumber name = true

theorem cell_rewritten (regular : d.Regular) {row : Row} (fits : d.Fits row) {c : Column}
    (hc : c ∈ d.columns) (apart : ∀ e ∈ cells, ¬ d.StandsFor e.1 c) :
    d.cell (d.rewritten cells row) c.name = d.cell row c.name := by
  have hgiven : given? c cells.reverse = none := by
    rw [given?, Option.map_eq_none_iff, List.find?_eq_none]
    exact fun e he hfolded => apart e (List.mem_reverse.mp he) (.inl hfolded)
  rw [rewritten]
  split
  · next number hnumber =>
    rw [regular.cell_changedRow hc fits.length, hgiven]
    cases hkey : d.isKey c.name with
    | false => rfl
    | true =>
      have hnone : d.givenNumber? cells = none := by
        rw [givenNumber?, Option.map_eq_none_iff, List.find?_eq_none]
        exact fun e he hisNumber => apart e (List.mem_reverse.mp he) (.inr ⟨hkey, hisNumber⟩)
      rw [changedNumber, hnone] at hnumber
      cases hnumber
      rw [if_pos rfl, fits.numbered c hc hkey]
  · rfl

end Definition

theorem perm_map_filter {α : Type} (p : α → Bool) (g : α → α) (as : List α) :
    (as.map fun a => if p a then g a else a).Perm
      ((as.filter p).map g ++ as.filter fun a => !p a) := by
  induction as with
  | nil => exact .refl _
  | cons a as ih =>
    cases h : p a with
    | true => simpa [h] using ih
    | false => simpa [h] using (ih.cons a).trans List.perm_middle.symm

namespace Database

variable {db : Database} {table : String} {t : Table} {cs : List Condition}

/-- Conditions that can be evaluated on the rows of a table. -/
structure Evaluates (db : Database) (t : Table) (cs : List Condition) : Prop where
  tested : (db.frame t).checkTested cs = .ok ()
  patterns : (db.frame t).checkPatterns cs t.rows = .ok ()

def chosen (db : Database) (t : Table) (cs : List Condition) : List Row :=
  t.rows.filter (Condition.selects (db.frame t) cs)

def unchosen (db : Database) (t : Table) (cs : List Condition) : List Row :=
  t.rows.filter fun row => !Condition.selects (db.frame t) cs row

theorem perm_chosen (db : Database) (t : Table) (cs : List Condition) :
    t.rows.Perm (db.chosen t cs ++ db.unchosen t cs) :=
  (List.filter_append_perm _ _).symm

theorem evaluates_nil (db : Database) (t : Table) : db.Evaluates t [] := by
  refine ⟨rfl, ?_⟩
  have hnone : (t.rows.any fun row => Condition.strainsAll (db.frame t) row []) = false := by
    simp [Condition.strainsAll]
  rw [Frame.checkPatterns, hnone]
  rfl

theorem chosen_nil (db : Database) (t : Table) : db.chosen t [] = t.rows :=
  List.filter_eq_self.mpr fun _ _ => rfl

theorem evaluates_of_query (ht : db.table? table = some t) {records : List Record}
    (h : db.query .everything table cs [] {} = .ok records) :
    db.Evaluates t cs ∧
      ∃ rows : List Row, rows.Perm (db.chosen t cs) ∧ records = rows.map t.definition.record := by
  obtain ⟨rows, hperm, hrecords⟩ := query_page_ok ht h
  obtain ⟨u, hu, hshown⟩ := bind_eq_ok.mp h
  cases (table_eq ht).symm.trans hu
  obtain ⟨_, -, htested⟩ := bind_eq_ok.mp hshown
  obtain ⟨_, tested, hnames⟩ := bind_eq_ok.mp htested
  obtain ⟨_, -, huse⟩ := bind_eq_ok.mp hnames
  obtain ⟨_, -, hpatterns⟩ := bind_eq_ok.mp huse
  obtain ⟨_, patterns, -⟩ := bind_eq_ok.mp hpatterns
  exact ⟨⟨tested, patterns⟩, rows, hperm, hrecords⟩

namespace Evaluates

variable (evaluates : db.Evaluates t cs) (ht : db.table? table = some t)

include evaluates ht

theorem query {p : Projection} (shown : (db.frame t p.measureList).checkShown p = .ok ())
    (ordinary : p.measureList.any Measure.isDistinct = false) :
    ∃ rows : List Row, rows.Perm (db.chosen t cs) ∧
      db.query p table cs [] {} = (db.frame t p.measureList).project rows p := by
  have tested : (db.frame t p.measureList).checkTested cs = .ok () :=
    Frame.checkTested_measured evaluates.tested rfl _
  have names : (db.frame t p.measureList).checkNames (Order.fields []) = .ok () := rfl
  have use : (db.frame t p.measureList).checkUse (Condition.columnsOfAll cs) = .ok () :=
    Frame.checkUse_ok ordinary fun name hname =>
      @Frame.meaning_of_checkTested (db.frame t) _ evaluates.tested rfl name hname
  have patterns : (db.frame t p.measureList).checkPatterns cs t.rows = .ok () :=
    (Frame.checkPatterns_measured _ _).trans evaluates.patterns
  have hchosen : t.rows.filter (Condition.selects (db.frame t p.measureList) cs) =
      db.chosen t cs :=
    List.filter_congr fun row _ => @Condition.selects_measured (db.frame t) row p.measureList cs
  rw [Database.query, table_eq ht]
  simp only [Bind.bind, Except.bind, shown, tested, names, use, patterns, hchosen]
  generalize hrows : Order.sort _ _ _ = rows
  refine ⟨rows, ?_, by cases p <;> rfl⟩
  rw [← hrows]
  exact (List.mergeSort_perm _ _).trans (Access.perm_arrange _ _ _)

theorem count : db.query (.measures [.ofRows]) table cs [] {} =
    .ok [[(countLabel, .integer (Int64.ofNat (db.chosen t cs).length))]] := by
  obtain ⟨rows, hperm, hquery⟩ := evaluates.query (p := .measures [.ofRows]) ht rfl rfl
  rw [hquery, ← hperm.length_eq]
  rfl

theorem update {cells : List (String × Scalar)}
    (held : ∀ e ∈ cells, t.definition.holds e.1 = true) (numbers : t.definition.Numbers cells) :
    (∃ r : Refusal, db.update table cells cs = .error r ∧ r.IsViolation) ∨
      ∃ rows : List Row,
        rows.Perm ((db.chosen t cs).map (t.definition.rewritten cells) ++ db.unchosen t cs) ∧
        db.update table cells cs = .ok (db.setRows table rows, (db.chosen t cs).length) := by
  have hgiven : t.definition.checkGiven .noColumn (cells.map Prod.fst) = .ok () :=
    Definition.checkGiven_ok (List.forall_mem_map.mpr held)
  rcases @Definition.changeRows_eq _ (Condition.selects (db.frame t) cs) _ numbers [] t.rows 0
    with ⟨r, hr, violation⟩ | hrows
  · refine .inl ⟨r, ?_, violation⟩
    rw [Database.update, writable_eq ht]
    simp only [Bind.bind, Except.bind, hgiven, evaluates.tested, evaluates.patterns, hr]
  · rw [Database.update, writable_eq ht]
    simp only [Bind.bind, Except.bind, hgiven, evaluates.tested, evaluates.patterns, hrows,
      List.nil_append, Nat.zero_add]
    split
    · exact .inl ⟨.brokenReference, rfl, Refusal.isViolation_brokenReference⟩
    · exact .inr ⟨_, (List.mergeSort_perm _ _).trans (perm_map_filter _ _ _), rfl⟩

theorem delete (uncascaded : db.Uncascaded) :
    (∃ r : Refusal, db.delete table cs = .error r ∧ r.IsViolation) ∨
      db.delete table cs =
        .ok (db.setRows table (db.unchosen t cs), (db.chosen t cs).length) := by
  have hdelete : db.delete table cs =
      if (db.setRows table (db.unchosen t cs)).broken false then .error .brokenReference
      else .ok (db.setRows table (db.unchosen t cs), (db.chosen t cs).length) := by
    rw [Database.delete, writable_eq ht]
    simp only [Bind.bind, Except.bind, evaluates.tested, evaluates.patterns,
      cascade_eq (uncascaded.setRows _), ite_self]
    rfl
  rw [hdelete]
  split
  · exact .inl ⟨.brokenReference, rfl, Refusal.isViolation_brokenReference⟩
  · exact .inr rfl

end Evaluates

end Database

/-! ## Connections -/

namespace Connection

variable {c : Connection} {k : Command} {a : Answer} {table : String} {t : Table}
  {cs cs' : List Condition}

/-- Whether a command, if it is refused, is refused for something else than a rule of the
tables. -/
def Unviolated (c : Connection) (k : Command) : Prop :=
  ∀ r, (c.execute k).1 = .error r → ¬ r.IsViolation

/-- What takes effect is refused for a rule, or is the database of the connection. -/
theorem settle_cases (c : Connection) (db : Database) (n : Nat) :
    (∃ r : Refusal, c.settle db n = .error r ∧ r.IsViolation) ∨
      c.settle db n = .ok ({ count := n }, c.written db n) := by
  rw [settle]
  split
  · exact .inl ⟨.brokenReference, rfl, Refusal.isViolation_brokenReference⟩
  · exact .inr rfl

theorem runLimited_write {x : Except Refusal (Database × Nat)} {db : Database} {n : Nat}
    (hrun : c.run? k = (do let (db, n) ← x; c.settle db n)) (limits : k.checkLimits = .ok ())
    (unviolated : ∀ r, (c.runLimited k).1 = .error r → ¬ r.IsViolation)
    (h : (∃ r : Refusal, x = .error r ∧ r.IsViolation) ∨ x = .ok (db, n)) :
    c.runLimited k = (.ok { count := n }, c.written db n) := by
  rw [runLimited, limits, run, hrun] at unviolated ⊢
  rcases h with ⟨r, rfl, violation⟩ | rfl
  · exact absurd violation (unviolated r rfl)
  · rcases c.settle_cases db n with ⟨r, hr, violation⟩ | hok
    · simp only [Bind.bind, Except.bind, hr] at unviolated
      exact absurd violation (unviolated r rfl)
    · simp only [Bind.bind, Except.bind, hok]

/-- Conditions by which rows of a table can be chosen, and what they are carried out as. -/
structure Chooses (c : Connection) (table : String) (t : Table) (cs cs' : List Condition) :
    Prop where
  known : c.database.table? table = some t
  carries : Carries table cs cs'
  evaluates : c.database.Evaluates t cs'
  limits : (Command.delete table cs').checkLimits = .ok ()

/-- What a selection without order and page answers are the records of the rows that its
conditions choose, whatever they are carried out as. All rows can be chosen, too. -/
theorem exists_chooses (named : PlainName table.toList) (plain : ∀ x ∈ cs, Condition.Plain x)
    (known : c.database.table? table = some t)
    (h : (c.execute (.query .everything table cs [] {})).1 = .ok a) :
    ∃ cs', c.Chooses table t cs cs' ∧ Carries table [] [] ∧
      a.rows.Perm ((c.database.chosen t cs').map t.definition.record) ∧
      ((∀ name ∈ table :: Condition.columnsOfAll cs, Sql.isKeyword name.toList = false) →
        cs' = cs) := by
  obtain ⟨⟨cs', carries, same⟩, whole⟩ := exists_carries named plain h
  rw [carries.showing] at h
  obtain ⟨evaluates, rows, hperm, hrows⟩ :=
    Database.evaluates_of_query known (query_of_run? (runLimited_ok h))
  have limits : (Command.query .everything table cs' [] {}).checkLimits = .ok () := by
    rw [runLimited] at h
    split at h
    · next limits => exact limits
    · cases h
  rw [hrows]
  exact ⟨cs', ⟨known, carries, evaluates, limits⟩, whole, hperm.map _, same⟩

namespace Chooses

theorem whole (whole : Carries table [] []) (known : c.database.table? table = some t) :
    c.Chooses table t [] [] :=
  ⟨known, whole, Database.evaluates_nil _ t, rfl⟩

variable (chooses : c.Chooses table t cs cs')

include chooses

theorem execute_count : c.execute (.query (.measures [.ofRows]) table cs [] {}) =
    (.ok { rows := [[(countLabel, .integer (Int64.ofNat (c.database.chosen t cs').length))]]
           count := c.changes }, c) := by
  have limits : (Command.query (.measures [.ofRows]) table cs' [] {}).checkLimits = .ok () :=
    chooses.limits
  rw [chooses.carries.counting, runLimited, limits, run, run?,
    chooses.evaluates.count chooses.known]
  rfl

theorem execute_delete (uncascaded : c.database.Uncascaded)
    (unviolated : c.Unviolated (.delete table cs)) :
    c.execute (.delete table cs) =
      (.ok { count := (c.database.chosen t cs').length },
        c.written (c.database.setRows table (c.database.unchosen t cs'))
          (c.database.chosen t cs').length) := by
  rw [Unviolated, chooses.carries.removal] at unviolated
  rw [chooses.carries.removal]
  exact runLimited_write rfl chooses.limits unviolated
    (chooses.evaluates.delete chooses.known uncascaded)

theorem execute_update {cells : List (String × Scalar)} (some : cells ≠ [])
    (names : ∀ cell ∈ cells, PlainName cell.1.toList ∧ Sql.isKeyword cell.1.toList = false)
    (held : ∀ cell ∈ cells, t.definition.holds cell.1 = true)
    (numbers : t.definition.Numbers cells)
    (marks : (Command.update table cells cs).params.length ≤ Command.mostMarks)
    (unviolated : c.Unviolated (.update table cells cs)) :
    ∃ rows : List Row,
      rows.Perm ((c.database.chosen t cs').map (t.definition.rewritten cells) ++
        c.database.unchosen t cs') ∧
      c.execute (.update table cells cs) =
        (.ok { count := (c.database.chosen t cs').length },
          c.written (c.database.setRows table rows) (c.database.chosen t cs').length) := by
  have hcarried := chooses.carries.assignment c some names
  rw [Unviolated, hcarried] at unviolated
  rw [hcarried]
  have limits : (Command.update table cells cs').checkLimits = .ok () := by
    have hparams : (Command.update table cells cs').params =
        (Command.update table cells cs).params := by
      rw [Command.params, Command.params, chooses.carries.operands]
    have hlimits := chooses.limits
    unfold Command.checkLimits at hlimits ⊢
    split at hlimits
    · cases hlimits
    · next shallow =>
      exact (if_neg shallow).trans (if_neg (by rw [hparams]; exact Nat.not_lt.mpr marks))
  rcases chooses.evaluates.update chooses.known held numbers with hviolation | ⟨rows, hperm, hrows⟩
  · exact ⟨_, .refl _, runLimited_write rfl limits unviolated (.inl hviolation)⟩
  · exact ⟨rows, hperm, runLimited_write rfl limits unviolated (.inr hrows)⟩

end Chooses

end Connection

end Relata
