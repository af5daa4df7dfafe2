import Mathlib.Data.List.Forall2
import Relata.Proofs.Model.Cost

/-! # What a tree adds

Whatever the store replies, attaching a tree to a batch leaves the batch as it is but for the
fields of the relations that the tree includes and the schema knows. Each of them is there in
the end, with a list or with at most one record as the relation has it.
-/

namespace Relata

namespace Op

variable {α β : Type} {x : Op α} {f : α → Op β} {mid : α → Prop} {post : β → Prop}

/-- Whatever it is replied, the results of an operation are of a kind, unless it fails. -/
def Gives (x : Op α) (post : α → Prop) : Prop :=
  x.run.Ends (fun _ => True) fun result => ∀ a, result = .ok a → post a

namespace Gives

theorem pure {a : α} {post : α → Prop} (h : post a) : Gives (Pure.pure a : Op α) post := by
  rintro b ⟨⟩
  exact h

theorem mono {post : α → Prop} (h : x.Gives mid) (himp : ∀ a, mid a → post a) : x.Gives post :=
  Script.Ends.mono h fun _ hresult a ha => himp a (hresult a ha)

theorem any (x : Op α) : x.Gives fun _ => True := by
  have ends (y : Script (Except Failure α)) :
      y.Ends (fun _ => True) fun result => ∀ a, result = .ok a → True := by
    induction y with
    | done result => exact fun _ _ => trivial
    | step r instead next ih => exact fun reply _ => ih reply
  exact ends x.run

theorem bind (first : x.Gives mid) (rest : ∀ a, mid a → (f a).Gives post) :
    (x >>= f).Gives post := by
  have hbind : (x >>= f).run = x.run >>= ExceptT.bindCont f := rfl
  rw [Gives, hbind]
  refine Script.Ends.bind first fun result hresult => ?_
  cases result with
  | error e => exact nofun
  | ok a => exact rest a (hresult a rfl)

end Gives

theorem Gives.run {post : α → Prop} (gives : x.Gives post) {s : Session} {a : α}
    (h : (s.run x.run).1 = .ok a) : post a := by
  have ends {γ : Type} {y : Script γ} {post : γ → Prop} (hy : y.Ends (fun _ => True) post)
      (s : Session) : post (s.run y).1 := by
    induction y generalizing s with
    | done a => exact hy
    | step r instead next ih => exact ih _ (hy _ trivial) _
  exact ends gives s a h

end Op

def Relation.Holds (r : Relation) (v : Value) : Prop :=
  match r.cardinality with
  | .oneToMany => ∃ rows : List Record, v = .array (rows.map .object)
  | .manyToOne => v = .null ∨ ∃ row : Record, v = .object row

theorem Relation.holds_attached (r : Relation) (page : Page) (select : Option Select)
    (group : List Record) : r.Holds (r.attached page select group) := by
  rw [Holds, attached]
  cases r.cardinality with
  | oneToMany => exact ⟨_, rfl⟩
  | manyToOne =>
    simp only
    cases Select.narrowAll select (group.take 1) with
    | nil => exact .inl rfl
    | cons row rows => exact .inr ⟨row, rfl⟩

namespace Model

/-- A field under which a tree attaches a relation that the schema knows. -/
def Includes (m : Model) (tree : Include) (field : String) (r : Relation) : Prop :=
  field ∈ tree.names ∧ m.schema.relation? m.table field = some r

/-- A record with the relations of a tree: all else is as it was and where it was. -/
structure Completes (m : Model) (tree : Include) (p q : Record) : Prop where
  value {name : String} : (∀ r, ¬ m.Includes tree name r) →
    Entries.get? q name = Entries.get? p name
  place {i : Nat} {e : String × Value} : p[i]? = some e → (∀ r, ¬ m.Includes tree e.1 r) →
    q[i]? = some e
  names : ∃ added, Entries.names q = Entries.names p ++ added ∧
    ∀ field ∈ added, ∃ r, m.Includes tree field r
  attached {field : String} {r : Relation} : m.Includes tree field r →
    ∃ v, Entries.get? q field = some v ∧ r.Holds v

end Model

namespace Entries

variable {α : Type} {entries : Entries α} {name other : String} {a : α}

theorem getElem?_set {i : Nat} {e : String × α} (h : entries[i]? = some e) (hne : e.1 ≠ name) :
    (entries.set name a)[i]? = some e := by
  induction entries generalizing i with
  | nil => cases h
  | cons e' rest ih =>
    obtain ⟨n, b⟩ := e'
    rw [set]
    cases i with
    | zero =>
      cases h
      rw [if_neg hne]
      rfl
    | succ i =>
      split
      · exact h
      · exact ih h

end Entries

namespace Model

variable {m : Model} {tree rest : Include} {field : String} {scope : Scope} {r : Relation}
  {p q q' : Record}

theorem includes_cons_of_unknown (unknown : m.schema.relation? m.table field = none)
    {name : String} : m.Includes ((field, scope) :: rest) name r ↔ m.Includes rest name r := by
  refine ⟨fun ⟨mem, known⟩ => ⟨?_, known⟩, fun ⟨mem, known⟩ => ⟨List.mem_cons_of_mem _ mem, known⟩⟩
  rcases List.mem_cons.mp mem with rfl | mem
  · rw [unknown] at known
    cases known
  · exact mem

namespace Completes

theorem nil (m : Model) (p : Record) : m.Completes [] p p where
  value _ := rfl
  place h _ := h
  names := ⟨[], by simp, nofun⟩
  attached h := nomatch h.1

theorem cons_unknown (unknown : m.schema.relation? m.table field = none)
    (h : m.Completes rest p q) : m.Completes ((field, scope) :: rest) p q where
  value hnone := h.value fun r hr => hnone r ((includes_cons_of_unknown unknown).mpr hr)
  place he hnone := h.place he fun r hr => hnone r ((includes_cons_of_unknown unknown).mpr hr)
  names :=
    let ⟨added, hnames, hadded⟩ := h.names
    ⟨added, hnames, fun name hname =>
      (hadded name hname).imp fun _ => (includes_cons_of_unknown unknown).mpr⟩
  attached hr := h.attached ((includes_cons_of_unknown unknown).mp hr)

theorem cons_known (known : m.schema.relation? m.table field = some r) {v : Value} (hv : r.Holds v)
    (h : m.Completes rest (Entries.set p field v) q) :
    m.Completes ((field, scope) :: rest) p q := by
  have hfield : m.Includes ((field, scope) :: rest) field r := ⟨List.mem_cons_self, known⟩
  have later {name : String} {r' : Relation} (hr : m.Includes rest name r') :
      m.Includes ((field, scope) :: rest) name r' := ⟨List.mem_cons_of_mem _ hr.1, hr.2⟩
  obtain ⟨added, hnames, hadded⟩ := h.names
  refine ⟨?_, ?_, ?_, ?_⟩
  · intro name hnone
    rw [h.value fun r' hr => hnone r' (later hr), Entries.get?_set_of_ne]
    rintro rfl
    exact hnone r hfield
  · intro i e he hnone
    refine h.place (Entries.getElem?_set he ?_) fun r' hr => hnone r' (later hr)
    rintro rfl
    exact hnone r hfield
  · rw [Entries.names_set] at hnames
    split at hnames
    · exact ⟨added, hnames, fun name hname => (hadded name hname).imp fun _ => later⟩
    · refine ⟨field :: added, by rw [hnames, List.append_assoc]; rfl, fun name hname => ?_⟩
      rcases List.mem_cons.mp hname with rfl | hname
      · exact ⟨r, hfield⟩
      · exact (hadded name hname).imp fun _ => later
  · intro name r' hr
    by_cases hmem : name ∈ rest.names
    · exact h.attached ⟨hmem, hr.2⟩
    · obtain rfl : name = field := by
        rcases List.mem_cons.mp hr.1 with h | h
        · exact h
        · exact absurd h hmem
      obtain rfl : r = r' := Option.some.inj (known.symm.trans hr.2)
      refine ⟨v, ?_, hv⟩
      rw [h.value fun r' hr' => hmem hr'.1, Entries.get?_set_self]

end Completes

theorem gives_attachScope (m : Model) (field : String) (r : Relation) (scope : Scope)
    (rows : List Record) : (m.attachScope field r scope rows).Gives fun rows' =>
      ∃ v : Record → Value, (∀ p, r.Holds (v p)) ∧
        rows' = rows.map fun p => Entries.set p field (v p) := by
  rw [attachScope_eq]
  refine .bind (.any _) fun fetched _ => .pure ?_
  exact ⟨fun p => r.attached scope.page scope.select (r.group fetched p),
    fun p => r.holds_attached .., rfl⟩

/-- Whatever the store replies, attaching a tree completes each record of a batch in its place. -/
theorem gives_attach (m : Model) (tree : Include) (rows : List Record) :
    (m.attach tree rows).Gives fun rows' => List.Forall₂ (m.Completes tree) rows rows' := by
  induction tree generalizing rows with
  | nil => exact .pure (List.forall₂_same.mpr fun p _ => .nil m p)
  | cons e rest ih =>
    obtain ⟨field, scope⟩ := e
    rw [attach]
    split
    · next unknown => exact (ih rows).mono fun _ h => h.imp fun _ _ => .cons_unknown unknown
    · next r known =>
      refine .bind (gives_attachScope ..) ?_
      rintro _ ⟨v, hv, rfl⟩
      refine (ih _).mono fun rows' h => ?_
      exact (List.forall₂_map_left_iff.mp h).imp fun p q => .cons_known known (hv p)

end Model

end Relata
