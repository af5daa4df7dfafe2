import Relata.Proofs.Query.Refusals
import Relata.Proofs.Query.Sites
import Relata.Query.Aggregate
import Relata.Query.Find

/-! # Missing members

A descriptor need not have all of the members that it may have, and a member that is null counts
as missing, in a query as in the scopes of its relations. The selection of fields is the
exception: a descriptor in which it is null is refused.
-/

namespace Relata

/-! ## Members -/

namespace Json

variable {α : Type} {names : List String} {name other : String}
  {front back members more : List (String × Json)}

theorem member?_eq_none (h : name ∉ Entries.names members) : member? name members = none := by
  rw [member?, List.lookup_eq_none_iff]
  intro member mem
  have hne : name ≠ member.1 := by
    rintro rfl
    exact h (List.mem_map_of_mem mem)
  simpa using hne

theorem member?_middle (h : name ∉ Entries.names front) (item : Json) :
    member? name (front ++ (name, item) :: back) = some item := by
  have hfront : front.lookup name = none := member?_eq_none h
  simp [member?, List.lookup_append, hfront]

theorem member?_middle_of_ne (h : other ≠ name) (item : Json) :
    member? other (front ++ (name, item) :: back) = member? other (front ++ back) := by
  have hne : (other == name) = false := by simpa using h
  simp [member?, List.lookup_append, List.lookup_cons, hne]

/-- An object has one more member, a null under one of these names that it has not had before. -/
inductive Pads (names : List String) (name : String) :
    List (String × Json) → List (String × Json) → Prop
  | intro {front back : List (String × Json)} (known : name ∈ names)
      (missing : name ∉ Entries.names (front ++ back)) :
      Pads names name (front ++ back) (front ++ (name, .null) :: back)

theorem Pads.member?_of_ne (h : Pads names name members more) (hne : other ≠ name) :
    member? other more = member? other members := by
  cases h with
  | intro known missing => exact member?_middle_of_ne hne _

theorem Pads.member?_self (h : Pads names name members more) :
    member? name members = none ∧ member? name more = some .null := by
  cases h with
  | intro known missing =>
    constructor
    · exact member?_eq_none missing
    · apply member?_middle
      intro mem
      exact missing (by simp_all [Entries.names])

def readMember (read : Json → Except Fault α) (absent : α) (name : String)
    (members : List (String × Json)) : Except Fault α :=
  match member? name members with
  | some item => read item
  | none => .ok absent

variable {read : Json → Except Fault α} {absent : α}

theorem readMember_congr (h : member? name more = member? name members) :
    readMember read absent name more = readMember read absent name members := by
  unfold readMember
  rw [h]

theorem Pads.readMember (h : Pads names name members more)
    (hnull : other = name → read .null = .ok absent) :
    readMember read absent other more = readMember read absent other members := by
  by_cases hother : other = name
  · subst hother
    unfold Json.readMember
    rw [h.member?_self.1, h.member?_self.2]
    exact hnull rfl
  · exact readMember_congr (h.member?_of_ne hother)

/-- Each of these members may be null in place of missing, one after another. -/
inductive Padded (pads : String → List (String × Json) → List (String × Json) → Prop) :
    List String → List (String × Json) → List (String × Json) → Prop
  | none (members : List (String × Json)) : Padded pads [] members members
  | one {name : String} {added : List String} {members more most : List (String × Json)}
      (before : Padded pads added members more) (last : pads name more most) :
      Padded pads (name :: added) members most

end Json

open Json

variable {name : String} {members more : List (String × Json)}

/-! ## Pages -/

theorem Page.count_congr (h : member? name more = member? name members) :
    Page.count more name = Page.count members name := by
  unfold member? at h
  unfold Page.count
  rw [h]

theorem Page.count_pads {names : List String} {other : String}
    (h : Pads names name members more) : Page.count more other = Page.count members other := by
  by_cases hother : other = name
  · subst hother
    obtain ⟨hmissing, hnull⟩ := h.member?_self
    unfold member? at hmissing hnull
    simp only [Page.count, hmissing, hnull]
  · exact Page.count_congr (h.member?_of_ne hother)

/-! ## Aggregates -/

namespace Aggregate

def memberNames : List String :=
  ["where", "_count", "_sum", "_avg", "_min", "_max"]

theorem ofJson_object (members : List (String × Json)) :
    ofJson (.object members) = do
      let filter ← readMember Filter.ofJson [] "where" members
      let count ← readMember countedOfJson none "_count" members
      let sum ← readMember (selected "_sum") [] "_sum" members
      let avg ← readMember (selected "_avg") [] "_avg" members
      let min ← readMember (selected "_min") [] "_min" members
      let max ← readMember (selected "_max") [] "_max" members
      return { filter, count, sum, avg, min, max } := by
  unfold ofJson readMember selectedUnder
  simp only [Fold.group]
  cases member? "where" members <;> cases member? "_count" members <;> rfl

theorem ofJson_pads (h : Pads memberNames name members more) :
    ofJson (.object more) = ofJson (.object members) := by
  have hfilter : readMember Filter.ofJson [] "where" more = _ := h.readMember fun _ => rfl
  have hcount : readMember countedOfJson none "_count" more = _ := h.readMember fun _ => rfl
  have hgroup (group : String) :
      readMember (selected group) [] group more = readMember (selected group) [] group members :=
    h.readMember fun _ => rfl
  simp only [ofJson_object, hfilter, hcount, hgroup]

end Aggregate

/-! ## Queries and scopes -/

def Fault.nullSelection : Fault :=
  .malformed (.notObject "select" "null")

theorem Fault.Only.after {α β : Type} {e : Fault} {x : Except Fault α} {f g : α → Except Fault β}
    (h : Only (· = e) (x >>= f)) (rest : ∀ a, Only (· = e) (f a) → g a = .error e) :
    x >>= g = .error e := by
  cases x with
  | error e' =>
    have he : e' = e := h e' rfl
    rw [he]
    rfl
  | ok a => exact rest a h

namespace Include

/-- What is read of the members of a query, or of the scope of a relation. -/
structure Parts where
  filter : Except Fault Filter
  order : Except Fault Order
  page : Except Fault Page
  select : Except Fault (Option Select)
  nested : Except Fault Include

namespace Parts

def ofMembers (members : List (String × Json)) : Parts where
  filter := readMember Filter.ofJson [] "where" members
  order := readMember Order.ofJson [] "orderBy" members
  page := Page.ofMembers members
  select := readMember (fun s => (Select.ofJson s).map some) none "select" members
  nested := readMember ofJson [] "include" members

def find (p : Parts) : Except Fault Find := do
  let page ← p.page
  let filter ← p.filter
  let select ← p.select
  let attach ← p.nested
  let order ← p.order
  return { filter, select, attach, order, page }

def scope (p : Parts) : Except Fault Scope := do
  let filter ← p.filter
  let order ← p.order
  let page ← p.page
  let select ← p.select
  let nested ← p.nested
  return { filter, order, page, select, nested }

/-- A selection is null, here or in the scope of a relation. -/
inductive Spoils (p : Parts) : Parts → Prop
  | select : Spoils p { p with select := .error .nullSelection }
  | nested {nested : Except Fault Include}
      (h : Fault.Only (· = .nullSelection) p.nested → nested = .error .nullSelection) :
      Spoils p { p with nested }

variable {p q : Parts}

theorem spoil {α β : Type} {e : Fault} {x y : Except Fault α} {f : α → Except Fault β}
    (h : Fault.Only (· = e) x → y = .error e) (only : Fault.Only (· = e) (x >>= f)) :
    y >>= f = .error e := by
  have hx : Fault.Only (· = e) x := by
    intro e' he
    apply only
    rw [he]
    rfl
  rw [h hx]
  rfl

theorem Spoils.find (h : Spoils p q) (only : Fault.Only (· = .nullSelection) p.find) :
    q.find = .error .nullSelection := by
  unfold Parts.find at only ⊢
  cases h with
  | select =>
    apply only.after
    intro page only
    apply only.after
    intro filter only
    rfl
  | nested h =>
    apply only.after
    intro page only
    apply only.after
    intro filter only
    apply only.after
    intro select only
    exact spoil h only

theorem Spoils.scope (h : Spoils p q) (only : Fault.Only (· = .nullSelection) p.scope) :
    q.scope = .error .nullSelection := by
  unfold Parts.scope at only ⊢
  cases h with
  | select =>
    apply only.after
    intro filter only
    apply only.after
    intro order only
    apply only.after
    intro page only
    rfl
  | nested h =>
    apply only.after
    intro filter only
    apply only.after
    intro order only
    apply only.after
    intro page only
    apply only.after
    intro select only
    exact spoil h only

end Parts

theorem nestedOfMembers_eq (members : List (String × Json)) :
    nestedOfMembers members = readMember ofJson [] "include" members := by
  induction members with
  | nil =>
    rw [nestedOfMembers]
    rfl
  | cons member members ih =>
    obtain ⟨name, item⟩ := member
    rw [nestedOfMembers, ih]
    unfold readMember member?
    by_cases hname : name = "include"
    · simp [hname]
    · have hne : ("include" == name) = false := beq_false_of_ne (Ne.symm hname)
      simp [hname, List.lookup_cons, hne]

theorem scopeOfMembers_eq (members : List (String × Json)) :
    scopeOfMembers members = (Parts.ofMembers members).scope := by
  rw [scopeOfMembers, nestedOfMembers_eq]
  unfold Parts.ofMembers Parts.scope readMember
  cases member? "where" members <;> cases member? "orderBy" members <;>
    cases member? "select" members <;> rfl

theorem find_ofJson_eq (members : List (String × Json)) :
    Find.ofJson (.object members) = (Parts.ofMembers members).find := by
  simp only [Find.ofJson, Parts.ofMembers, Parts.find, readMember]
  cases member? "where" members <;> cases member? "select" members <;>
    cases member? "include" members <;> cases member? "orderBy" members <;> rfl

theorem ofMembers_append (tree : Include) (before after : List (String × Json)) :
    ofMembers tree (before ++ after) =
      ofMembers tree before >>= fun tree => ofMembers tree after := by
  induction before generalizing tree with
  | nil =>
    rw [ofMembers]
    rfl
  | cons member before ih =>
    obtain ⟨name, item⟩ := member
    cases item with
    | null => simp only [List.cons_append, ofMembers, ih]
    | bool b => simp only [List.cons_append, ofMembers, ih]
    | object inner => simp only [List.cons_append, ofMembers, ih, bind_assoc]
    | _ =>
      simp only [List.cons_append, ofMembers]
      rfl

def memberNames : List String :=
  ["where", "select", "include", "orderBy", "take", "skip"]

/-- A query, or the scope of a relation at any depth of its tree, has one more member that is
null. -/
inductive Pads (name : String) : List (String × Json) → List (String × Json) → Prop
  | here {members more : List (String × Json)} (one : Json.Pads memberNames name members more) :
      Pads name members more
  | within {front back before after members more : List (String × Json)} {relation : String}
      (first : "include" ∉ Entries.names front) (deeper : Pads name members more) :
      Pads name
        (front ++ ("include", .object (before ++ (relation, .object members) :: after)) :: back)
        (front ++ ("include", .object (before ++ (relation, .object more) :: after)) :: back)

/-- Only the selection is something else if it is null than if it is missing. -/
theorem ofMembers_pads (h : Json.Pads memberNames name members more) :
    Parts.ofMembers more =
      { Parts.ofMembers members with
        select := if name = "select" then .error .nullSelection
          else (Parts.ofMembers members).select } := by
  have hfilter : readMember Filter.ofJson [] "where" more = _ := h.readMember fun _ => rfl
  have horder : readMember Order.ofJson [] "orderBy" more = _ := h.readMember fun _ => rfl
  have hnested : readMember ofJson [] "include" more = _ := h.readMember fun _ => by rw [ofJson]
  have hpage : Page.ofMembers more = Page.ofMembers members := by
    simp only [Page.ofMembers, Page.count_pads h]
  by_cases hname : name = "select"
  · subst hname
    have hselect : readMember (fun s => (Select.ofJson s).map some) none "select" more =
        .error .nullSelection := by
      unfold readMember
      rw [h.member?_self.2]
      rfl
    simp [Parts.ofMembers, hfilter, horder, hnested, hpage, hselect]
  · have hselect : readMember (fun s => (Select.ofJson s).map some) none "select" more = _ :=
      readMember_congr (h.member?_of_ne (Ne.symm hname))
    simp [Parts.ofMembers, hfilter, horder, hnested, hpage, hselect, hname]

theorem ofMembers_include {front back : List (String × Json)}
    (first : "include" ∉ Entries.names front) (tree : Json) :
    Parts.ofMembers (front ++ ("include", tree) :: back) =
      { Parts.ofMembers (front ++ back) with nested := ofJson tree } := by
  have hother (other : String) (hne : other ≠ "include") :
      member? other (front ++ ("include", tree) :: back) = member? other (front ++ back) :=
    member?_middle_of_ne hne tree
  have hnested : readMember ofJson [] "include" (front ++ ("include", tree) :: back) =
      ofJson tree := by
    unfold readMember
    rw [member?_middle first]
  have htake := Page.count_congr (hother "take" (by decide))
  have hskip := Page.count_congr (hother "skip" (by decide))
  simp only [Parts.ofMembers, Page.ofMembers, htake, hskip, hnested,
    readMember_congr (hother "where" (by decide)),
    readMember_congr (hother "orderBy" (by decide)),
    readMember_congr (hother "select" (by decide))]

theorem Pads.ofMembers_eq (h : Pads name members more) (hname : name ≠ "select") :
    Parts.ofMembers more = Parts.ofMembers members := by
  induction h with
  | here one =>
    rw [ofMembers_pads one, if_neg hname]
  | within first deeper ih =>
    simp only [ofMembers_include first, ofJson, ofMembers_append, ofMembers, scopeOfMembers_eq, ih]

/-- A selection that is null in place of missing is what the query is refused for. -/
theorem Pads.spoils (h : Pads "select" members more) :
    Parts.Spoils (Parts.ofMembers members) (Parts.ofMembers more) := by
  induction h with
  | here one =>
    rw [ofMembers_pads one, if_pos rfl]
    exact .select
  | within first deeper ih =>
    rw [ofMembers_include first, ofMembers_include first]
    apply Parts.Spoils.nested
    simp only [ofJson, ofMembers_append, ofMembers]
    intro only
    apply only.after
    intro tree only
    rw [scopeOfMembers_eq] at only ⊢
    exact Parts.spoil ih.scope only

/-- What comes of the parts of a query stays the same under nulls in place of missing members, and
is refused once one of them is a selection. -/
theorem result_padded {α : Type} {result : Parts → Except Fault α} {added : List String}
    (spoiled : ∀ p q : Parts, p.Spoils q → Fault.Only (· = .nullSelection) (result p) →
      result q = .error .nullSelection)
    (h : Json.Padded Pads added members more)
    (only : Fault.Only (· = .nullSelection) (result (Parts.ofMembers members))) :
    result (Parts.ofMembers more) =
      if "select" ∈ added then .error .nullSelection else result (Parts.ofMembers members) := by
  induction h with
  | none => simp
  | @one name added members more most before last ih =>
    by_cases hname : name = "select"
    · subst hname
      have hmore : Fault.Only (· = .nullSelection) (result (Parts.ofMembers more)) := by
        rw [ih only]
        split
        · exact .error rfl
        · exact only
      simpa using spoiled _ _ last.spoils hmore
    · rw [last.ofMembers_eq hname, ih only]
      simp [Ne.symm hname]

end Include

/-- A member that is null is the same as none in an aggregate, and also in a query and in the
scopes of its relations, except for a selection: that is what they are refused for. -/
theorem null_stands_for_missing (added : List String) (members more : List (String × Json)) :
    (Json.Padded Include.Pads added members more →
      (∀ find, Find.ofJson (.object members) = .ok find →
        Find.ofJson (.object more) =
          if "select" ∈ added then .error .nullSelection else .ok find) ∧
      (∀ scope, Include.scopeOfJson (.object members) = .ok scope →
        Include.scopeOfJson (.object more) =
          if "select" ∈ added then .error .nullSelection else .ok scope)) ∧
    (Json.Padded (Pads Aggregate.memberNames) added members more →
      Aggregate.ofJson (.object more) = Aggregate.ofJson (.object members)) := by
  constructor
  · intro h
    simp only [Include.find_ofJson_eq, Include.scopeOfJson, Include.scopeOfMembers_eq]
    constructor
    · intro find hfind
      have only : Fault.Only (· = .nullSelection) (Include.Parts.ofMembers members).find := by
        rw [hfind]
        exact .ok find
      rw [Include.result_padded (fun _ _ spoils => spoils.find) h only, hfind]
    · intro scope hscope
      have only : Fault.Only (· = .nullSelection) (Include.Parts.ofMembers members).scope := by
        rw [hscope]
        exact .ok scope
      rw [Include.result_padded (fun _ _ spoils => spoils.scope) h only, hscope]
  · intro h
    induction h with
    | none => rfl
    | one before last ih => rw [Aggregate.ofJson_pads last, ih]

def attachItems : List (String × Json) :=
  [("include", .object [("items", .object [])])]

def attachItemsPadded : List (String × Json) :=
  [("take", .null), ("include", .object [("items", .object [("where", .null)])])]

theorem padded_attachItems :
    Json.Padded Include.Pads ["take", "where"] attachItems attachItemsPadded := by
  have hwhere : Include.Pads "where" [] [("where", .null)] :=
    .here (@Json.Pads.intro _ _ [] [] (by decide) (by decide))
  have hwithin := @Include.Pads.within "where" [] [] [] [] _ _ "items" (by decide) hwhere
  apply Json.Padded.one (Json.Padded.one (.none attachItems) hwithin)
  exact .here (@Json.Pads.intro _ _ [] _ (by decide) (by decide))

theorem null_stands_for_missing_items :
    Json.Padded Include.Pads ["take", "where"] attachItems attachItemsPadded ∧
      Find.ofJson (.object attachItems) = .ok { attach := [("items", {})] } ∧
      Find.ofJson (.object attachItemsPadded) = .ok { attach := [("items", {})] } := by
  obtain ⟨hfind, -⟩ := (null_stands_for_missing ["take", "where"] attachItems attachItemsPadded).1
    padded_attachItems
  have hread : Find.ofJson (.object attachItems) = .ok { attach := [("items", {})] } := by
    simp [Find.ofJson, attachItems, member?, Include.ofJson, Include.ofMembers,
      Include.scopeOfMembers, Include.nestedOfMembers]
    rfl
  exact ⟨padded_attachItems, hread, hfind _ hread⟩

/-- Every row is found by a query without members, and a query whose selection is null is refused. -/
theorem null_selection_refused :
    Json.Padded Include.Pads ["select"] [] [("select", .null)] ∧
      Find.ofJson (.object []) = .ok {} ∧
      Find.ofJson (.object [("select", .null)]) = .error .nullSelection := by
  refine ⟨?_, rfl, rfl⟩
  apply Json.Padded.one (.none [])
  exact .here (@Json.Pads.intro _ _ [] [] (by decide) (by decide))

end Relata
