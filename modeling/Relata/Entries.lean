/-! # Entries in order

A finite map that remembers the order in which its names were first set. Setting a
name again changes its value and keeps its place.
-/

namespace Relata

/-- Values under names, in order. -/
abbrev Entries (α : Type) := List (String × α)

namespace Entries

variable {α : Type}

def names (entries : Entries α) : List String :=
  entries.map Prod.fst

def get? (entries : Entries α) (name : String) : Option α :=
  entries.lookup name

def contains (entries : Entries α) (name : String) : Bool :=
  (entries.get? name).isSome

/-- The value of a name is replaced where it stands, or added at the end. -/
def set : Entries α → String → α → Entries α
  | [], name, a => [(name, a)]
  | (n, b) :: rest, name, a =>
    if n = name then (n, a) :: rest else (n, b) :: set rest name a

/-- The entries without a name; the others keep their order. -/
def erase (entries : Entries α) (name : String) : Entries α :=
  entries.filter fun e => e.1 ≠ name

def extend (entries : Entries α) (more : List (String × α)) : Entries α :=
  more.foldl (fun es e => es.set e.1 e.2) entries

/-- The map that a list of entries describes: a name that occurs again keeps its
first place and takes its last value. -/
def ofList (list : List (String × α)) : Entries α :=
  extend [] list

/-- No name twice. Every map that is built by `set` has this. -/
def Distinct (entries : Entries α) : Prop :=
  entries.names.Nodup

instance (entries : Entries α) : Decidable entries.Distinct :=
  inferInstanceAs (Decidable entries.names.Nodup)

theorem get?_cons (n : String) (b : α) (rest : Entries α) (name : String) :
    get? ((n, b) :: rest) name = if name = n then some b else get? rest name := by
  by_cases h : name = n
  · simp [get?, h]
  · have : (name == n) = false := by simpa using h
    simp [get?, List.lookup_cons, this, h]

theorem get?_set_self (entries : Entries α) (name : String) (a : α) :
    (entries.set name a).get? name = some a := by
  induction entries with
  | nil => simp [set, get?_cons]
  | cons e rest ih =>
    obtain ⟨n, b⟩ := e
    by_cases h : n = name
    · simp [set, get?_cons, h]
    · simp [set, get?_cons, h, Ne.symm h, ih]

theorem get?_set_of_ne (entries : Entries α) {name other : String} (a : α) (h : other ≠ name) :
    (entries.set name a).get? other = entries.get? other := by
  induction entries with
  | nil => simp [set, get?_cons, h]
  | cons e rest ih =>
    obtain ⟨n, b⟩ := e
    by_cases hn : n = name
    · subst hn
      simp [set, get?_cons, h]
    · simp [set, get?_cons, hn, ih]

theorem names_set (entries : Entries α) (name : String) (a : α) :
    (entries.set name a).names =
      if name ∈ entries.names then entries.names else entries.names ++ [name] := by
  induction entries with
  | nil => rfl
  | cons e rest ih =>
    obtain ⟨n, b⟩ := e
    by_cases hn : n = name
    · simp [set, names, hn]
    · simp only [names] at ih
      by_cases hm : name ∈ rest.map Prod.fst
      · simp [set, hn, names, ih, hm]
      · simp [set, hn, names, ih, hm, Ne.symm hn]

theorem mem_of_get? {entries : Entries α} {name : String} {a : α}
    (h : get? entries name = some a) : (name, a) ∈ entries := by
  induction entries with
  | nil => cases h
  | cons e rest ih =>
    rw [get?_cons] at h
    split at h
    · next hname =>
      cases h
      subst hname
      exact List.mem_cons_self
    · exact List.mem_cons_of_mem _ (ih h)

theorem exists_get?_of_mem {entries : Entries α} {e : String × α} (h : e ∈ entries) :
    ∃ a, get? entries e.1 = some a := by
  induction entries with
  | nil => cases h
  | cons e' rest ih =>
    obtain ⟨n, b⟩ := e'
    rw [get?_cons]
    split
    · exact ⟨b, rfl⟩
    · next hne =>
      rcases List.mem_cons.mp h with rfl | h
      · exact absurd rfl hne
      · exact ih h

theorem get?_of_mem {entries : Entries α} (distinct : Distinct entries) {e : String × α}
    (h : e ∈ entries) : get? entries e.1 = some e.2 := by
  induction entries with
  | nil => cases h
  | cons e' rest ih =>
    obtain ⟨n, b⟩ := e'
    obtain ⟨hfresh, hrest⟩ := List.nodup_cons.mp distinct
    rw [get?_cons]
    rcases List.mem_cons.mp h with rfl | hmem
    · rw [if_pos rfl]
    · have hmap : e.1 ∈ rest.map Prod.fst := List.mem_map_of_mem hmem
      have hne : e.1 ≠ n := fun hname => hfresh (hname ▸ hmap)
      rw [if_neg hne, ih hrest hmem]

theorem get?_erase_self (entries : Entries α) (name : String) :
    get? (entries.erase name) name = none := by
  cases h : get? (entries.erase name) name with
  | none => rfl
  | some a =>
    obtain ⟨-, hne⟩ := List.mem_filter.mp (mem_of_get? h)
    simp at hne

theorem get?_erase_of_ne (entries : Entries α) {name other : String} (h : other ≠ name) :
    get? (entries.erase name) other = get? entries other := by
  induction entries with
  | nil => rfl
  | cons e rest ih =>
    obtain ⟨n, b⟩ := e
    rw [erase] at ih ⊢
    by_cases hn : n = name
    · rw [List.filter_cons_of_neg (by simpa using hn), ih, get?_cons, if_neg (hn ▸ h)]
    · rw [List.filter_cons_of_pos (by simpa using hn), get?_cons, get?_cons, ih]

theorem Distinct.erase {entries : Entries α} (distinct : Distinct entries) (name : String) :
    Distinct (entries.erase name) :=
  (List.filter_sublist.map Prod.fst).nodup distinct

theorem Distinct.set {entries : Entries α} (distinct : Distinct entries) (name : String) (a : α) :
    Distinct (entries.set name a) := by
  rw [Distinct, names_set]
  split
  · exact distinct
  · next hfresh =>
    refine List.nodup_append.mpr ⟨distinct, by simp, fun n hn other hother => ?_⟩
    rintro rfl
    exact hfresh (List.mem_singleton.mp hother ▸ hn)

theorem Distinct.extend {entries : Entries α} (distinct : Distinct entries)
    (more : List (String × α)) : Distinct (entries.extend more) := by
  induction more generalizing entries with
  | nil => exact distinct
  | cons e more ih => exact ih (distinct.set e.1 e.2)

theorem get?_extend (entries : Entries α) (more : List (String × α)) (name : String) :
    get? (entries.extend more) name = (get? more.reverse name).or (get? entries name) := by
  induction more generalizing entries with
  | nil => rfl
  | cons e more ih =>
    have hextend : entries.extend (e :: more) = (entries.set e.1 e.2).extend more := rfl
    have happend : get? (more.reverse ++ [e]) name =
        (get? more.reverse name).or (get? [e] name) :=
      List.lookup_append
    rw [hextend, ih, List.reverse_cons, happend, Option.or_assoc]
    congr 1
    by_cases hn : name = e.1
    · rw [hn, get?_set_self, get?_cons, if_pos rfl, Option.some_or]
    · rw [get?_set_of_ne _ _ hn, get?_cons, if_neg hn]
      rfl

end Entries

end Relata
