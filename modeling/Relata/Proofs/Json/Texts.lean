import Relata.Proofs.Json.Numbers
import Relata.Proofs.Value.Bounded

/-! # Data in texts

The text of a datum is read as that datum: its strings character by character, its lists item by
item and its objects member by member, in the order in which they are written.
-/

namespace Relata.Json

open Text

/-! ## Strings -/

theorem hexValue?_hexDigit {n : Nat} (h : n < 16) : hexValue? (hexDigit n) = some n := by
  interval_cases n <;> rfl

theorem escaped?_control {c : Char} (h : c.toNat < 0x20) (rest : List Char) :
    escaped? ('u' :: '0' :: '0' :: hexDigit (c.toNat / 16) :: hexDigit (c.toNat % 16) :: rest) =
      some (c, rest) := by
  have hhigh := hexValue?_hexDigit (show c.toNat / 16 < 16 by omega)
  have hlow := hexValue?_hexDigit (show c.toNat % 16 < 16 by omega)
  have hzero : hexValue? '0' = some 0 := rfl
  have hcode : c.toNat / 16 * 16 + c.toNat % 16 = c.toNat := by omega
  have hsurrogate : ¬ 0xD800 ≤ c.toNat ∧ ¬ 0xDC00 ≤ c.toNat := by omega
  simp [escaped?, escapedUnit?, codeUnit?, hhigh, hlow, hzero, hcode, hsurrogate]

theorem escape_cases (c : Char) :
    (escape c = [c] ∧ c ≠ '"' ∧ c ≠ '\\' ∧ ¬ c.toNat < 0x20) ∨
      ∃ code, escape c = '\\' :: code ∧ ∀ rest, escaped? (code ++ rest) = some (c, rest) := by
  unfold escape
  -- Seven characters have a letter or sign of their own, and other control characters a code.
  iterate 7
    split
    · next h =>
      subst h
      exact .inr ⟨_, rfl, fun _ => rfl⟩
  split
  · next h => exact .inr ⟨_, rfl, escaped?_control h⟩
  · next quote backslash _ _ _ _ _ plain => exact .inl ⟨rfl, quote, backslash, plain⟩

theorem stringBody?_escape (c : Char) (fuel : Nat) (rest : List Char) :
    stringBody? (fuel + 1) (escape c ++ rest) =
      (stringBody? fuel rest).map fun (body, rest) => (c :: body, rest) := by
  rcases escape_cases c with ⟨h, quote, backslash, plain⟩ | ⟨code, h, hread⟩
  · rw [h, List.singleton_append, stringBody?, if_neg quote, if_neg backslash, if_neg plain]
    cases stringBody? fuel rest <;> rfl
  · rw [h, List.cons_append, stringBody?, if_neg (by decide), if_pos rfl, hread]
    cases hbody : stringBody? fuel rest <;> simp [hbody]

theorem stringBody?_chars (cs : List Char) {fuel : Nat} (h : cs.length < fuel)
    (rest : List Char) :
    stringBody? fuel (cs.flatMap escape ++ '"' :: rest) = some (cs, rest) := by
  induction cs generalizing fuel with
  | nil =>
    obtain ⟨fuel, rfl⟩ : ∃ n, fuel = n + 1 := ⟨fuel - 1, by omega⟩
    simp [stringBody?]
  | cons c cs ih =>
    rw [List.length_cons] at h
    obtain ⟨fuel, rfl⟩ : ∃ n, fuel = n + 1 := ⟨fuel - 1, by omega⟩
    rw [List.flatMap_cons, List.append_assoc, stringBody?_escape, ih (by omega)]
    rfl

theorem length_le_flatMap_escape (cs : List Char) : cs.length ≤ (cs.flatMap escape).length := by
  induction cs with
  | nil => simp
  | cons c cs ih =>
    have hsome : 1 ≤ (escape c).length := by
      rcases escape_cases c with ⟨h, -⟩ | ⟨code, h, -⟩ <;> simp [h]
    simp only [List.flatMap_cons, List.length_append, List.length_cons]
    omega

/-! ## Data -/

def Plain (j : Json) : Prop :=
  ∀ n, Within (.number n) j → n.Plain

theorem plain_number_iff {n : Number} : (number n).Plain ↔ n.Plain := by
  constructor
  · exact fun h => h n .here
  · intro h n hn
    cases hn with
    | here => exact h

theorem plain_array_iff {items : List Json} :
    (array items).Plain ↔ ∀ item ∈ items, item.Plain := by
  constructor
  · exact fun h item mem n deeper => h n (.item mem deeper)
  · intro h n hn
    cases hn with
    | item mem deeper => exact h _ mem n deeper

theorem plain_object_iff {members : List (String × Json)} :
    (object members).Plain ↔ ∀ member ∈ members, member.2.Plain := by
  constructor
  · exact fun h member mem n deeper => h n (.member mem deeper)
  · intro h n hn
    cases hn with
    | member mem deeper => exact h _ mem n deeper

theorem number?_first {cs rest : List Char} {n : Number} (h : number? cs = some (n, rest)) :
    ∃ c cs', cs = c :: cs' ∧ (isDigit c = true ∨ c = '-') := by
  cases cs with
  | nil => cases h
  | cons c cs =>
    refine ⟨c, cs, rfl, ?_⟩
    by_contra hother
    obtain ⟨hdigit, hminus⟩ := not_or.mp hother
    simp [number?, hminus, takeDigits, hdigit] at h

theorem exists_numeral {n : Number} (plain : n.Plain) :
    ∃ c cs, n.chars = c :: cs ∧ (isDigit c = true ∨ c = '-') := by
  have hread := number?_chars plain (show Ends [] from nofun)
  rw [List.append_nil] at hread
  exact number?_first hread

theorem ne_of_numeral {c : Char} (h : isDigit c = true ∨ c = '-') {d : Char}
    (other : isDigit d = false ∧ d ≠ '-') : c ≠ d := by
  rintro rfl
  rcases h with digit | rfl
  · rw [other.1] at digit
    cases digit
  · exact other.2 rfl

theorem skipBlanks_cons {c : Char} {cs : List Char} (h : c ≠ ' ' ∧ c ≠ '\n' ∧ c ≠ '\r' ∧ c ≠ '\t') :
    skipBlanks (c :: cs) = c :: cs := by
  simp [skipBlanks, h]

theorem exists_first {j : Json} (plain : j.Plain) :
    ∃ c cs, j.chars = c :: cs ∧ (c ≠ ' ' ∧ c ≠ '\n' ∧ c ≠ '\r' ∧ c ≠ '\t') ∧ c ≠ ']' ∧ c ≠ '}' := by
  cases j with
  | null => exact ⟨'n', _, rfl, by decide⟩
  | bool b => cases b <;> exact ⟨_, _, rfl, by decide⟩
  | number n =>
    obtain ⟨c, cs, h, hc⟩ := exists_numeral (plain n .here)
    have hne {d : Char} := @ne_of_numeral c hc d
    exact ⟨c, cs, h, ⟨hne (by decide), hne (by decide), hne (by decide), hne (by decide)⟩,
      hne (by decide), hne (by decide)⟩
  | string s => exact ⟨'"', _, rfl, by decide⟩
  | array items => exact ⟨'[', _, by rw [chars], by decide⟩
  | object members => exact ⟨'{', _, by rw [chars], by decide⟩

/-- A text is read as the datum that it is of, whatever else follows. -/
def Reads (j : Json) : Prop :=
  ∀ fuel rest, Ends rest → j.chars.length ≤ fuel → value? fuel (j.chars ++ rest) = some (j, rest)

theorem reads_number {n : Number} (plain : n.Plain) : Reads (.number n) := by
  intro fuel rest ends hfuel
  have hread := number?_chars plain ends
  obtain ⟨c, cs, h, hc⟩ := exists_numeral plain
  have hne {d : Char} := @ne_of_numeral c hc d
  have hblanks : skipBlanks (c :: (cs ++ rest)) = c :: (cs ++ rest) :=
    skipBlanks_cons ⟨hne (by decide), hne (by decide), hne (by decide), hne (by decide)⟩
  rw [chars, h, List.length_cons] at hfuel
  obtain ⟨fuel, rfl⟩ : ∃ k, fuel = k + 1 := ⟨fuel - 1, by omega⟩
  rw [h] at hread
  rw [chars, h, List.cons_append, value?, hblanks]
  split
  case h_7 =>
    rw [← List.cons_append, hread]
    rfl
  all_goals
    next heq => exact absurd (List.cons.inj heq).1 (hne (by decide))

theorem reads_string (s : String) : Reads (.string s) := by
  intro fuel rest ends hfuel
  have hlength := length_le_flatMap_escape s.toList
  simp only [chars, quoted, List.length_cons, List.length_append, List.length_nil] at hfuel
  obtain ⟨fuel, rfl⟩ : ∃ n, fuel = n + 1 := ⟨fuel - 1, by omega⟩
  have hbody := stringBody?_chars s.toList (show s.toList.length < fuel by omega) rest
  simp [chars, quoted, value?, skipBlanks, hbody]

theorem ends_close (rest : List Char) : Ends (']' :: rest) ∧ Ends ('}' :: rest) := by
  constructor <;> (rintro _ ⟨⟩; decide)

theorem ends_comma (rest : List Char) : Ends (',' :: rest) := by
  rintro _ ⟨⟩
  decide

theorem items?_chars {items : List Json} (some : items ≠ [])
    (each : ∀ item ∈ items, item.Reads) {fuel : Nat} (h : (charsOfItems items).length ≤ fuel)
    (rest : List Char) : items? fuel (charsOfItems items ++ rest) = .some (items, rest) := by
  induction items generalizing fuel with
  | nil => exact absurd rfl some
  | cons item items ih =>
    obtain ⟨first, each⟩ := List.forall_mem_cons.mp each
    cases items with
    | nil =>
      rw [charsOfItems, List.length_append, List.length_singleton] at h
      obtain ⟨fuel, rfl⟩ : ∃ k, fuel = k + 1 := ⟨fuel - 1, by omega⟩
      rw [charsOfItems, List.append_assoc, items?, List.singleton_append,
        first fuel _ (ends_close rest).1 (by omega)]
      rfl
    | cons item' items =>
      rw [charsOfItems, List.length_append, List.length_cons] at h
      · obtain ⟨fuel, rfl⟩ : ∃ k, fuel = k + 1 := ⟨fuel - 1, by omega⟩
        have hrest := ih (by simp) each (show _ ≤ fuel by omega)
        rw [charsOfItems, List.append_assoc, items?, List.cons_append,
          first fuel _ (ends_comma _) (by omega)]
        · simp [skipBlanks, hrest]
        · simp
      · simp

theorem members?_chars {members : List (String × Json)} (some : members ≠ [])
    (each : ∀ member ∈ members, member.2.Reads) {fuel : Nat}
    (h : (charsOfMembers members).length ≤ fuel) (rest : List Char) :
    members? fuel (charsOfMembers members ++ rest) = .some (members, rest) := by
  induction members generalizing fuel with
  | nil => exact absurd rfl some
  | cons member members ih =>
    obtain ⟨name, item⟩ := member
    obtain ⟨first, each⟩ := List.forall_mem_cons.mp each
    have hitem : item.Reads := first
    have hlength := length_le_flatMap_escape name.toList
    cases members with
    | nil =>
      simp only [charsOfMembers, quoted, List.length_append, List.length_cons, List.length_nil] at h
      obtain ⟨fuel, rfl⟩ : ∃ k, fuel = k + 1 := ⟨fuel - 1, by omega⟩
      have hname := stringBody?_chars name.toList (show name.toList.length < fuel by omega)
      have hitem := hitem fuel ('}' :: rest) (ends_close rest).2 (by omega)
      simp [charsOfMembers, quoted, members?, skipBlanks, hname, hitem]
    | cons member' members =>
      rw [charsOfMembers] at h ⊢
      · simp only [quoted, List.length_append, List.length_cons, List.length_nil] at h
        obtain ⟨fuel, rfl⟩ : ∃ k, fuel = k + 1 := ⟨fuel - 1, by omega⟩
        have hname := stringBody?_chars name.toList (show name.toList.length < fuel by omega)
        have hrest := ih (by simp) each (show _ ≤ fuel by omega)
        have hitem := hitem fuel (',' :: (charsOfMembers (member' :: members) ++ rest))
          (ends_comma _) (by omega)
        simp [quoted, members?, skipBlanks, hname, hitem, hrest]
      · simp
      · simp

theorem charsOfItems_cons (item : Json) (items : List Json) :
    ∃ tail, charsOfItems (item :: items) = item.chars ++ tail := by
  cases items with
  | nil => exact ⟨_, charsOfItems.eq_2 item⟩
  | cons item' items => exact ⟨_, charsOfItems.eq_3 item _ (by simp)⟩

theorem charsOfMembers_cons (member : String × Json) (members : List (String × Json)) :
    ∃ tail, charsOfMembers (member :: members) = '"' :: tail := by
  obtain ⟨name, item⟩ := member
  cases members with
  | nil => exact ⟨_, by rw [charsOfMembers, quoted, List.cons_append]⟩
  | cons member' members =>
    rw [charsOfMembers, quoted, List.cons_append]
    · exact ⟨_, rfl⟩
    · simp

theorem reads_array {items : List Json} (plain : ∀ item ∈ items, item.Plain)
    (each : ∀ item ∈ items, item.Reads) : Reads (.array items) := by
  intro fuel rest ends hfuel
  rw [chars, List.length_cons] at hfuel
  obtain ⟨fuel, rfl⟩ : ∃ k, fuel = k + 1 := ⟨fuel - 1, by omega⟩
  cases items with
  | nil => simp [chars, charsOfItems, value?, skipBlanks]
  | cons item items =>
    have hitems := items?_chars (by simp) each (show _ ≤ fuel by omega) rest
    obtain ⟨tail, htail⟩ := charsOfItems_cons item items
    obtain ⟨c, cs, hfirst, hblank, hclose, -⟩ := exists_first (plain item List.mem_cons_self)
    rw [htail, hfirst, List.cons_append, List.cons_append] at hitems
    rw [chars, htail, hfirst, List.cons_append, List.cons_append, List.cons_append, value?,
      skipBlanks_cons (by decide)]
    simp only [skipBlanks_cons hblank]
    split
    · next heq => exact absurd (List.cons.inj heq).1 hclose
    · rw [hitems]
      rfl

theorem reads_object {members : List (String × Json)}
    (each : ∀ member ∈ members, member.2.Reads) : Reads (.object members) := by
  intro fuel rest ends hfuel
  rw [chars, List.length_cons] at hfuel
  obtain ⟨fuel, rfl⟩ : ∃ k, fuel = k + 1 := ⟨fuel - 1, by omega⟩
  cases members with
  | nil => simp [chars, charsOfMembers, value?, skipBlanks]
  | cons member members =>
    have hmembers := members?_chars (by simp) each (show _ ≤ fuel by omega) rest
    obtain ⟨tail, htail⟩ := charsOfMembers_cons member members
    rw [htail, List.cons_append] at hmembers
    simp [chars, htail, value?, skipBlanks, hmembers]

/-- The text of a datum is read as the datum. -/
theorem reads_of_plain {j : Json} (plain : j.Plain) : j.Reads := by
  induction j using Json.induct with
  | scalar j scalar =>
    cases j with
    | null =>
      intro fuel rest ends h
      obtain ⟨fuel, rfl⟩ : ∃ k, fuel = k + 1 := ⟨fuel - 1, by simp [chars] at h; omega⟩
      simp [chars, value?, skipBlanks, keyword?]
      rfl
    | bool b =>
      intro fuel rest ends h
      obtain ⟨fuel, rfl⟩ : ∃ k, fuel = k + 1 :=
        ⟨fuel - 1, by cases b <;> simp [chars] at h <;> omega⟩
      cases b <;> (simp [chars, value?, skipBlanks, keyword?]; rfl)
    | number n => exact reads_number (plain n .here)
    | string s => exact reads_string s
    | array => exact scalar.elim
    | object => exact scalar.elim
  | array items ih =>
    have hitems := plain_array_iff.mp plain
    exact reads_array hitems fun item mem => ih item mem (hitems item mem)
  | object members ih =>
    have hmembers := plain_object_iff.mp plain
    exact reads_object fun member mem => ih member mem (hmembers member mem)

theorem read?_print {j : Json} (plain : j.Plain) : read? j.print = some j := by
  have hread := reads_of_plain plain (j.chars.length + 1) [] nofun (by omega)
  rw [List.append_nil] at hread
  simp [read?, print, hread, skipBlanks]

end Relata.Json
