import Relata.Proofs.Text.Positional
import Relata.Proofs.Value.Chronology
import Relata.Text.Identity

/-! # Identities in the order of time

A number is spelled in base thirty-six without a zero in front, and its spelling is read back as
the number. Shorter spellings are of smaller numbers, and those of one length are in the order of
the numbers. A suffix may be any text of digits, and identities of different moments are in the
order of the moments whatever their suffixes are, if the moments have spellings of one length.
-/

namespace Relata.Text

open Std

namespace Base36

/-! ### Digits -/

theorem pairwise_alphabet : alphabet.Pairwise (· < ·) := by decide

theorem digit_eq {d : Nat} (h : d < 36) : digit d = alphabet[d] := by
  rw [digit, List.getD_eq_getElem?_getD, List.getElem?_eq_getElem h]
  rfl

theorem digit_lt {d e : Nat} (h : d < e) (he : e < 36) : digit d < digit e := by
  rw [digit_eq (Nat.lt_trans h he), digit_eq he]
  exact List.pairwise_iff_getElem.mp pairwise_alphabet d e _ _ h

theorem compare_digit {d e : Nat} (hd : d < 36) (he : e < 36) :
    compare (digit d) (digit e) = compare d e := by
  rcases Nat.lt_trichotomy d e with h | rfl | h
  · rw [Nat.compare_eq_lt.mpr h]
    exact if_pos (digit_lt h he)
  · rw [ReflOrd.compare_self, ReflOrd.compare_self]
  · have hlt := digit_lt h hd
    rw [Nat.compare_eq_gt.mpr h]
    exact (if_neg (Char.lt_asymm hlt)).trans (if_neg (Char.ne_of_lt hlt).symm)

theorem mem_alphabet_iff {c : Char} : c ∈ alphabet ↔ ∃ d < 36, c = digit d := by
  rw [List.mem_iff_getElem]
  constructor
  · rintro ⟨d, hd, rfl⟩
    exact ⟨d, hd, (digit_eq hd).symm⟩
  · rintro ⟨d, hd, rfl⟩
    exact ⟨d, hd, (digit_eq hd).symm⟩

theorem value?_digit {d : Nat} (h : d < 36) : value? (digit d) = some d := by
  interval_cases d <;> rfl

theorem isDigit_or_isSmall : ∀ c ∈ alphabet, isDigit c = true ∨ 'a' ≤ c ∧ c ≤ 'z' := by
  have hall : (alphabet.all fun c => isDigit c || 'a' ≤ c && c ≤ 'z') = true := by decide
  simpa using hall

theorem ascii_of_mem_alphabet : ∀ c ∈ alphabet, c.val ≤ 127 := by
  have hall : alphabet.all (·.val ≤ 127) = true := by decide
  simpa using hall

/-! ### Spellings -/

theorem positional_encode (n : Nat) : Positional 36 digit (encode n) n :=
  positional_of_step (by omega) (fun n => by rw [encode]) n

theorem mem_alphabet_of_mem_encode {n : Nat} {c : Char} (h : c ∈ encode n) : c ∈ alphabet :=
  mem_alphabet_iff.mpr ((positional_encode n).exists_digit h)

theorem decode?_snoc {cs : List Char} (some : cs ≠ []) (c : Char) :
    decode? (cs ++ [c]) = (decode? cs).bind fun n => (value? c).map (36 * n + ·) := by
  cases cs with
  | nil => exact absurd rfl some
  | cons b cs => simp [decode?, Option.bind_assoc]

theorem decode?_of_positional {cs : List Char} {n : Nat} (h : Positional 36 digit cs n) :
    decode? cs = some n := by
  induction h with
  | @single d lt => simp [decode?, value?_digit lt]
  | snoc front _ lt ih =>
    rw [decode?_snoc front.ne_nil, ih, value?_digit lt]
    rfl

/-- What spells a number: digits and small letters that stand for it, with a zero in front only
for zero. -/
structure IsSpelling (cs : List Char) (n : Nat) : Prop where
  some : cs ≠ []
  digits : ∀ c ∈ cs, isDigit c = true ∨ 'a' ≤ c ∧ c ≤ 'z'
  leading : cs.head? = .some '0' → n = 0
  value : decode? cs = .some n

theorem isSpelling_encode (n : Nat) : IsSpelling (encode n) n where
  some := (positional_encode n).ne_nil
  digits c hc := isDigit_or_isSmall c (mem_alphabet_of_mem_encode hc)
  leading hzero := by
    by_contra h
    exact (positional_encode n).head?_ne compare_digit (Nat.pos_of_ne_zero h) hzero
  value := decode?_of_positional (positional_encode n)

example : encode 1700000000000 = "loyw3v28".toList := by cbv

theorem length_encode {k n : Nat} (hle : 36 ^ k ≤ n) (hlt : n < 36 ^ (k + 1)) :
    (encode n).length = k + 1 :=
  (positional_encode n).length_eq (by omega) hle hlt

theorem compare_encode (v w : Nat) :
    compare v w = (compare (encode v).length (encode w).length).then
      (compare (encode v) (encode w)) :=
  Positional.compare_eq compare_digit (positional_encode v) (positional_encode w)

theorem compare_octets_encode (v w : Nat) :
    compare (octets (String.ofList (encode v))) (octets (String.ofList (encode w))) =
      compare (encode v) (encode w) := by
  have ascii (n : Nat) : ∀ c ∈ (String.ofList (encode n)).toList, c.val ≤ 127 := fun c hc =>
    ascii_of_mem_alphabet c (mem_alphabet_of_mem_encode (String.toList_ofList ▸ hc))
  rw [compare_octets (ascii v) (ascii w), compare_texts, String.toList_ofList, String.toList_ofList]

end Base36

namespace Identity

open Base36

/-! ### Suffixes -/

theorem length_encode_le (n : Nat) : (encode (n % Nat.pow 36 suffixLength)).length ≤ suffixLength :=
  (positional_encode _).length_le (Nat.mod_lt n (by decide))

theorem mem_alphabet_of_mem_suffix {n : Nat} {c : Char} (h : c ∈ suffix n) : c ∈ alphabet := by
  rcases List.mem_append.mp h with h | h
  · obtain rfl := List.eq_of_mem_replicate h
    decide
  · exact mem_alphabet_of_mem_encode h

theorem length_suffix (n : Nat) : (suffix n).length = suffixLength := by
  have := length_encode_le n
  simp only [suffix, List.length_append, List.length_replicate]
  omega

theorem exists_suffix {cs : List Char} (length : cs.length = suffixLength)
    (digits : ∀ c ∈ cs, c ∈ alphabet) : ∃ n, suffix n = cs := by
  have some : cs ≠ [] := by
    rintro rfl
    cases length
  obtain ⟨k, ds, n, rfl, h⟩ := Positional.exists_behind_zeros some fun c hc =>
    mem_alphabet_iff.mp (digits c hc)
  rw [List.length_append, List.length_replicate] at length
  have hn : n < 36 ^ suffixLength :=
    Nat.lt_of_lt_of_le h.lt_pow (Nat.pow_le_pow_right (by decide) (by omega))
  have hds : encode (n % Nat.pow 36 suffixLength) = ds :=
    (Nat.mod_eq_of_lt hn).symm ▸ (positional_encode n).unique compare_digit h
  have hzeros : suffixLength - ds.length = k := by omega
  refine ⟨n, ?_⟩
  simp only [suffix, hds, hzeros]
  rfl

theorem exists_suffix_iff {cs : List Char} :
    (∃ n, suffix n = cs) ↔ cs.length = suffixLength ∧ ∀ c ∈ cs, c ∈ alphabet := by
  constructor
  · rintro ⟨n, rfl⟩
    exact ⟨length_suffix n, fun c => mem_alphabet_of_mem_suffix⟩
  · rintro ⟨length, digits⟩
    exact exists_suffix length digits

/-! ### Order -/

theorem toList_make (millis chance : Nat) :
    (make millis chance).toList = encode millis ++ suffix chance :=
  String.toList_ofList

theorem ascii_make (millis chance : Nat) : ∀ c ∈ (make millis chance).toList, c.val ≤ 127 := by
  intro c hc
  rw [toList_make] at hc
  rcases List.mem_append.mp hc with hc | hc
  · exact ascii_of_mem_alphabet c (mem_alphabet_of_mem_encode hc)
  · exact ascii_of_mem_alphabet c (mem_alphabet_of_mem_suffix hc)

theorem stand_make {v w : Nat} (length : (encode v).length = (encode w).length) (ne : v ≠ w)
    (chance chance' : Nat) : Stand (make v chance) (make w chance') (compare v w) := by
  have hmillis : compare v w = compare (encode v) (encode w) := by
    rw [compare_encode, length, ReflOrd.compare_self]
    rfl
  have h := stand_of_ascii (ascii_make v chance) (ascii_make w chance')
  rw [toList_make, toList_make, compare_append length, ← hmillis] at h
  cases hvw : compare v w with
  | lt => rwa [hvw] at h
  | eq => exact absurd (Nat.compare_eq_eq.mp hvw) ne
  | gt => rwa [hvw] at h

/-- Every number has a spelling in base thirty-six, and is smaller than another if its spelling
is shorter or of the same length and first by its octets. Identities of different moments with
spellings of one length are in the order of the moments, whatever their suffixes are. -/
theorem spellings_in_order (v w : Nat) :
    IsSpelling (encode v) v ∧
    (v < w ↔ (encode v).length < (encode w).length ∨
      (encode v).length = (encode w).length ∧
        compare (octets (String.ofList (encode v))) (octets (String.ofList (encode w))) = .lt) ∧
    ((encode v).length = (encode w).length → v ≠ w → ∀ chance chance' : Nat,
      Stand (make v chance) (make w chance') (compare v w)) := by
  refine ⟨isSpelling_encode v, ?_, stand_make⟩
  rw [← Nat.compare_eq_lt, compare_encode, Ordering.then_eq_lt, Nat.compare_eq_lt,
    Nat.compare_eq_eq, compare_octets_encode]

def earlier : Nat := 1700000000000

def later : Nat := 1750000000000

theorem spellings_in_order_moments :
    (encode earlier).length = (encode later).length ∧ earlier ≠ later ∧
      Stand (make earlier 35) (make later 0) .lt := by
  have length : (encode earlier).length = (encode later).length := by
    -- Both are between the same powers of the base.
    rw [@length_encode 7 earlier (by decide) (by decide),
      @length_encode 7 later (by decide) (by decide)]
  obtain ⟨-, -, stand⟩ := spellings_in_order earlier later
  exact ⟨length, by decide, stand length (by decide) 35 0⟩

end Identity

end Relata.Text
