import Relata.Proofs.Number.Exact
import Relata.Proofs.Text.Decimal
import Relata.Value.Key

/-! # What keys tell apart

Numbers of different values have different keys, and so have different texts and different
bytes. Only a whole number and the text that spells it are of different classes and have one
key.
-/

namespace Relata

namespace Key

open Text

/-! ### Keys of doubles -/

theorem ofReal_eq_integer {x : Binary64} {n : Int64} :
    ofReal x = .integer n ↔
      x.toInt? = some n.toInt ∧ n.toInt.natAbs < 9000000000000000 := by
  unfold ofReal
  constructor
  · intro h
    split at h
    · next m hm =>
      split at h
      · next small =>
        cases h
        rw [Int64.toInt_ofInt_of_le (by omega) (by omega)]
        exact ⟨hm, small⟩
      · cases h
    · cases h
  · rintro ⟨h, small⟩
    simp only [h, if_pos small, Int64.ofInt_toInt]

theorem ofReal_eq_self {x : Binary64} (h : ∀ n, ofReal x ≠ .integer n) : ofReal x = .real x := by
  unfold ofReal at h ⊢
  split
  · next m hm =>
    split
    · next small => exact absurd (by rw [hm]; exact if_pos small) (h (Int64.ofInt m))
    · rfl
  · rfl

theorem ofReal_cases (x : Binary64) : (∃ n, ofReal x = .integer n) ∨ ofReal x = .real x := by
  by_cases h : ∃ n, ofReal x = .integer n
  · exact .inl h
  · exact .inr (ofReal_eq_self (not_exists.mp h))

/-! ### Keys of texts -/

theorem ofText_eq_integer {s : String} {n : Int64} :
    ofText s = .integer n ↔ Spells s.toList n.toInt := by
  rw [spells_iff]
  unfold ofText
  constructor
  · intro h
    split at h
    · next m hm =>
      split at h
      · next spelled =>
        cases h
        obtain ⟨holds, spelled⟩ := spelled
        have := of_decide_eq_true ((Bool.and_eq_true _ _).mp holds).1
        have := of_decide_eq_true ((Bool.and_eq_true _ _).mp holds).2
        rw [Int64.toInt_ofInt_of_le (by omega) (by omega), spelled]
      · cases h
    · cases h
  · intro h
    have holds : Word.holdsSigned n.toInt = true := by
      have := n.le_toInt
      have := n.toInt_lt
      simp only [Word.holdsSigned, Bool.and_eq_true, decide_eq_true_eq]
      omega
    rw [h, integer?_signed]
    simp only [holds, and_self, if_true, Int64.ofInt_toInt]

theorem ofText_eq_self {s : String} (h : ∀ n, ofText s ≠ .integer n) : ofText s = .text s := by
  unfold ofText at h ⊢
  split
  · next m hm =>
    split
    · next spelled => exact absurd (by rw [hm]; exact if_pos spelled) (h (Int64.ofInt m))
    · rfl
  · rfl

theorem ofText_cases (s : String) : (∃ n, ofText s = .integer n) ∨ ofText s = .text s := by
  by_cases h : ∃ n, ofText s = .integer n
  · exact .inl h
  · exact .inr (ofText_eq_self (not_exists.mp h))

theorem ofText_injective {s t : String} (h : ofText s = ofText t) : s = t := by
  rcases ofText_cases s with ⟨n, hs⟩ | hs
  · have spelled := spells_iff.mp (ofText_eq_integer.mp hs)
    have spelled' := spells_iff.mp (ofText_eq_integer.mp (h.symm.trans hs))
    exact String.toList_inj.mp (spelled.trans spelled'.symm)
  · rcases ofText_cases t with ⟨n, ht⟩ | ht
    · cases hs.symm.trans (h.trans ht)
    · cases hs.symm.trans (h.trans ht)
      rfl

end Key

open Text

/-! ### Scalars -/

def Scalar.quantity? : Scalar → Option ℚ
  | integer n => some n.toInt
  | real x => if x.isFinite then some x.exact else none
  | _ => none

/-- Two scalars that are the same: numbers of one value, one text, the same bytes, or a whole
number of 64 bits and the text that spells it. -/
inductive Scalar.Same : Scalar → Scalar → Prop
  | number {s t : Scalar} {q : ℚ} (left : s.quantity? = some q) (right : t.quantity? = some q) :
      Same s t
  | text (w : String) : Same (.text w) (.text w)
  | blob (bytes : List UInt8) : Same (.blob bytes) (.blob bytes)
  | spelled {s : Scalar} {w : String} {n : Int64} (number : s.quantity? = some (n.toInt : ℚ))
      (spells : Spells w.toList n.toInt) : Same s (.text w)
  | spelling {s : Scalar} {w : String} {n : Int64} (spells : Spells w.toList n.toInt)
      (number : s.quantity? = some (n.toInt : ℚ)) : Same (.text w) s

namespace Key

theorem quantity?_of_ofReal {x : Binary64} {n : Int64} (h : ofReal x = .integer n) :
    (Scalar.real x).quantity? = some (n.toInt : ℚ) := by
  obtain ⟨finite, value⟩ := Binary64.toInt?_eq_some.mp (ofReal_eq_integer.mp h).1
  rw [Scalar.quantity?, if_pos finite, Binary64.exact_eq_intCast.mpr value]

theorem of_ofScalar?_integer {s : Scalar} {n : Int64} (h : ofScalar? s = some (.integer n)) :
    s.quantity? = some (n.toInt : ℚ) ∨ ∃ w, s = .text w ∧ Spells w.toList n.toInt := by
  cases s with
  | null => cases h
  | integer m =>
    cases h
    exact .inl rfl
  | real x => exact .inl (quantity?_of_ofReal (Option.some.inj h))
  | text w => exact .inr ⟨w, rfl, ofText_eq_integer.mp (Option.some.inj h)⟩
  | blob bytes => cases h

theorem of_ofScalar? {s : Scalar} {k : Key} (h : ofScalar? s = some k)
    (other : ∀ n, k ≠ .integer n) :
    (∃ x, k = .real x ∧ s = .real x) ∨ (∃ w, k = .text w ∧ s = .text w) ∨
      ∃ bytes, k = .blob bytes ∧ s = .blob bytes := by
  cases s with
  | null => cases h
  | integer m =>
    cases h
    exact absurd rfl (other m)
  | real x =>
    cases h
    exact .inl ⟨x, ofReal_eq_self other, rfl⟩
  | text w =>
    cases h
    exact .inr (.inl ⟨w, ofText_eq_self other, rfl⟩)
  | blob bytes =>
    cases h
    exact .inr (.inr ⟨bytes, rfl, rfl⟩)

/-- Scalars of one key are the same, where doubles are finite. -/
theorem same_of_ofScalar? {s t : Scalar} {k : Key} (finite : ∀ x, s = .real x → x.isFinite = true)
    (hs : ofScalar? s = some k) (ht : ofScalar? t = some k) : s.Same t := by
  by_cases integral : ∃ n, k = .integer n
  · obtain ⟨n, rfl⟩ := integral
    rcases of_ofScalar?_integer hs with value | ⟨w, rfl, spells⟩ <;>
      rcases of_ofScalar?_integer ht with value' | ⟨w', rfl, spells'⟩
    · exact .number value value'
    · exact .spelled value spells'
    · exact .spelling spells value'
    · obtain rfl : w = w' :=
        String.toList_inj.mp ((spells_iff.mp spells).trans (spells_iff.mp spells').symm)
      exact .text w
  · have other := not_exists.mp integral
    rcases of_ofScalar? hs other with ⟨x, rfl, rfl⟩ | ⟨w, rfl, rfl⟩ | ⟨bytes, rfl, rfl⟩ <;>
      rcases of_ofScalar? ht other with ⟨x', h, rfl⟩ | ⟨w', h, rfl⟩ | ⟨bytes', h, rfl⟩ <;>
      cases h
    · have quantity : (Scalar.real x).quantity? = some x.exact := if_pos (finite x rfl)
      exact .number quantity quantity
    · exact .text w
    · exact .blob bytes

end Key

/-! ### Values -/

namespace Value

/-- The scalar that a value is bound as, whatever field it is bound for. -/
def Binds (v : Value) (s : Scalar) : Prop :=
  ∀ field, v.toScalar field = .ok s

theorem Binds.of_toScalar {v : Value} {s : Scalar} {field : String}
    (h : v.toScalar field = .ok s) : v.Binds s := by
  intro other
  cases v with
  | real x =>
    rw [toScalar] at h ⊢
    split at h
    · next finite =>
      rw [if_pos finite]
      exact h
    · cases h
  | array | object => cases h
  | _ => exact h

theorem Binds.isFinite {v : Value} {x : Binary64} (h : v.Binds (.real x)) : x.isFinite = true := by
  have h := h Record.key
  cases v with
  | real y =>
    rw [toScalar] at h
    split at h
    · cases h
      assumption
    · cases h
  | _ => cases h

theorem Binds.key? {v : Value} {s : Scalar} (h : v.Binds s) : v.key? = Key.ofScalar? s := by
  rw [Value.key?, h Record.key]

theorem key?_eq_some {v : Value} {k : Key} :
    v.key? = some k ↔ ∃ s, v.Binds s ∧ Key.ofScalar? s = some k := by
  constructor
  · intro h
    unfold Value.key? at h
    split at h
    · next s hs => exact ⟨s, .of_toScalar hs, h⟩
    · cases h
  · rintro ⟨s, bound, h⟩
    rw [bound.key?, h]

theorem key?_eq_none {v : Value} :
    v.key? = none ↔ v = .null ∨ (∃ items, v = .array items) ∨ (∃ fields, v = .object fields) ∨
      ∃ x, v = .real x ∧ x.isFinite = false := by
  cases v with
  | real x =>
    by_cases finite : x.isFinite = true
    · simp [Value.key?, toScalar, Key.ofScalar?, finite]
    · simp [Value.key?, toScalar, finite]
  | _ => simp [Value.key?, toScalar, Key.ofScalar?]

/-- A key that two values share never joins different things: both are bound as numbers of
equal value, as one text or as the same bytes, or one as a whole number and the other as the
text that spells it. Integers, texts and bytes are told apart each, a double has the key of no
integer but the one that it is equal to, and only null, lists, records and doubles that are
not finite have no key. -/
theorem keys_tell_apart :
    (∀ (a b : Value) (k : Key), a.key? = some k → b.key? = some k →
      ∃ s t, a.Binds s ∧ b.Binds t ∧ s.Same t) ∧
    (∀ m n : Int64, (integer m).key? = (integer n).key? → m = n) ∧
    (∀ s t : String, (text s).key? = (text t).key? → s = t) ∧
    (∀ as bs : List UInt8, (blob as).key? = (blob bs).key? → as = bs) ∧
    (∀ (x : Binary64) (n : Int64), (real x).key? = some (.integer n) →
      x.isFinite = true ∧ x.exact = n.toInt) ∧
    ∀ v : Value, v.key? = none ↔
      v = .null ∨ (∃ items, v = .array items) ∨ (∃ fields, v = .object fields) ∨
        ∃ x, v = .real x ∧ x.isFinite = false := by
  refine ⟨?_, ?_, ?_, ?_, ?_, fun v => key?_eq_none⟩
  · intro a b k ha hb
    obtain ⟨s, bound, hs⟩ := key?_eq_some.mp ha
    obtain ⟨t, bound', ht⟩ := key?_eq_some.mp hb
    have finite (x : Binary64) (h : s = .real x) : x.isFinite = true := (h ▸ bound).isFinite
    exact ⟨s, t, bound, bound', Key.same_of_ofScalar? finite hs ht⟩
  · intro m n h
    cases h
    rfl
  · intro s t h
    exact Key.ofText_injective (Option.some.inj h)
  · intro as bs h
    cases h
    rfl
  · intro x n h
    obtain ⟨s, bound, hs⟩ := key?_eq_some.mp h
    have finite : x.isFinite = true := by
      by_contra infinite
      have := bound Record.key
      rw [toScalar, if_neg infinite] at this
      cases this
    rw [Value.key?, toScalar, if_pos finite] at h
    obtain ⟨whole, _⟩ := Key.ofReal_eq_integer.mp (Option.some.inj h)
    exact ⟨finite, Binary64.exact_eq_intCast.mpr (Binary64.toInt?_eq_some.mp whole).2⟩

/-- Three as a double and the text of three have one key, and the text spells the double. -/
theorem keys_tell_apart_three :
    (real (.ofInt 3)).key? = some (.integer 3) ∧ (text "3").key? = some (.integer 3) ∧
      ∃ s t, (real (.ofInt 3)).Binds s ∧ (text "3").Binds t ∧ s.Same t := by
  have number : (real (.ofInt 3)).key? = some (.integer 3) := by decide +kernel
  have spelled : (text "3").key? = some (.integer 3) := by decide +kernel
  exact ⟨number, spelled, keys_tell_apart.1 _ _ _ number spelled⟩

end Value

end Relata
