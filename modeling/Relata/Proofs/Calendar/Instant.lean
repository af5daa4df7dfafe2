import Relata.Calendar.Instant
import Relata.Proofs.Calendar.Civil
import Relata.Proofs.Sql.Token
import Relata.Proofs.Text.Padded

/-! # Instants as texts

A date or an instant of a year that is written with four digits has fields of one width each, so
its text is read back field by field, and texts are compared field by field. An instant is read
back in milliseconds, and in these its text has the place that it has in time.
-/

namespace Relata

open Calendar Sql Std Text

namespace Date

/-- A date of a year that is written with four digits and no sign. -/
structure Written (d : Date) : Prop where
  valid : d.isValid = true
  year : 0 ≤ d.year ∧ d.year ≤ 9999

theorem Written.year_lt {d : Date} (h : d.Written) : d.year.natAbs < 10 ^ 4 := by
  have := h.year
  omega

theorem Written.month_lt {d : Date} (h : d.Written) : d.month < 10 ^ 2 := by
  have := isValid_iff.mp h.valid
  omega

theorem Written.day_lt {d : Date} (h : d.Written) : d.day < 10 ^ 2 := by
  have := isValid_iff.mp h.valid
  have := daysInMonth_le (isLeap d.year) d.month
  omega

theorem Written.chars_eq {d : Date} (h : d.Written) :
    d.chars = lastDigits 4 d.year.natAbs ++ '-' :: (lastDigits 2 d.month ++ '-' ::
      lastDigits 2 d.day) := by
  rw [chars, yearChars, if_pos h.year, padded_eq_lastDigits (by omega) h.year_lt,
    padded_eq_lastDigits (by omega) h.month_lt, padded_eq_lastDigits (by omega) h.day_lt]

section

variable {d e : Date} (hd : d.Written) (he : e.Written)

include hd he

theorem Written.compare_chars : compare d.chars e.chars = compare d.toDays e.toDays := by
  have hyear : compare d.year.natAbs e.year.natAbs = compare d.year e.year := by
    have hd := hd.year
    have he := he.year
    exact compare_eq_compare (by omega) (by omega) (by omega)
  rw [hd.chars_eq, he.chars_eq, compare_field hd.year_lt he.year_lt,
    compare_field hd.month_lt he.month_lt, compare_lastDigits hd.day_lt he.day_lt, hyear,
    compare_toDays hd.valid he.valid]
  rfl

theorem Written.length_chars : d.chars.length = e.chars.length := by
  rw [hd.chars_eq, he.chars_eq]
  simp only [List.length_append, List.length_cons, length_lastDigits]

end

end Date

namespace Instant

theorem digits?_lastDigits {w n : Nat} (h : n < 10 ^ w) (rest : List Char) :
    digits? w (lastDigits w n ++ rest) = some (n, rest) := by
  have hfront : (lastDigits w n ++ rest).take w = lastDigits w n :=
    List.take_left' (length_lastDigits w n)
  have hrest : (lastDigits w n ++ rest).drop w = rest := List.drop_left' (length_lastDigits w n)
  have hdigits : (lastDigits w n).all isDigit = true :=
    List.all_eq_true.mpr fun c => isDigit_of_mem_lastDigits
  simp [digits?, hfront, hrest, hdigits, length_lastDigits, valueOfDigits_lastDigits h]

theorem fraction?_millis {n : Nat} (h : n < 10 ^ 3) :
    fraction? ('.' :: (lastDigits 3 n ++ ['Z'])) = some (n * 1000000, ['Z']) := by
  have digits (c : Char) (hc : c ∈ lastDigits 3 n) : isDigit c = true :=
    isDigit_of_mem_lastDigits hc
  have letter : ∀ c ∈ ['Z'].head?, isDigit c = false := by
    rintro _ ⟨⟩
    rfl
  have front : (lastDigits 3 n ++ ['Z']).takeWhile isDigit = lastDigits 3 n :=
    takeWhile_append_of_head digits letter
  have rest : (lastDigits 3 n ++ ['Z']).dropWhile isDigit = ['Z'] :=
    dropWhile_append_of_head digits letter
  have all : (lastDigits 3 n).take 9 = lastDigits 3 n :=
    List.take_of_length_le (by rw [length_lastDigits]; omega)
  rw [fraction?, front, rest, all]
  simp only [valueOfDigits_lastDigits h, length_lastDigits]
  rfl

/-- A clock that shows a time of day, with a second more in the minutes that have one. -/
structure Shown (c : Clock) : Prop where
  date : c.date.Written
  hour : c.hour < 24
  minute : c.minute < 60
  second : c.second ≤ 60
  nanos : c.nanos < 1000000000

def clockChars (c : Clock) : List Char :=
  c.date.chars ++ 'T' :: (lastDigits 2 c.hour ++ ':' :: (lastDigits 2 c.minute ++
    ':' :: (lastDigits 2 c.second ++ '.' :: (lastDigits 3 (c.nanos / 1000000) ++ ['Z']))))

theorem bind_of_some {α β : Type} {x : Option α} {a : α} (h : x = some a) (f : α → Option β) :
    (x >>= f) = f a := by
  rw [h]
  rfl

/-- Each field is read back; what is less than a millisecond is not written. -/
theorem ofChars?_clockChars {c : Clock} (h : Shown c) :
    ofChars? (clockChars c) =
      some (ofClock { c with nanos := c.nanos / 1000000 * 1000000 }) := by
  have hdate := h.date
  have hback : (c.date.year.natAbs : Int) = c.date.year := Int.natAbs_of_nonneg hdate.year.1
  have hhour : c.hour < 10 ^ 2 := Nat.lt_trans h.hour (by decide)
  have hminute : c.minute < 10 ^ 2 := Nat.lt_trans h.minute (by decide)
  have hsecond : c.second < 10 ^ 2 := Nat.lt_of_le_of_lt h.second (by decide)
  have hmillis : c.nanos / 1000000 < 10 ^ 3 := by
    have := h.nanos
    omega
  simp only [clockChars, hdate.chars_eq, List.append_assoc, List.cons_append, ofChars?]
  refine (bind_of_some (digits?_lastDigits hdate.year_lt _) _).trans ?_
  refine (bind_of_some (rfl : char? (· == '-') ('-' :: _) = _) _).trans ?_
  refine (bind_of_some (digits?_lastDigits hdate.month_lt _) _).trans ?_
  refine (bind_of_some (rfl : char? (· == '-') ('-' :: _) = _) _).trans ?_
  refine (bind_of_some (digits?_lastDigits hdate.day_lt _) _).trans ?_
  refine (bind_of_some (rfl : char? _ ('T' :: _) = _) _).trans ?_
  refine (bind_of_some (digits?_lastDigits hhour _) _).trans ?_
  refine (bind_of_some (rfl : char? (· == ':') (':' :: _) = _) _).trans ?_
  refine (bind_of_some (digits?_lastDigits hminute _) _).trans ?_
  refine (bind_of_some (rfl : char? (· == ':') (':' :: _) = _) _).trans ?_
  refine (bind_of_some (digits?_lastDigits hsecond _) _).trans ?_
  refine (bind_of_some (fraction?_millis hmillis) _).trans ?_
  refine (bind_of_some (rfl : offset? ['Z'] = some (0, [])) _).trans ?_
  have hsame : (⟨c.date.year.natAbs, c.date.month, c.date.day⟩ : Date) = c.date := by rw [hback]
  simp only [hsame, List.isEmpty_nil, hdate.valid, h.hour, h.minute, h.second, decide_true,
    Bool.and_true, if_true, Int.sub_zero]

/-- An instant that clocks show, in a year that is written with four digits and no sign: the
second that a leap second repeats is the last one of its minute. -/
structure OnClock (t : Instant) : Prop where
  leap : t.nanos < 1000000000 ∨ t.nanos < 2000000000 ∧ t.seconds % 60 = 59
  year : 0 ≤ t.clock.date.year ∧ t.clock.date.year ≤ 9999

theorem clock_year_iff (t : Instant) :
    (0 ≤ t.clock.date.year ∧ t.clock.date.year ≤ 9999) ↔
      -62167219200 ≤ t.seconds ∧ t.seconds < 253402300800 := by
  have hyear : t.clock.date.year = yearOf (t.seconds / 86400 + epoch) := rfl
  have hfirst : daysBeforeYear 0 = -366 := by decide
  have hend : daysBeforeYear 10000 = 3652059 := by decide
  have hepoch : epoch = 719162 := rfl
  have hle := @le_yearOf_iff 0 (t.seconds / 86400 + epoch)
  have hlt := @le_yearOf_iff 10000 (t.seconds / 86400 + epoch)
  rw [hyear]
  omega

def toMillis (t : Instant) : Instant :=
  { t with nanos := t.nanos / 1000000 * 1000000 }

variable {t u : Instant}

theorem OnClock.shown (h : t.OnClock) : Shown t.clock where
  date := ⟨(Date.ofDays_spec _).1, h.year⟩
  hour := by
    simp only [clock]
    omega
  minute := by
    simp only [clock]
    omega
  second := by
    have := h.leap
    simp only [clock]
    omega
  nanos := by
    simp only [clock]
    omega

theorem OnClock.chars_eq (h : t.OnClock) : t.chars = clockChars t.clock := by
  obtain ⟨-, hhour, hminute, hsecond, hnanos⟩ := h.shown
  rw [chars, clockChars, padded_eq_lastDigits (by omega) (by omega),
    padded_eq_lastDigits (by omega) (by omega), padded_eq_lastDigits (by omega) (by omega),
    padded_eq_lastDigits (by omega) (by omega)]

/-- A clock shows the instant that it is of. -/
theorem OnClock.ofClock_clock (h : t.OnClock) :
    ofClock { t.clock with nanos := t.clock.nanos / 1000000 * 1000000 } = t.toMillis := by
  have hleap := h.leap
  have hdays := (Date.ofDays_spec (t.seconds / 86400 + epoch)).2
  simp only [ofClock, clock, toMillis, hdays, Instant.mk.injEq]
  omega

theorem OnClock.ofText?_text (h : t.OnClock) : ofText? t.text = some t.toMillis := by
  rw [ofText?, text, String.toList_ofList, h.chars_eq, ofChars?_clockChars h.shown,
    h.ofClock_clock]

theorem text_toMillis (t : Instant) : t.toMillis.text = t.text := by
  have hsecond : t.nanos / 1000000 * 1000000 / 1000000000 = t.nanos / 1000000000 := by omega
  have hmillis : t.nanos / 1000000 * 1000000 % 1000000000 / 1000000 =
      t.nanos % 1000000000 / 1000000 := by omega
  simp only [text, chars, clock, toMillis, hsecond, hmillis]

/-- Instants come in the order of their seconds, and those of a second in the order of their
fractions, of which those of one second or more are in the leap second. -/
def order : Instant → Instant → Ordering :=
  compareLex (compareOn seconds) (compareOn nanos)

theorem order_mk (s s' : Int) (n n' : Nat) :
    order ⟨s, n⟩ ⟨s', n'⟩ = (compare s s').then (compare n n') :=
  rfl

theorem order_eq_iff {t u : Instant} : t.order u = .eq ↔ t = u := by
  obtain ⟨s, n⟩ := t
  obtain ⟨s', n'⟩ := u
  rw [order_mk, Ordering.then_eq_eq, LawfulEqOrd.compare_eq_iff_eq, LawfulEqOrd.compare_eq_iff_eq,
    Instant.mk.injEq]

/-- A leap second comes after the sixty seconds of its minute and before the next minute. -/
theorem OnClock.order_of_leap {t u : Instant} (ht : t.OnClock) (hleap : 1000000000 ≤ t.nanos) :
    (u.nanos < 1000000000 ∧ u.seconds / 60 ≤ t.seconds / 60 →
      t.toMillis.order u.toMillis = .gt) ∧
      (t.seconds / 60 < u.seconds / 60 → t.toMillis.order u.toMillis = .lt) := by
  have hlast := ht.leap
  rw [toMillis, toMillis, order_mk, Ordering.then_eq_gt, Ordering.then_eq_lt, compare_gt_iff_gt,
    compare_gt_iff_gt, compare_lt_iff_lt, LawfulEqOrd.compare_eq_iff_eq]
  omega

def count (t : Instant) : Int :=
  t.seconds * 2000 + t.nanos / 1000000

theorem OnClock.compare_count (ht : t.OnClock) (hu : u.OnClock) :
    compare t.count u.count = t.toMillis.order u.toMillis := by
  have ht := ht.leap
  have hu := hu.leap
  rw [toMillis, toMillis, order_mk, count, count]
  refine compare_eq_then (by omega) (by omega) fun hseconds => ?_
  exact compare_eq_compare (by omega) (by omega) (by omega)

theorem toDays_clock (t : Instant) : t.clock.date.toDays = t.seconds / 86400 + epoch :=
  (Date.ofDays_spec _).2

theorem OnClock.count_eq (h : t.OnClock) :
    t.count =
      (((t.clock.date.toDays - epoch) * 24 + t.clock.hour) * 60 + t.clock.minute) * 120000 +
        (t.clock.second * 2000 - t.clock.second / 60 * 1000) + t.clock.nanos / 1000000 := by
  have hleap := h.leap
  rw [toDays_clock]
  simp only [count, clock]
  omega

theorem OnClock.compare_clock (ht : t.OnClock) (hu : u.OnClock) :
    compare t.count u.count =
      (compare t.clock.date.toDays u.clock.date.toDays).then
        ((compare t.clock.hour u.clock.hour).then ((compare t.clock.minute u.clock.minute).then
          ((compare t.clock.second u.clock.second).then
            (compare (t.clock.nanos / 1000000) (u.clock.nanos / 1000000))))) := by
  obtain ⟨-, hhour, hminute, hsecond, hnanos⟩ := ht.shown
  obtain ⟨-, hhour', hminute', hsecond', hnanos'⟩ := hu.shown
  rw [ht.count_eq, hu.count_eq]
  refine compare_eq_then (by omega) (by omega) fun hday => ?_
  refine compare_eq_then (by omega) (by omega) fun hhour => ?_
  refine compare_eq_then (by omega) (by omega) fun hminute => ?_
  refine compare_eq_then (by omega) (by omega) fun hsecond => ?_
  exact compare_eq_compare (by omega) (by omega) (by omega)

/-- Texts come in the order of their instants. -/
theorem OnClock.compare_chars (ht : t.OnClock) (hu : u.OnClock) :
    compare t.chars u.chars = t.toMillis.order u.toMillis := by
  have millis {t : Instant} (h : t.OnClock) : t.clock.nanos / 1000000 < 10 ^ 3 := by
    have := h.shown.nanos
    omega
  obtain ⟨hdate, hhour, hminute, hsecond, -⟩ := ht.shown
  obtain ⟨hdate', hhour', hminute', hsecond', -⟩ := hu.shown
  rw [← ht.compare_count hu, ht.compare_clock hu, ht.chars_eq, hu.chars_eq, clockChars, clockChars,
    compare_append (hdate.length_chars hdate'), hdate.compare_chars hdate',
    List.compare_cons_cons, ReflOrd.compare_self, compare_field (by omega) (by omega),
    compare_field (by omega) (by omega), compare_field (by omega) (by omega),
    compare_field (millis ht) (millis hu), List.compare_nil_nil, Ordering.then_eq,
    Ordering.eq_then]

end Instant

end Relata
