import Mathlib.Data.List.Forall2
import Relata.Proofs.Calendar.Instant
import Relata.Store.Comparison

/-! # Time in the store

Instants and dates are bound as texts of one shape. What the store keeps of an instant is read
back as the instant in milliseconds, and the order in which the store has the texts is the order
of time.
-/

namespace Relata

open Calendar Std Text

namespace Text

def fieldLetters : List Char :=
  ['Y', 'M', 'D', 'H', 'S', 'm']

/-- What stands where a shape has a letter: digits for the letters of fields, and every other
letter for itself. -/
def Fits (letter c : Char) : Prop :=
  if letter ∈ fieldLetters then isDigit c = true else c = letter

/-- A text with the letters of a shape filled in, one character for each. -/
def HasShape (shape text : String) : Prop :=
  List.Forall₂ Fits shape.toList text.toList

theorem fits_digit {letter c : Char} (h : letter ∈ fieldLetters) (hc : isDigit c = true) :
    Fits letter c := by
  rwa [Fits, if_pos h]

theorem fits_self {c : Char} (h : c ∉ fieldLetters) : Fits c c := by
  rw [Fits, if_neg h]

theorem Fits.ascii {letter c : Char} (h : Fits letter c) (hletter : letter.val ≤ 127) :
    c.val ≤ 127 := by
  by_cases hfield : letter ∈ fieldLetters
  · rw [Fits, if_pos hfield] at h
    have hlast : c ≤ '9' := by simpa [isDigit] using (Bool.and_eq_true_iff.mp h).2
    exact UInt32.le_trans hlast (by decide)
  · rw [Fits, if_neg hfield] at h
    rwa [h]

theorem ascii_of_fits {shape text : List Char} (h : List.Forall₂ Fits shape text)
    (hshape : ∀ c ∈ shape, c.val ≤ 127) : ∀ c ∈ text, c.val ≤ 127 := by
  induction h with
  | nil => exact fun _ hc => nomatch hc
  | cons hfits _ ih =>
    obtain ⟨hletter, hshape⟩ := List.forall_mem_cons.mp hshape
    exact List.forall_mem_cons.mpr ⟨hfits.ascii hletter, ih hshape⟩

theorem fits_lastDigits {letter : Char} (h : letter ∈ fieldLetters) (w n : Nat) :
    List.Forall₂ Fits (List.replicate w letter) (lastDigits w n) := by
  induction w generalizing n with
  | zero => exact .nil
  | succ w ih =>
    rw [List.replicate_succ', lastDigits]
    exact List.rel_append (ih (n / 10)) (.cons (fits_digit h (isDigit_digitChar (by omega))) .nil)

theorem fits_field {letter c : Char} (h : letter ∈ fieldLetters) (hc : c ∉ fieldLetters)
    (w n : Nat) {shape text : List Char} (hrest : List.Forall₂ Fits shape text) :
    List.Forall₂ Fits (List.replicate w letter ++ c :: shape) (lastDigits w n ++ c :: text) :=
  List.rel_append (fits_lastDigits h w n) (.cons (fits_self hc) hrest)

end Text

theorem Date.Written.fits {d : Date} (h : d.Written) :
    List.Forall₂ Fits (List.replicate 4 'Y' ++ '-' :: (List.replicate 2 'M' ++ '-' ::
      List.replicate 2 'D')) d.chars := by
  rw [h.chars_eq]
  exact fits_field (by decide) (by decide) 4 _ (fits_field (by decide) (by decide) 2 _
    (fits_lastDigits (by decide) 2 _))

theorem Date.Written.hasShape {d : Date} (h : d.Written) : HasShape "YYYY-MM-DD" d.text := by
  rw [HasShape, text, @String.toList_ofList d.chars]
  exact h.fits

theorem Instant.OnClock.fits {t : Instant} (h : t.OnClock) :
    List.Forall₂ Fits ("YYYY-MM-DD".toList ++ 'T' :: (List.replicate 2 'H' ++ ':' ::
      (List.replicate 2 'M' ++ ':' :: (List.replicate 2 'S' ++ '.' ::
        (List.replicate 3 'm' ++ ['Z']))))) t.chars := by
  have hend : List.Forall₂ Fits ['Z'] ['Z'] := .cons (fits_self (by decide)) .nil
  rw [h.chars_eq]
  exact List.rel_append h.shown.date.fits (.cons (fits_self (by decide))
    (fits_field (by decide) (by decide) 2 _ (fits_field (by decide) (by decide) 2 _
      (fits_field (by decide) (by decide) 2 _
        (List.rel_append (fits_lastDigits (by decide) 3 _) hend)))))

theorem Instant.OnClock.hasShape {t : Instant} (h : t.OnClock) :
    HasShape "YYYY-MM-DDTHH:MM:SS.mmmZ" t.text := by
  rw [HasShape, text, @String.toList_ofList t.chars]
  exact h.fits

/-- How the store has two texts in order: by their octets, and the same as scalars. -/
structure Stand (s s' : String) (o : Ordering) : Prop where
  octets : compare (Text.octets s) (Text.octets s') = o
  scalars : Scalar.order (.text s) (.text s') = o
  same : s = s' ↔ o = .eq

theorem stand_of_ascii {s s' : String} (hs : ∀ c ∈ s.toList, c.val ≤ 127)
    (hs' : ∀ c ∈ s'.toList, c.val ≤ 127) : Stand s s' (compare s.toList s'.toList) := by
  have htexts := compare_texts s s'
  have hsame : s = s' ↔ compare s.toList s'.toList = .eq := by
    rw [← String.toList_inj, LawfulEqOrd.compare_eq_iff_eq]
  exact ⟨(compare_octets hs hs').trans htexts, htexts, hsame⟩

theorem stand_of_compare {shape s s' : String} (hs : HasShape shape s) (hs' : HasShape shape s')
    (hshape : shape.toList.all (·.val ≤ 127) = true) :
    Stand s s' (compare s.toList s'.toList) := by
  have hletters : ∀ c ∈ shape.toList, c.val ≤ 127 := fun c hc =>
    of_decide_eq_true (List.all_eq_true.mp hshape c hc)
  exact stand_of_ascii (ascii_of_fits hs hletters) (ascii_of_fits hs' hletters)

theorem Instant.OnClock.stand {t u : Instant} (ht : t.OnClock) (hu : u.OnClock) :
    Stand t.text u.text (t.toMillis.order u.toMillis) := by
  have h := stand_of_compare ht.hasShape hu.hasShape (by decide)
  rwa [text, text, String.toList_ofList, String.toList_ofList, ht.compare_chars hu] at h

theorem Date.Written.stand {d e : Date} (hd : d.Written) (he : e.Written) :
    Stand d.text e.text (compare d.toDays e.toDays) := by
  have h := stand_of_compare hd.hasShape he.hasShape (by decide)
  rwa [text, text, String.toList_ofList, String.toList_ofList, hd.compare_chars he] at h

namespace Value

/-- An instant is bound as a text of one shape. The text is read back as the instant in
milliseconds, and what was read back is bound as the same text. -/
theorem instant_reads_back {t : Instant} (h : t.OnClock) (field : String) :
    ∃ s, (Value.timestamp t).toScalar field = .ok (.text s) ∧
      HasShape "YYYY-MM-DDTHH:MM:SS.mmmZ" s ∧
      (Scalar.text s).toValue.asInstant? = some t.toMillis ∧
      ∀ u, (Scalar.text s).toValue.asInstant? = some u →
        ∀ field', (Value.timestamp u).toScalar field' = .ok (.text s) := by
  have hread : (Scalar.text t.text).toValue.asInstant? = some t.toMillis := h.ofText?_text
  refine ⟨t.text, rfl, h.hasShape, hread, fun u hu field' => ?_⟩
  obtain rfl : t.toMillis = u := Option.some.inj (hread.symm.trans hu)
  rw [toScalar, t.text_toMillis]

/-- The leap second in which the last of the years with four digits ends. -/
def lastLeap : Instant := ⟨253402300799, 1999999999⟩

theorem lastLeap_onClock : lastLeap.OnClock where
  leap := .inr (by decide)
  year := lastLeap.clock_year_iff.mpr (by decide)

theorem instant_reads_back_lastLeap :
    lastLeap.OnClock ∧ ∃ s, (Value.timestamp lastLeap).toScalar "due" = .ok (.text s) ∧
      HasShape "YYYY-MM-DDTHH:MM:SS.mmmZ" s ∧
      (Scalar.text s).toValue.asInstant? = some lastLeap.toMillis ∧
      ∀ u, (Scalar.text s).toValue.asInstant? = some u →
        ∀ field', (Value.timestamp u).toScalar field' = .ok (.text s) :=
  ⟨lastLeap_onClock, instant_reads_back lastLeap_onClock "due"⟩

/-- The texts of instants are in the order of the instants in milliseconds, leap seconds between
their minute and the next one, and the texts of dates are in the order of their days. -/
theorem texts_in_order_of_time :
    (∀ {t u : Instant}, t.OnClock → u.OnClock → ∀ field field' : String, ∃ s s',
      (Value.timestamp t).toScalar field = .ok (.text s) ∧
      (Value.timestamp u).toScalar field' = .ok (.text s') ∧
      Stand s s' (t.toMillis.order u.toMillis) ∧ (s = s' ↔ t.toMillis = u.toMillis) ∧
      (1000000000 ≤ t.nanos →
        (u.nanos < 1000000000 ∧ u.seconds / 60 ≤ t.seconds / 60 → Stand s s' .gt) ∧
        (t.seconds / 60 < u.seconds / 60 → Stand s s' .lt))) ∧
    ∀ {d e : Date}, d.Written → e.Written → ∀ field field' : String, ∃ s s',
      (Value.date d).toScalar field = .ok (.text s) ∧
      (Value.date e).toScalar field' = .ok (.text s') ∧
      Stand s s' (compare d.toDays e.toDays) ∧ (s = s' ↔ d = e) := by
  constructor
  · intro t u ht hu field field'
    have h := ht.stand hu
    refine ⟨t.text, u.text, rfl, rfl, h, h.same.trans Instant.order_eq_iff, fun hleap => ?_⟩
    obtain ⟨hafter, hbefore⟩ := ht.order_of_leap hleap
    exact ⟨fun hu => hafter hu ▸ h, fun hu => hbefore hu ▸ h⟩
  · intro d e hd he field field'
    have h := hd.stand he
    refine ⟨d.text, e.text, rfl, rfl, h, h.same.trans ?_⟩
    rw [Int.compare_eq_eq, Date.toDays_inj hd.valid he.valid]

def lastSecond : Instant := ⟨253402300799, 999999999⟩

theorem lastSecond_onClock : lastSecond.OnClock where
  leap := .inl (by decide)
  year := lastSecond.clock_year_iff.mpr (by decide)

/-- The last day of a February without a leap day, though its year is a multiple of four. -/
def endOfFebruary : Date := ⟨1900, 2, 28⟩

theorem texts_in_order_of_time_lastLeap :
    lastLeap.OnClock ∧ lastSecond.OnClock ∧
      (∃ s s', (Value.timestamp lastLeap).toScalar "due" = .ok (.text s) ∧
        (Value.timestamp lastSecond).toScalar "due" = .ok (.text s') ∧ Stand s s' .gt) ∧
      endOfFebruary.Written ∧ Date.Written ⟨1900, 3, 1⟩ ∧
      ∃ s s', (Value.date endOfFebruary).toScalar "due" = .ok (.text s) ∧
        (Value.date ⟨1900, 3, 1⟩).toScalar "due" = .ok (.text s') ∧ Stand s s' .lt := by
  obtain ⟨instants, dates⟩ := texts_in_order_of_time
  have hend : endOfFebruary.Written := ⟨by decide, by decide⟩
  have hmarch : Date.Written ⟨1900, 3, 1⟩ := ⟨by decide, by decide⟩
  obtain ⟨s, s', hs, hs', -, -, hleap⟩ := instants lastLeap_onClock lastSecond_onClock "due" "due"
  have hafter : Stand s s' .gt := (hleap (by decide)).1 (by decide)
  obtain ⟨d, d', hd, hd', hdays, -⟩ := dates hend hmarch "due" "due"
  exact ⟨lastLeap_onClock, lastSecond_onClock, ⟨s, s', hs, hs', hafter⟩, hend, hmarch,
    d, d', hd, hd', hdays⟩

end Value

end Relata
