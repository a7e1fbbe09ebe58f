import TextHistory.Proofs.Text.Numeral
import TextHistory.Time.Reader

/-!
# Instants read back

The store keeps an instant as its text and reads the text when a row is looked at. An instant is
*storable* when its text reads back: it names a day of a year from 0 to 9999 and a time of that
day, where a leap second may follow second 59 (`Instant.Storable`). The text is read field by
field, and each field is a number padded to a fixed width (`Instant.digits_padded`), so nothing is
lost (`Instant.read_print`). The text of any other year begins with a sign, which is not read
(`Instant.read_print_of_not_fourDigit`).
-/

set_option autoImplicit false

namespace TextHistory

namespace Numeral

theorem value_zeros (k : Nat) (digits : Text) :
    value (List.replicate k '0' ++ digits) = value digits := by
  induction k with
  | zero => rfl
  | succ k ih =>
      rw [← ih]
      rfl

end Numeral

namespace Instant

/-! ## Padded numbers -/

theorem padded_length {width n : Nat} (hw : 0 < width) (hn : n < Nat.pow 10 width) :
    (padded width n).length = width := by
  have hle : (Numeral.print n).length ≤ width :=
    (Nat.length_toDigits_le_iff (by decide) hw).mpr hn
  simp only [padded, List.length_append, List.length_replicate]
  omega

theorem isDigit_of_mem_padded {width n : Nat} {c : Char} (h : c ∈ padded width n) :
    c.isDigit = true := by
  rcases List.mem_append.mp h with h | h
  · rw [(List.mem_replicate.mp h).2]
    rfl
  · exact Numeral.isDigit_of_mem_print h

theorem value_padded (width n : Nat) : Numeral.value (padded width n) = n := by
  rw [padded, Numeral.value_zeros, Numeral.value_print]

theorem takeWhile_padded (width n : Nat) :
    (padded width n).takeWhile Char.isDigit = padded width n := by
  have h : (padded width n ++ []).takeWhile Char.isDigit
      = padded width n ++ [].takeWhile Char.isDigit :=
    List.takeWhile_append_of_pos fun _ => isDigit_of_mem_padded
  simpa using h

/-- A field of a fixed width is read whole, whatever follows. -/
theorem digits_padded (width : Nat) {n : Nat} (hw : 0 < width) (hn : n < Nat.pow 10 width)
    (rest : Text) :
    digits width width (padded width n ++ rest) = .ok (n, rest) := by
  have hlen := padded_length hw hn
  have htake : (padded width n ++ rest).take width = padded width n := List.take_left' hlen
  have hdrop : (padded width n ++ rest).drop width = rest := List.drop_left' hlen
  simp only [digits, htake, takeWhile_padded, hlen, Nat.le_refl, if_true, value_padded, hdrop]

/-! ## The fraction of a second -/

/-- A padded fraction before a character that is no digit. -/
theorem nanoseconds_padded {width n : Nat} (hw : 0 < width) (hw' : width ≤ 9)
    (hn : n < Nat.pow 10 width) {c : Char} (hc : c.isDigit = false) (rest : Text) :
    nanoseconds ('.' :: (padded width n ++ c :: rest))
      = .ok (n * Nat.pow 10 (9 - width), c :: rest) := by
  have hlen := padded_length hw hn
  have hds : ((padded width n ++ c :: rest).take 9).takeWhile Char.isDigit = padded width n := by
    rw [List.take_append, hlen, List.take_of_length_le (by omega),
      List.takeWhile_append_of_pos fun _ => isDigit_of_mem_padded]
    -- up to nine digits are taken, and there are no more of them than were written
    cases 9 - width with
    | zero => simp
    | succ k => simp [hc]
  have hne : padded width n ≠ [] := by
    rw [← List.length_pos_iff]
    omega
  have hdrop : (padded width n ++ c :: rest).drop width = c :: rest := List.drop_left' hlen
  simp only [nanoseconds, hds, value_padded, hlen, hdrop]
  simp [hne, hc]

theorem nanoseconds_printFraction {nano : Nat} (h : nano < 1000000000) {c : Char}
    (hc : c.isDigit = false) (hdot : c ≠ '.') (rest : Text) :
    nanoseconds (printFraction nano ++ c :: rest) = .ok (nano, c :: rest) := by
  unfold printFraction
  split
  · -- nothing is written, and what follows does not begin with a point
    next h0 =>
    rw [h0, List.nil_append]
    unfold nanoseconds
    split
    · next heq =>
      cases heq
      exact absurd rfl hdot
    · rfl
  · split
    · next hmod =>
      have hnano : nano / 1000000 * 1000000 = nano := by omega
      have hfew : nano / 1000000 < 1000 := by omega
      rw [List.cons_append, nanoseconds_padded (by decide) (by decide) hfew hc]
      exact congrArg (fun n => Except.ok (n, c :: rest)) hnano
    · split
      · next hmod =>
        have hnano : nano / 1000 * 1000 = nano := by omega
        have hfew : nano / 1000 < 1000000 := by omega
        rw [List.cons_append, nanoseconds_padded (by decide) (by decide) hfew hc]
        exact congrArg (fun n => Except.ok (n, c :: rest)) hnano
      · rw [List.cons_append, nanoseconds_padded (by decide) (by decide) h hc]
        exact congrArg (fun n => Except.ok (n, c :: rest)) (Nat.mul_one nano)

/-! ## Storable instants -/

/-- The text of the instant in a record reads back. -/
structure Storable (t : Instant) : Prop where
  date : isDate t.year t.month t.day = true
  year_nonneg : 0 ≤ t.year
  year_le : t.year ≤ 9999
  hour_lt : t.hour < 24
  minute_lt : t.minute < 60
  second_lt : t.second < 60
  nano_lt : t.nano < 2000000000
  leap : 1000000000 ≤ t.nano → t.second = 59

/-- The beginning of a year. -/
def newYear : Instant := ⟨2024, 1, 1, 0, 0, 0, 0⟩

theorem storable_newYear : newYear.Storable := by
  constructor <;> decide

theorem daysIn_le (year : Int) (month : Nat) : daysIn year month ≤ 31 := by
  unfold daysIn
  split
  · split <;> omega
  · split <;> omega

/-- In universal time the clock shows the instant itself. -/
theorem ofLocal_zero {t : Instant} (hh : t.hour < 24) (hm : t.minute < 60) : ofLocal t 0 = t := by
  have hneg : ¬((t.hour : Int) * 60 + t.minute - 0 < 0) := by omega
  have hday : ¬(1440 ≤ (t.hour : Int) * 60 + t.minute - 0) := by omega
  have hmod : (((t.hour : Int) * 60 + t.minute - 0) % 1440).toNat = t.hour * 60 + t.minute := by
    omega
  have hhour : (t.hour * 60 + t.minute) / 60 = t.hour := by omega
  have hminute : (t.hour * 60 + t.minute) % 60 = t.minute := by omega
  simp only [ofLocal, if_neg hneg, if_neg hday, hmod, hhour, hminute]

/-- The fields of a written instant, where a leap second stands as second 60. -/
theorem ofFields?_storable {t : Instant} (h : t.Storable) :
    let leap := 1000000000 ≤ t.nano
    ofFields? t.year t.month t.day t.hour t.minute (if leap then t.second + 1 else t.second)
      (if leap then t.nano - 1000000000 else t.nano) 0 = some t := by
  intro leap
  have hsecond := h.second_lt
  have hhour := h.hour_lt
  have hminute := h.minute_lt
  have hdate := h.date
  have hfields : ofFields? t.year t.month t.day t.hour t.minute
      (if leap then t.second + 1 else t.second)
      (if leap then t.nano - 1000000000 else t.nano) 0 = some (ofLocal t 0) := by
    unfold ofFields?
    by_cases hleap : 1000000000 ≤ t.nano
    · have h59 := h.leap hleap
      have hnano : t.nano - 1000000000 + 1000000000 = t.nano := by omega
      simp only [leap, if_pos hleap, h59, hnano]
      rw [if_pos ⟨hdate, by omega, by omega, by omega⟩]
      simp only [if_true]
      rw [← h59, ofLocal_zero hhour hminute, if_pos hdate]
    · have h60 : ¬t.second = 60 := by omega
      simp only [leap, if_neg hleap, if_neg h60]
      rw [if_pos ⟨hdate, by omega, by omega, by omega⟩, ofLocal_zero hhour hminute, if_pos hdate]
  rw [hfields, ofLocal_zero hhour hminute]

/-- **A storable instant is read back from its text.** -/
theorem read_print {t : Instant} (h : t.Storable) : read t.print = .ok t := by
  have hdate := h.date
  simp only [isDate, Bool.and_eq_true, decide_eq_true_eq] at hdate
  have hdays := daysIn_le t.year t.month
  have hyear0 := h.year_nonneg
  have hyear1 := h.year_le
  have hhour := h.hour_lt
  have hminute := h.minute_lt
  have hsecond := h.second_lt
  have hnano := h.nano_lt
  have hyear : printYear t.year = padded 4 t.year.toNat := if_pos ⟨hyear0, hyear1⟩
  have hcast : (t.year.toNat : Int) = t.year := Int.toNat_of_nonneg hyear0
  have hfields := ofFields?_storable h
  simp only at hfields
  have hnano' : (if 1000000000 ≤ t.nano then t.nano - 1000000000 else t.nano) < 1000000000 := by
    split <;> omega
  have hsecond' : (if 1000000000 ≤ t.nano then t.second + 1 else t.second) < 100 := by
    split <;> omega
  have hzone : "+00:00".toList = '+' :: "00:00".toList := rfl
  -- each field takes its own digits and leaves the rest to the next one
  simp only [print, printWith, printDate, printTime, hyear, hzone, List.append_assoc,
    List.cons_append]
  simp only [read, bind, Except.bind, expect, separator, if_true, true_or,
    digits_padded 4 (by decide) (show t.year.toNat < 10000 by omega),
    digits_padded 2 (by decide) (show t.month < 100 by omega),
    digits_padded 2 (by decide) (show t.day < 100 by omega),
    digits_padded 2 (by decide) (show t.hour < 100 by omega),
    digits_padded 2 (by decide) (show t.minute < 100 by omega),
    digits_padded 2 (by decide) hsecond',
    nanoseconds_printFraction hnano' (c := '+') rfl (by decide)]
  rw [show offset (expect ':') ('+' :: "00:00".toList) = .ok (0, []) from rfl]
  simp only [hcast, hfields]
  rfl

/-! ## Instants of any year -/

/-- The fields are those of a moment, in whatever year and with a leap second after any second. -/
structure Valid (t : Instant) : Prop where
  date : isDate t.year t.month t.day = true
  hour_lt : t.hour < 24
  minute_lt : t.minute < 60
  second_lt : t.second < 60
  nano_lt : t.nano < 2000000000

/-- The year is written without a sign. -/
def FourDigit (t : Instant) : Prop := 0 ≤ t.year ∧ t.year ≤ 9999

instance (t : Instant) : Decidable t.FourDigit := inferInstanceAs (Decidable (_ ∧ _))

theorem Storable.valid {t : Instant} (h : t.Storable) : t.Valid :=
  ⟨h.date, h.hour_lt, h.minute_lt, h.second_lt, h.nano_lt⟩

/-- A leap second is written as the second after the one it follows. So the text of one that does
not follow second 59 is that of another instant. -/
theorem print_eq_of_valid {t : Instant} (h : t.Valid) (hyear : t.FourDigit) :
    ∃ u : Instant, u.Storable ∧ u.print = t.print := by
  by_cases hleap : 1000000000 ≤ t.nano ∧ t.second ≠ 59
  · obtain ⟨hnano, hsecond⟩ := hleap
    have hnano' : ¬1000000000 ≤ t.nano - 1000000000 := by
      have := h.nano_lt
      omega
    refine ⟨{ t with second := t.second + 1, nano := t.nano - 1000000000 },
      ⟨h.date, hyear.1, hyear.2, h.hour_lt, h.minute_lt, ?_, ?_, fun hle => absurd hle hnano'⟩, ?_⟩
    · have := h.second_lt
      show t.second + 1 < 60
      omega
    · show t.nano - 1000000000 < 2000000000
      have := h.nano_lt
      omega
    · simp only [print, printWith, printDate, printTime, if_pos hnano, if_neg hnano']
  · refine ⟨t, ⟨h.date, hyear.1, hyear.2, h.hour_lt, h.minute_lt, h.second_lt, h.nano_lt, ?_⟩, rfl⟩
    exact fun hle => Decidable.of_not_not fun hne => hleap ⟨hle, hne⟩

/-- A field does not begin with another character than a digit. -/
theorem digits_of_not_isDigit {width : Nat} {c : Char} (hc : c.isDigit = false) {rest : Text}
    (hwidth : 0 < width) (hlen : width ≤ rest.length) :
    digits width width (c :: rest) = .error .invalid := by
  have hnone : ((c :: rest).take width).takeWhile Char.isDigit = [] := by
    cases width with
    | zero => rfl
    | succ n => rw [List.take_succ_cons, List.takeWhile_cons_of_neg (by simp [hc])]
  have hlong : ¬(c :: rest).length < width := by
    rw [List.length_cons]
    omega
  simp only [digits, hnone]
  rw [if_neg (by rw [List.length_nil]; omega), if_neg hlong]

/-- A year with a sign is written but not read. -/
theorem read_print_of_not_fourDigit {t : Instant} (h : ¬t.FourDigit) :
    read t.print = .error .invalid := by
  have hsign : (if t.year < 0 then '-' else '+').isDigit = false := by
    split <;> rfl
  have hyear : printYear t.year
      = (if t.year < 0 then '-' else '+') :: padded 4 t.year.natAbs := if_neg h
  simp only [print, printWith, printDate, hyear, List.cons_append]
  rw [read, digits_of_not_isDigit hsign (by decide)]
  · rfl
  · simp only [padded, List.length_append, List.length_replicate]
    omega

end Instant

end TextHistory
