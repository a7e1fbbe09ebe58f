import TextHistory.Text.Numeral

/-!
# Numerals read back

The numeral of a number consists of digits and spells that number, so a word is read back from
its numeral. Conversely what is read as a word is below the limit of the words.
-/

set_option autoImplicit false

namespace TextHistory.Numeral

theorem value_print (n : Nat) : value (print n) = n :=
  Nat.ofDigitChars_ten_toDigits

theorem isDigit_of_mem_print {n : Nat} {c : Char} (h : c ∈ print n) : c.isDigit = true :=
  Nat.isDigit_of_mem_toDigits (by decide) (by decide) h

theorem print_ne_nil (n : Nat) : print n ≠ [] := Nat.toDigits_ne_nil

theorem read_print (n : Nat) : read (print n) = some n := by
  rw [read, if_pos ⟨print_ne_nil n, List.all_eq_true.mpr fun _ => isDigit_of_mem_print⟩,
    value_print]

/-- A digit is none of the signs and separators of a heading. -/
theorem ne_of_mem_print {n : Nat} {c d : Char} (h : c ∈ print n) (hd : d.isDigit = false) :
    c ≠ d := by
  rintro rfl
  rw [isDigit_of_mem_print h] at hd
  cases hd

theorem readWord_print {n : Nat} (h : n < wordLimit) : readWord (print n) = some n := by
  unfold readWord
  split
  · next rest hplus =>
    have hmem : '+' ∈ print n := by rw [hplus]; exact List.mem_cons_self
    exact absurd rfl (ne_of_mem_print hmem (d := '+') rfl)
  · dsimp only
    rw [read_print, Option.filter_some, if_pos (decide_eq_true h)]

theorem readWord_lt {t : Text} {n : Nat} (h : readWord t = some n) : n < wordLimit := by
  unfold readWord at h
  exact of_decide_eq_true (Option.filter_eq_some_iff.mp h).2

end TextHistory.Numeral
