import Mathlib
import TextHistory.Api
import TextHistory.Proofs.Outcome
import TextHistory.Proofs.Text.Numeral

/-!
# What names a version

A text names a version when what is left of it without the blanks around it is one of two words, in
capitals or not, or a numeral of a word (`VersionName.SpelledBy`). It then names one version only
(`VersionName.SpelledBy.unique`). Reading gives this version, and the error for any other text is
what is left of it. The written form of a version is read as that version
(`VersionName.read_grammar`).

What is left without blanks, the two words and the numerals are described here on their own:
`Text.Trims`, `Text.SameButCase`, `Numeral.Spells`.
-/

set_option autoImplicit false

namespace TextHistory

/-! ## Texts without the blanks around them -/

namespace Text

/-- What is left of a text when the blanks at both ends are taken away, and no others. -/
structure Trims (t u : Text) : Prop where
  parts : ∃ lead trail, t = lead ++ u ++ trail ∧ (∀ c ∈ lead, isBlank c = true) ∧
    ∀ c ∈ trail, isBlank c = true
  first : ∀ c ∈ u.head?, isBlank c = false
  last : ∀ c ∈ u.getLast?, isBlank c = false

theorem trim_eq (t : Text) : trim t = (t.dropWhile isBlank).rdropWhile isBlank := rfl

/-- Blanks in front are dropped, and nothing behind them. -/
theorem dropWhile_isBlank_append {lead t : Text} (hlead : ∀ c ∈ lead, isBlank c = true)
    (ht : ∀ c ∈ t.head?, isBlank c = false) : (lead ++ t).dropWhile isBlank = t := by
  rw [List.dropWhile_append_of_pos hlead]
  cases t with
  | nil => rfl
  | cons c t => exact List.dropWhile_cons_of_neg (by simp [ht c rfl])

theorem trims_trim (t : Text) : Trims t (trim t) := by
  have hfront := List.takeWhile_append_dropWhile (p := isBlank) (l := t)
  have hback := List.rdropWhile_append_rtakeWhile (p := isBlank) (l := t.dropWhile isBlank)
  refine ⟨⟨t.takeWhile isBlank, (t.dropWhile isBlank).rtakeWhile isBlank, ?_, ?_, ?_⟩, ?_, ?_⟩
  · rw [trim_eq, List.append_assoc, hback, hfront]
  · exact fun c hc => List.mem_takeWhile_imp hc
  · exact fun c hc => List.mem_rtakeWhile_imp hc
  · -- what is left begins like what is left once the blanks in front are gone
    intro c hc
    obtain ⟨rest, hrest⟩ := List.rdropWhile_prefix (p := isBlank) (l := t.dropWhile isBlank)
    have hhead : (t.dropWhile isBlank).head? = some c := by
      rw [← hrest, List.head?_append, ← trim_eq, Option.mem_def.mp hc]
      rfl
    have hnot := List.head?_dropWhile_not isBlank t
    rw [hhead] at hnot
    simpa using hnot
  · intro c hc
    obtain ⟨hne, rfl⟩ := List.mem_getLast?_eq_getLast hc
    exact eq_false_of_ne_true (List.rdropWhile_last_not isBlank (t.dropWhile isBlank) hne)

theorem Trims.eq_trim {t u : Text} (h : Trims t u) : u = trim t := by
  obtain ⟨⟨lead, trail, rfl, hlead, htrail⟩, hfirst, hlast⟩ := h
  have hback : (u ++ trail).rdropWhile isBlank = u := by
    have hdropped : (trail.reverse ++ u.reverse).dropWhile isBlank = u.reverse :=
      dropWhile_isBlank_append (by simpa using htrail) (by simpa using hlast)
    rw [List.rdropWhile, List.reverse_append, hdropped, List.reverse_reverse]
  rw [trim_eq, List.append_assoc]
  cases u with
  | nil =>
      -- nothing but blanks
      have hnothing : (lead ++ ([] ++ trail)).dropWhile isBlank = [] := by
        rw [List.nil_append, List.dropWhile_eq_nil_iff]
        exact fun c hc => (List.mem_append.mp hc).elim (hlead c) (htrail c)
      rw [hnothing, List.rdropWhile_nil]
  | cons c u => rw [dropWhile_isBlank_append hlead (by simpa using hfirst), hback]

theorem trims_iff {t u : Text} : Trims t u ↔ u = trim t :=
  ⟨Trims.eq_trim, fun h => h ▸ trims_trim t⟩

theorem trim_eq_self {t : Text} (h : ∀ c ∈ t, isBlank c = false) : trim t = t := by
  have ht : Trims t t :=
    ⟨⟨[], [], by simp, by simp, by simp⟩, fun c hc => h c (List.mem_of_mem_head? hc),
      fun c hc => h c (List.mem_of_mem_getLast? hc)⟩
  exact ht.eq_trim.symm

/-! ## Words in capitals or not -/

/-- A text is a word, which is given in small letters, but any of its letters may be capitals. -/
def SameButCase (word : String) (t : Text) : Prop :=
  List.Forall₂ (fun c w => c = w ∨ c = w.toUpper) t word.toList

theorem toLower_eq_iff {c w : Char} (hw : w.isLower = true) :
    c.toLower = w ↔ c = w ∨ c = w.toUpper := by
  have hsmall : w.toLower = w := Char.toLower_eq_of_not_isUpper (Char.not_isUpper_of_isLower hw)
  constructor
  · rintro rfl
    by_cases hc : c.isUpper = true
    · right
      rw [Char.toUpper_toLower_eq_toUpper,
        Char.toUpper_eq_of_not_isLower (Char.not_isLower_of_isUpper hc)]
    · left
      exact (Char.toLower_eq_of_not_isUpper hc).symm
  · rintro (rfl | rfl)
    · exact hsmall
    · rw [Char.toLower_toUpper_eq_toLower, hsmall]

theorem isWord_iff {word : String} (hword : word.toList.all Char.isLower = true) {t : Text} :
    isWord word t = true ↔ SameButCase word t := by
  rw [isWord, beq_iff_eq, SameButCase]
  generalize word.toList = ws at hword
  induction ws generalizing t with
  | nil => simp
  | cons w ws ih =>
      rw [List.all_cons, Bool.and_eq_true] at hword
      obtain ⟨hw, hws⟩ := hword
      cases t with
      | nil => simp
      | cons c t =>
          rw [List.map_cons, List.cons.injEq, List.forall₂_cons, toLower_eq_iff hw, ih hws]

end Text

/-! ## Numerals -/

namespace Numeral

/-- A numeral of a number: decimal digits, of which the last one counts ones, the one before it tens
and so on, perhaps with a plus sign in front. -/
def Spells (t : Text) (n : Nat) : Prop :=
  ∃ sign digits, t = sign ++ digits ∧ (sign = [] ∨ sign = ['+']) ∧ digits ≠ [] ∧
    (∀ c ∈ digits, c.isDigit = true) ∧ Nat.ofDigits 10 (digits.reverse.map digit) = n

theorem value_eq_ofDigits (digits : Text) :
    value digits = Nat.ofDigits 10 (digits.reverse.map digit) := by
  induction digits using List.reverseRecOn with
  | nil => rfl
  | append_singleton digits c ih =>
      have hvalue : value (digits ++ [c]) = 10 * value digits + digit c := by
        rw [value, List.foldl_append]
        rfl
      rw [hvalue, ih, List.reverse_append, List.reverse_singleton, List.singleton_append,
        List.map_cons, Nat.ofDigits_cons, Nat.add_comm]

theorem read_eq_some_iff {t : Text} {n : Nat} :
    read t = some n ↔ t ≠ [] ∧ (∀ c ∈ t, c.isDigit = true) ∧
      Nat.ofDigits 10 (t.reverse.map digit) = n := by
  rw [read, ← value_eq_ofDigits]
  constructor
  · intro h
    split at h
    · next ht => exact ⟨ht.1, List.all_eq_true.mp ht.2, Option.some.inj h⟩
    · cases h
  · rintro ⟨hne, hdigits, rfl⟩
    exact if_pos ⟨hne, List.all_eq_true.mpr hdigits⟩

/-- The digits of a numeral, without its sign. -/
theorem spells_iff {t : Text} {n : Nat} :
    Spells t n ↔ read t = some n ∨ ∃ digits, t = '+' :: digits ∧ read digits = some n := by
  constructor
  · rintro ⟨sign, digits, rfl, rfl | rfl, hread⟩
    · exact Or.inl (read_eq_some_iff.mpr hread)
    · exact Or.inr ⟨digits, rfl, read_eq_some_iff.mpr hread⟩
  · rintro (hread | ⟨digits, rfl, hread⟩)
    · exact ⟨[], t, rfl, Or.inl rfl, read_eq_some_iff.mp hread⟩
    · exact ⟨['+'], digits, rfl, Or.inr rfl, read_eq_some_iff.mp hread⟩

/-- **What is read as a word** are the numerals of words. -/
theorem readWord_eq_some_iff {t : Text} {n : Nat} :
    readWord t = some n ↔ Spells t n ∧ n < wordLimit := by
  rw [spells_iff]
  unfold readWord
  split
  · next digits =>
    -- a plus sign is no digit, so it is the sign
    have hplus : read ('+' :: digits) ≠ some n := by
      intro h
      have := (read_eq_some_iff.mp h).2.1 '+' List.mem_cons_self
      exact absurd this (by decide)
    simp [hplus, Option.filter_eq_some_iff]
  · next hplus =>
    have hsign : ¬∃ digits, t = '+' :: digits ∧ read digits = some n :=
      fun ⟨digits, ht, _⟩ => hplus digits ht
    simp [hsign, Option.filter_eq_some_iff]

theorem toNat_of_isDigit {c : Char} (h : c.isDigit = true) : 48 ≤ c.toNat ∧ c.toNat ≤ 57 := by
  simpa [Char.isDigit, UInt32.le_iff_toNat_le] using h

/-- A numeral begins with a digit or a plus sign, so it is no word. -/
theorem Spells.not_sameButCase {t : Text} {n : Nat} (h : Spells t n) {word : String}
    (hword : word.toList.all Char.isLower = true) : ¬Text.SameButCase word t := by
  obtain ⟨c, rest, rfl, hc⟩ : ∃ c rest, t = c :: rest ∧ c.isAlpha = false := by
    obtain ⟨sign, digits, rfl, rfl | rfl, hne, hdigits, -⟩ := h
    · obtain ⟨c, digits, rfl⟩ := List.exists_cons_of_ne_nil hne
      refine ⟨c, digits, rfl, ?_⟩
      have hc := toNat_of_isDigit (hdigits c List.mem_cons_self)
      simp [Char.isAlpha, Char.isUpper, Char.isLower, UInt32.le_iff_toNat_le]
      omega
    · exact ⟨'+', digits, rfl, by decide⟩
  intro hsame
  rw [Text.SameButCase] at hsame
  generalize word.toList = ws at hword hsame
  cases hsame with
  | @cons _ w _ ws hcw _ =>
      have hlower := List.all_eq_true.mp hword w List.mem_cons_self
      have hw : w.isAlpha = true := by simp [Char.isAlpha, hlower]
      rcases hcw with rfl | rfl
      · rw [hw] at hc
        cases hc
      · rw [Char.isAlpha_toUpper_eq_isAlpha, hw] at hc
        cases hc

end Numeral

/-! ## Names of versions -/

/-- A parameter of a request is read as a version, and the error tells what was read. -/
theorem Api.namedVersion_eq {ps : Query} {name : String} {raw : Text}
    (h : given ps name = .ok raw) : namedVersion ps name
      = (VersionName.read raw).mapError fun t => .history (.invalidVersion t) := by
  rw [namedVersion, h, Outcome.ok_bind]
  cases VersionName.read raw <;> rfl

namespace VersionName

/-- A text without blanks around it names a version: a word, in capitals or not, or the numeral of
a word. -/
def SpelledBy (u : Text) : VersionName → Prop
  | .latest => Text.SameButCase "latest" u
  | .base => Text.SameButCase "base" u
  | .index n => Numeral.Spells u n ∧ n < wordLimit

variable {s u : Text} {which other : VersionName}

theorem isWord_latest_iff : Text.isWord "latest" u = true ↔ SpelledBy u .latest :=
  Text.isWord_iff (by decide)

theorem isWord_base_iff : Text.isWord "base" u = true ↔ SpelledBy u .base :=
  Text.isWord_iff (by decide)

/-- A text names one version only. -/
theorem SpelledBy.unique (h : SpelledBy u which) (h' : SpelledBy u other) : which = other := by
  have hwords : ¬(SpelledBy u .latest ∧ SpelledBy u .base) := by
    rintro ⟨hlatest, hbase⟩
    exact absurd (hlatest.length_eq.symm.trans hbase.length_eq) (by decide)
  have hlatest : ∀ n, SpelledBy u (.index n) → ¬SpelledBy u .latest :=
    fun n hn => hn.1.not_sameButCase (by decide)
  have hbase : ∀ n, SpelledBy u (.index n) → ¬SpelledBy u .base :=
    fun n hn => hn.1.not_sameButCase (by decide)
  cases which with
  | latest =>
      cases other with
      | latest => rfl
      | base => exact absurd ⟨h, h'⟩ hwords
      | index n => exact absurd h (hlatest n h')
  | base =>
      cases other with
      | latest => exact absurd ⟨h', h⟩ hwords
      | base => rfl
      | index n => exact absurd h (hbase n h')
  | index m =>
      cases other with
      | latest => exact absurd h' (hlatest m h)
      | base => exact absurd h' (hbase m h)
      | index n =>
          have hread := Numeral.readWord_eq_some_iff.mpr h
          rw [Numeral.readWord_eq_some_iff.mpr h'] at hread
          rw [Option.some.inj hread]

/-- A text is read as a version it names, or it names none and is itself the error. -/
theorem read_cases (s : Text) :
    (∃ which, read s = .ok which ∧ SpelledBy (Text.trim s) which) ∨
      (read s = .error (Text.trim s) ∧ ∀ which, ¬SpelledBy (Text.trim s) which) := by
  unfold read
  dsimp only
  split
  · next hlatest => exact Or.inl ⟨.latest, rfl, isWord_latest_iff.mp hlatest⟩
  · next hlatest =>
    split
    · next hbase => exact Or.inl ⟨.base, rfl, isWord_base_iff.mp hbase⟩
    · next hbase =>
      split
      · next n hn => exact Or.inl ⟨.index n, rfl, Numeral.readWord_eq_some_iff.mp hn⟩
      · next hnone =>
        refine Or.inr ⟨rfl, fun which h => ?_⟩
        cases which with
        | latest => exact hlatest (isWord_latest_iff.mpr h)
        | base => exact hbase (isWord_base_iff.mpr h)
        | index n =>
            rw [Numeral.readWord_eq_some_iff.mpr h] at hnone
            cases hnone

theorem read_eq_ok_iff : read s = .ok which ↔ SpelledBy (Text.trim s) which := by
  rcases read_cases s with ⟨other, hread, hspelled⟩ | ⟨hread, hnone⟩
  · rw [hread, Except.ok.injEq]
    exact ⟨fun h => h ▸ hspelled, fun h => hspelled.unique h⟩
  · rw [hread]
    exact ⟨fun h => (nomatch h), fun h => absurd h (hnone which)⟩

theorem read_eq_error_iff {t : Text} :
    read s = .error t ↔ t = Text.trim s ∧ ∀ which, ¬SpelledBy (Text.trim s) which := by
  rcases read_cases s with ⟨which, hread, hspelled⟩ | ⟨hread, hnone⟩
  · rw [hread]
    exact ⟨fun h => (nomatch h), fun h => absurd hspelled (h.2 which)⟩
  · rw [hread, Except.error.injEq]
    exact ⟨fun h => ⟨h.symm, hnone⟩, fun h => h.1.symm⟩

/-- The written form of a version names it. -/
theorem spelledBy_print (hword : ∀ n, which = .index n → n < wordLimit) :
    SpelledBy which.print which := by
  cases which with
  | latest => exact isWord_latest_iff.mp (by decide)
  | base => exact isWord_base_iff.mp (by decide)
  | index n => exact Numeral.readWord_eq_some_iff.mp (Numeral.readWord_print (hword n rfl))

theorem trim_print (which : VersionName) : Text.trim which.print = which.print := by
  cases which with
  | latest => decide
  | base => decide
  | index n =>
      refine Text.trim_eq_self fun c hc => ?_
      have hdigit := Numeral.toNat_of_isDigit (Numeral.isDigit_of_mem_print hc)
      simp [Text.isBlank]
      omega

/-- **The texts that name a version** are its written form and no others but those that the grammar
gives: without the blanks around it, one of the two words, in capitals or not, or a numeral of a
word, which may have a plus sign and zeros in front. The error for any other text is what is left of
it without these blanks. -/
theorem read_grammar :
    (∀ which : VersionName, (∀ n, which = .index n → n < wordLimit) →
      read which.print = .ok which) ∧
    ∀ s : Text, ∃ u, (∀ v, Text.Trims s v ↔ v = u) ∧
      (∀ which, read s = .ok which ↔ SpelledBy u which) ∧
      (∀ t, read s = .error t ↔ t = u ∧ ∀ which, ¬SpelledBy u which) ∧
      ∀ ps name, Api.given ps name = .ok s →
        (Api.namedVersion ps name = .error (.history (.invalidVersion u)) ↔
          ∀ which, ¬SpelledBy u which) := by
  constructor
  · intro which hword
    rw [read_eq_ok_iff, trim_print]
    exact spelledBy_print hword
  · intro s
    refine ⟨Text.trim s, fun v => Text.trims_iff, fun which => read_eq_ok_iff,
      fun t => read_eq_error_iff, fun ps name hgiven => ?_⟩
    rw [Api.namedVersion_eq hgiven]
    rcases read_cases s with ⟨which, hread, hspelled⟩ | ⟨hread, hnone⟩
    · rw [hread]
      exact ⟨fun h => (nomatch h), fun h => absurd hspelled (h which)⟩
    · rw [hread]
      exact ⟨fun _ => hnone, fun _ => rfl⟩

/-- The largest word, as it is written and with a sign and a zero between blanks, and the number
after it, which is no word. -/
theorem read_grammar_largest :
    let last := wordLimit - 1
    let padded := "\u3000+018446744073709551615\n".toList
    let signed := "+018446744073709551615".toList
    let beyond := "18446744073709551616".toList
    (∀ n, VersionName.index last = .index n → n < wordLimit) ∧
      read "18446744073709551615".toList = .ok (.index last) ∧
      Text.Trims padded signed ∧ read padded = .ok (.index last) ∧ SpelledBy signed (.index last) ∧
      read beyond = .error beyond ∧ ∀ which, ¬SpelledBy beyond which := by
  intro last padded signed beyond
  obtain ⟨hprint, hgrammar⟩ := read_grammar
  have hword : ∀ n, VersionName.index last = .index n → n < wordLimit := by
    rintro n ⟨⟩
    decide
  have hlargest : read "18446744073709551615".toList = .ok (.index last) := by
    have hwritten : (VersionName.index last).print = "18446744073709551615".toList := by decide
    rw [← hwritten]
    exact hprint (.index last) hword
  have hpadded : read padded = .ok (.index last) := by decide
  have hbeyond : read beyond = .error beyond := by decide
  obtain ⟨u, htrims, hread, -⟩ := hgrammar padded
  have htrimmed : Text.Trims padded signed := Text.trims_iff.mpr (by decide)
  obtain rfl := (htrims signed).mp htrimmed
  obtain ⟨v, -, -, herror, -⟩ := hgrammar beyond
  obtain ⟨rfl, hnone⟩ := (herror beyond).mp hbeyond
  exact ⟨hword, hlargest, htrimmed, hpadded, (hread _).mp hpadded, hbeyond, hnone⟩

end VersionName

end TextHistory
