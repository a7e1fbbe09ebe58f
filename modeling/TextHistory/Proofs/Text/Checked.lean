import TextHistory.Proofs.Outcome
import TextHistory.Proofs.Text.Occurrence
import TextHistory.Text.Checked

/-!
# Searches without faults

A search that goes position by position never reads outside its text, however far the expected
position lies from it, and comes to the same as looking at all occurrences at once: the outward
search finds the occurrence nearest to the expected position (`Text.seekNearest_eq`,
`Text.seekNearest_exact`), and two searches from the left tell whether a pattern stands in a text
once (`Text.standsOnce_eq`).

The outward search has seen all positions nearer than `d` when it comes to the two that are `d` away
(`Text.seek_eq`). When it ends early there is no position left on either side.
-/

set_option autoImplicit false

namespace TextHistory

open Outcome

/-! ## Words -/

namespace Word

theorem add?_of_lt {a b : Nat} (h : a + b < wordLimit) : add? a b = some (a + b) := if_pos h

theorem sub?_of_le {a b : Nat} (h : b ≤ a) : sub? a b = some (a - b) := if_pos h

theorem signed?_of_le {n : Nat} (h : n ≤ maxPosition) : signed? n = some (n : Int) := if_pos h

@[simp] theorem add_of_lt {a b : Nat} (h : a + b < wordLimit) : add a b = .ok (a + b) := by
  rw [add, add?_of_lt h]
  rfl

@[simp] theorem sub_of_le {a b : Nat} (h : b ≤ a) : sub a b = .ok (a - b) := by
  rw [sub, sub?_of_le h]
  rfl

@[simp] theorem mul_of_lt {a b : Nat} (h : a * b < wordLimit) : mul a b = .ok (a * b) := if_pos h

theorem add_of_le {a b : Nat} (h : wordLimit ≤ a + b) : add a b = .error .overflow := by
  rw [add, add?, if_neg (by omega)]
  rfl

theorem mul_of_le {a b : Nat} (h : wordLimit ≤ a * b) : mul a b = .error .overflow :=
  if_neg (by omega)

@[simp] theorem signed_of_le {n : Nat} (h : n ≤ maxPosition) : signed n = .ok (n : Int) := by
  rw [signed, signed?_of_le h]
  rfl

end Word

namespace Text

/-! ## Stretches -/

theorem cut_of_le {t : Text} {start stop : Nat} (h : start ≤ stop) (h' : stop ≤ t.length) :
    cut t start stop = .ok (slice t start stop) :=
  if_pos ⟨h, h'⟩

theorem replace_of_le {t : Text} {start length : Nat} (h : start + length ≤ t.length)
    (inserted : Text) : replace t start (start + length) inserted
      = .ok (splice t start length inserted) := by
  rw [replace, if_pos ⟨Nat.le_add_right _ _, h⟩, Nat.add_sub_cancel_left]

theorem le_of_occursAt {text pattern : Text} {p : Nat} (h : occursAt text pattern p = true) :
    p + pattern.length ≤ text.length := by
  obtain ⟨pre, post, rfl, rfl⟩ := occursAt_iff.mp h
  simp only [List.length_append]
  omega

theorem occursAt_eq_false {text pattern : Text} {p : Nat}
    (h : text.length < p + pattern.length) : occursAt text pattern p = false := by
  cases hp : occursAt text pattern p with
  | false => rfl
  | true => exact absurd (le_of_occursAt hp) (Nat.not_le.mpr h)

/-- A pattern stands where the text holds it between two positions. -/
theorem slice_eq_iff {text pattern : Text} {p : Nat} (h : p + pattern.length ≤ text.length) :
    slice text p (p + pattern.length) = pattern ↔ occursAt text pattern p = true := by
  have hslice : slice text p (p + pattern.length) = (text.drop p).take pattern.length := by
    rw [slice, List.drop_take, Nat.add_sub_cancel_left]
  have hp : decide (p ≤ text.length) = true := decide_eq_true (by omega)
  rw [hslice, occursAt, hp, Bool.true_and, List.isPrefixOf_iff_prefix, List.prefix_iff_eq_take]
  exact eq_comm

/-! ## The outward search -/

variable {text pattern : Text} {last : Nat}

/-- Positions behind the last one are not read, and the pattern does not stand there. -/
theorem readsAt_eq (hlast : text.length = last + pattern.length) (hword : text.length < wordLimit)
    (p : Nat) : readsAt text pattern last p = .ok (occursAt text pattern p) := by
  rw [readsAt]
  split
  · next hp =>
    have hroom : p + pattern.length ≤ text.length := by omega
    have hcut := cut_of_le (Nat.le_add_right p pattern.length) hroom
    rw [Word.add_of_lt (Nat.lt_of_le_of_lt hroom hword), ok_bind, hcut, ok_bind]
    show Except.ok _ = _
    rw [Except.ok.injEq, Bool.eq_iff_iff, beq_iff_eq, slice_eq_iff hroom]
  · next hp =>
    rw [occursAt_eq_false (by omega)]
    rfl

theorem readsAt_sub? (hlast : text.length = last + pattern.length) (hword : text.length < wordLimit)
    (p d : Nat) : readsAt? text pattern last (Word.sub? p d)
      = .ok (decide (d ≤ p) && occursAt text pattern (p - d)) := by
  rw [Word.sub?]
  split
  · next hle =>
    rw [readsAt?, readsAt_eq hlast hword, decide_eq_true hle, Bool.true_and]
  · next hlt =>
    rw [readsAt?, decide_eq_false hlt, Bool.false_and]

/-- A position that is no word lies behind the text. -/
theorem readsAt_add? (hlast : text.length = last + pattern.length) (hword : text.length < wordLimit)
    (p d : Nat) : readsAt? text pattern last (Word.add? p d)
      = .ok (occursAt text pattern (p + d)) := by
  rw [Word.add?]
  split
  · rw [readsAt?, readsAt_eq hlast hword]
  · next hlarge =>
    rw [readsAt?, occursAt_eq_false (by omega)]

/-- The position expected itself is not looked at once more. -/
theorem readsAt_add?_or_none (hlast : text.length = last + pattern.length)
    (hword : text.length < wordLimit) (p d : Nat) :
    readsAt? text pattern last (if 0 < d then Word.add? p d else none)
      = .ok (decide (0 < d) && occursAt text pattern (p + d)) := by
  split
  · next hpos => rw [readsAt_add? hlast hword, decide_eq_true hpos, Bool.true_and]
  · next hzero => rw [readsAt?, decide_eq_false hzero, Bool.false_and]

/-- No side has a position left that is farther away. -/
theorem all_exhausted_iff (hword : last < wordLimit) (p d : Nat) :
    ((Word.sub? p d).all (· == 0) && (Word.add? p d).all (last ≤ ·)) = true ↔
      p ≤ d ∧ last ≤ p + d := by
  rw [Word.sub?, Word.add?, Bool.and_eq_true]
  split <;> split <;> simp <;> omega

variable {expected range : Nat}

/-- **The outward search**, once it is known that no occurrence is nearer than `d`. -/
theorem seek_eq (hlast : text.length = last + pattern.length) (hword : text.length < wordLimit)
    (steps d : Nat) (hsteps : d + steps = range + 1)
    (hnone : ∀ q, occursAt text pattern q = true → d ≤ distance q expected) :
    seek text pattern last expected steps d
      = .ok (nearestOccurrence text pattern expected range) := by
  induction steps generalizing d with
  | zero =>
      rw [seek, Eq.comm, Except.ok.injEq, nearestOccurrence_eq_none_iff]
      intro q hq
      have := hnone q hq
      omega
  | succ steps ih =>
      -- a position that is `d` away and holds the pattern is the one to find
      have hfound : ∀ p, occursAt text pattern p = true → distance p expected = d →
          (∀ q, occursAt text pattern q = true → distance q expected = d → p ≤ q) →
          nearestOccurrence text pattern expected range = some p := by
        intro p hp hd hfirst
        refine nearestOccurrence_eq_some_iff.mpr ⟨hp, by omega, fun q hq => ?_⟩
        rcases Nat.lt_or_eq_of_le (hnone q hq) with hlt | heq
        · exact Or.inl (by omega)
        · exact Or.inr ⟨by omega, hfirst q hq heq.symm⟩
      rw [seek]
      rw [readsAt_sub? hlast hword, ok_bind]
      split
      · next hbelow =>
        rw [Bool.and_eq_true, decide_eq_true_eq] at hbelow
        rw [hfound (expected - d) hbelow.2 (by simp only [distance]; omega)
          (fun q _ hq => by simp only [distance] at hq; omega), Word.sub?_of_le hbelow.1]
        rfl
      · next hbelow =>
        rw [Bool.and_eq_true, decide_eq_true_eq] at hbelow
        rw [readsAt_add?_or_none hlast hword, ok_bind]
        -- what is not below and `d` away can only be above
        have hup : ∀ q, occursAt text pattern q = true → distance q expected = d →
            q = expected + d := by
          intro q hq hd
          simp only [distance] at hd
          rcases Nat.lt_or_ge q expected with hlt | hge
          · obtain rfl : q = expected - d := by omega
            exact absurd ⟨by omega, hq⟩ hbelow
          · omega
        split
        · next habove =>
          rw [Bool.and_eq_true, decide_eq_true_eq] at habove
          have hle := le_of_occursAt habove.2
          rw [hfound (expected + d) habove.2 (by simp only [distance]; omega)
            (fun q hq hd => Nat.le_of_eq (hup q hq hd).symm), Word.add?_of_lt (by omega)]
          rfl
        · next habove =>
          have hfarther : ∀ q, occursAt text pattern q = true → d + 1 ≤ distance q expected := by
            intro q hq
            refine Nat.lt_of_le_of_ne (hnone q hq) fun hd => ?_
            obtain rfl := hup q hq hd.symm
            rcases Nat.eq_zero_or_pos d with rfl | hpos
            · exact hbelow ⟨Nat.zero_le _, hq⟩
            · exact habove (by rw [hq, decide_eq_true hpos]; rfl)
          split
          · next hexhausted =>
            rw [all_exhausted_iff (by omega)] at hexhausted
            show Except.ok _ = _
            rw [Except.ok.injEq, Eq.comm, nearestOccurrence_eq_none_iff]
            intro q hq
            have hle := le_of_occursAt hq
            have hd := hfarther q hq
            simp only [distance] at hd
            omega
          · exact ih (d + 1) (by omega) hfarther

/-- **The outward search finds the nearest occurrence** and never reads outside the text. -/
theorem seekNearest_eq (hword : text.length < wordLimit) (pattern : Text) (expected range : Nat) :
    seekNearest text pattern expected range
      = .ok (nearestOccurrence text pattern expected range) := by
  rw [seekNearest]
  by_cases hle : pattern.length ≤ text.length
  · rw [Word.sub?_of_le hle]
    exact seek_eq (by omega) hword (range + 1) 0 (by omega) fun _ _ => Nat.zero_le _
  · have hnone : nearestOccurrence text pattern expected range = none := by
      rw [nearestOccurrence_eq_none_iff]
      intro q hq
      have := le_of_occursAt hq
      omega
    rw [Word.sub?, if_neg hle, hnone]

/-- **The outward search is exact**, wherever the expected position lies and however far the search
goes. It takes a position if and only if the pattern stands there within the range, stands nowhere
nearer, and nowhere as near at a smaller position. It takes none, and so may end early, only if the
pattern stands nowhere within the range. -/
theorem seekNearest_exact (hword : text.length < wordLimit) (pattern : Text)
    (expected range : Nat) :
    ∃ found, seekNearest text pattern expected range = .ok found ∧
      nearestOccurrence text pattern expected range = found ∧
      (∀ p, found = some p ↔
        occursAt text pattern p = true ∧ distance p expected ≤ range ∧
          (∀ q, occursAt text pattern q = true → ¬distance q expected < distance p expected) ∧
          ∀ q, occursAt text pattern q = true → distance q expected = distance p expected →
            p ≤ q) ∧
      (found = none ↔
        ∀ q, occursAt text pattern q = true → ¬distance q expected ≤ range) := by
  refine ⟨_, seekNearest_eq hword pattern expected range, rfl, fun p => ?_, ?_⟩
  · rw [nearestOccurrence_eq_some_iff]
    constructor
    · rintro ⟨hp, hrange, hmin⟩
      refine ⟨hp, hrange, fun q hq => ?_, fun q hq heq => ?_⟩
      · have := hmin q hq
        omega
      · have := hmin q hq
        omega
    · rintro ⟨hp, hrange, hnearest, hfirst⟩
      refine ⟨hp, hrange, fun q hq => ?_⟩
      rcases Nat.lt_or_eq_of_le (Nat.le_of_not_lt (hnearest q hq)) with hlt | heq
      · exact Or.inl hlt
      · exact Or.inr ⟨heq, hfirst q hq heq.symm⟩
  · simp only [nearestOccurrence_eq_none_iff, Nat.not_le]

/-- A pattern that stands at two positions, looked for from the largest word, where the upper side
overflows at once, and from the middle between the two. -/
theorem seekNearest_exact_twice :
    let text := "ab..ab".toList
    let pattern := "ab".toList
    let last := wordLimit - 1
    text.length < wordLimit ∧
      seekNearest text pattern last (last - 4) = .ok (some 4) ∧
      seekNearest text pattern last (last - 5) = .ok none ∧
      seekNearest text pattern 2 last = .ok (some 0) ∧
      seekNearest text pattern 2 1 = .ok none := by
  intro text pattern last
  have hword : text.length < wordLimit := by decide
  have hlast : last = 18446744073709551615 := by decide
  have hstands : ∀ q, occursAt text pattern q = true ↔ q = 0 ∨ q = 4 := by
    intro q
    have hall : occurrences text pattern = [0, 4] := by decide
    rw [← mem_occurrences, hall]
    simp
  refine ⟨hword, ?_, ?_, ?_, ?_⟩
  · obtain ⟨found, hfound, -, hsome, -⟩ := seekNearest_exact hword pattern last (last - 4)
    rw [hfound, (hsome 4).mpr]
    simp [hstands, distance, hlast]
  · obtain ⟨found, hfound, -, -, hnone⟩ := seekNearest_exact hword pattern last (last - 5)
    rw [hfound, hnone.mpr]
    simp [hstands, distance, hlast]
  · obtain ⟨found, hfound, -, hsome, -⟩ := seekNearest_exact hword pattern 2 last
    rw [hfound, (hsome 0).mpr]
    simp [hstands, distance, hlast]
  · obtain ⟨found, hfound, -, -, hnone⟩ := seekNearest_exact hword pattern 2 1
    rw [hfound, hnone.mpr]
    simp [hstands, distance]

/-! ## Searching from the left -/

/-- A search from the left has found the first occurrence from `start` on, or there is none. -/
inductive FirstFrom (text pattern : Text) (start : Nat) : Option Nat → Prop where
  | found {p : Nat} : start ≤ p → occursAt text pattern p = true →
      (∀ q, start ≤ q → occursAt text pattern q = true → p ≤ q) →
      FirstFrom text pattern start (some p)
  | none : (∀ q, start ≤ q → occursAt text pattern q = false) → FirstFrom text pattern start none

/-- A position without the pattern may be passed over. -/
theorem FirstFrom.of_succ {start : Nat} {found : Option Nat}
    (hstart : occursAt text pattern start = false)
    (h : FirstFrom text pattern (start + 1) found) : FirstFrom text pattern start found := by
  have hnext : ∀ q, start ≤ q → occursAt text pattern q = true → start + 1 ≤ q := by
    intro q hq hocc
    refine Nat.lt_of_le_of_ne hq ?_
    rintro rfl
    rw [hstart] at hocc
    cases hocc
  cases h with
  | found hle hocc hfirst =>
      exact .found (by omega) hocc fun q hq hqocc => hfirst q (hnext q hq hqocc) hqocc
  | none hnone =>
      refine .none fun q hq => ?_
      cases hqocc : occursAt text pattern q with
      | false => rfl
      | true => exact hqocc.symm.trans (hnone q (hnext q hq hqocc))

theorem seekRight_first (hlast : text.length = last + pattern.length)
    (hword : text.length < wordLimit) (steps start : Nat) (hsteps : last + 1 - start = steps) :
    ∃ found, seekRight text pattern last steps start = .ok found ∧
      FirstFrom text pattern start found := by
  induction steps generalizing start with
  | zero => exact ⟨none, rfl, .none fun q hq => occursAt_eq_false (by omega)⟩
  | succ steps ih =>
      rw [seekRight, readsAt_eq hlast hword, ok_bind]
      split
      · next hocc => exact ⟨start, rfl, .found (Nat.le_refl start) hocc fun q hq _ => hq⟩
      · next hocc =>
        obtain ⟨found, hfound, hfirst⟩ := ih (start + 1) (by omega)
        exact ⟨found, hfound, hfirst.of_succ (by simpa using hocc)⟩

theorem seekFirst_first (hword : text.length < wordLimit) (pattern : Text) (start : Nat) :
    ∃ found, seekFirst text pattern start = .ok found ∧ FirstFrom text pattern start found := by
  rw [seekFirst]
  by_cases hle : pattern.length ≤ text.length
  · rw [Word.sub?_of_le hle]
    exact seekRight_first (by omega) hword _ start rfl
  · rw [Word.sub?, if_neg hle]
    exact ⟨none, rfl, .none fun q _ => occursAt_eq_false (by omega)⟩

theorem length_occurrences_le_one_iff :
    (occurrences text pattern).length ≤ 1 ↔
      ∀ p q, occursAt text pattern p = true → occursAt text pattern q = true → p = q := by
  have hsorted := occurrences_sorted text pattern
  simp only [← mem_occurrences]
  match occurrences text pattern, hsorted with
  | [], _ => simp
  | [p], _ => simp
  | p :: q :: rest, hsorted =>
      have hlt : p < q := List.rel_of_pairwise_cons hsorted List.mem_cons_self
      constructor
      · intro hlength
        simp at hlength
      · intro hsame
        exact absurd (hsame p q (by simp) (by simp)) (by omega)

/-- **Two searches tell whether a pattern stands in a text once**, without a look outside it. -/
theorem standsOnce_eq (hword : text.length < wordLimit) (pattern : Text) :
    standsOnce text pattern = .ok (if pattern.isEmpty then text.isEmpty
      else (occurrences text pattern).length ≤ 1) := by
  rw [standsOnce]
  split
  · rfl
  · next hne =>
    obtain ⟨found, hfound, hfirst⟩ := seekFirst_first hword pattern 0
    rw [hfound, ok_bind]
    show _ = Except.ok (decide _)
    cases hfirst with
    | none hnone =>
        refine congrArg Except.ok (decide_eq_true (length_occurrences_le_one_iff.mpr ?_)).symm
        intro p q hp
        rw [hnone p (Nat.zero_le p)] at hp
        cases hp
    | @found first _ hocc hle =>
        have hend := le_of_occursAt hocc
        have hlength : 0 < pattern.length := List.length_pos_iff.mpr (by simpa using hne)
        obtain ⟨second, hsecond, hnext⟩ := seekFirst_first hword pattern (first + 1)
        simp only [Word.add_of_lt (show first + 1 < wordLimit by omega), ok_bind, hsecond]
        refine congrArg Except.ok ?_
        rw [Bool.eq_iff_iff, decide_eq_true_eq, length_occurrences_le_one_iff]
        cases hnext with
        | none hnone =>
            -- all occurrences are at the first one
            have hsame : ∀ p, occursAt text pattern p = true → p = first := by
              intro p hp
              rcases Nat.lt_or_eq_of_le (hle p (Nat.zero_le p) hp) with hlt | heq
              · rw [hnone p hlt] at hp
                cases hp
              · exact heq.symm
            exact ⟨fun _ p q hp hq => (hsame p hp).trans (hsame q hq).symm, fun _ => rfl⟩
        | found hlt hocc' _ =>
            constructor
            · intro h
              cases h
            · intro hsame
              have := hsame first _ hocc hocc'
              omega

end Text

end TextHistory
