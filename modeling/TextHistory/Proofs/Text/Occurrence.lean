import TextHistory.Patch.Apply

/-!
# Occurrences of a pattern

A pattern occurs at a position when the text can be cut into a beginning of that length, the
pattern, and the rest (`occursAt_iff`). The occurrence that a search takes is the nearest one
within its range, and of two that are equally near the earlier one
(`nearestOccurrence_eq_some_iff`). A pattern that stands where it is expected is therefore found
there, whatever the range (`nearestOccurrence_of_occursAt`).
-/

set_option autoImplicit false

namespace TextHistory.Text

/-! ## Where a pattern occurs -/

theorem occursAt_iff {text pattern : Text} {p : Nat} :
    occursAt text pattern p = true ↔
      ∃ pre post, text = pre ++ pattern ++ post ∧ pre.length = p := by
  rw [occursAt, Bool.and_eq_true, decide_eq_true_eq, List.isPrefixOf_iff_prefix]
  constructor
  · rintro ⟨hp, post, hpost⟩
    refine ⟨text.take p, post, ?_, by rw [List.length_take]; omega⟩
    rw [List.append_assoc, hpost, List.take_append_drop]
  · rintro ⟨pre, post, rfl, rfl⟩
    refine ⟨by simp only [List.length_append]; omega, post, ?_⟩
    rw [List.append_assoc, List.drop_left]

/-- What stands in a pattern behind a beginning stands as much farther on as the beginning is
long. -/
theorem occursAt_inner {text lead pattern trail : Text} {p : Nat}
    (h : occursAt text (lead ++ pattern ++ trail) p = true) :
    occursAt text pattern (p + lead.length) = true := by
  obtain ⟨pre, post, htext, rfl⟩ := occursAt_iff.mp h
  exact occursAt_iff.mpr ⟨pre ++ lead, trail ++ post, by simp [htext], List.length_append⟩

theorem mem_occurrences {text pattern : Text} {p : Nat} :
    p ∈ occurrences text pattern ↔ occursAt text pattern p = true := by
  rw [occurrences, List.mem_filter, List.mem_range]
  constructor
  · exact fun h => h.2
  · intro h
    refine ⟨?_, h⟩
    obtain ⟨pre, post, rfl, rfl⟩ := occursAt_iff.mp h
    simp only [List.length_append]
    omega

theorem occurrences_sorted (text pattern : Text) :
    (occurrences text pattern).Pairwise (· < ·) :=
  List.Pairwise.filter _ List.pairwise_lt_range

/-! ## The closest of some positions -/

@[simp] theorem distance_self (p : Nat) : distance p p = 0 := by
  simp [distance]

theorem eq_of_distance_eq_zero {p q : Nat} (h : distance p q = 0) : p = q := by
  simp only [distance] at h
  omega

theorem closest_eq_none_iff {expected : Nat} {ps : List Nat} :
    closest expected ps = none ↔ ps = [] := by
  cases ps with
  | nil => simp [closest]
  | cons p rest =>
      rw [closest]
      split
      · simp
      · split <;> simp

/-- What is found among ascending positions: one of them, no farther than any other, and the
smallest of those that are as near. -/
theorem closest_eq_some_iff {expected : Nat} {ps : List Nat} (hs : ps.Pairwise (· < ·)) {p : Nat} :
    closest expected ps = some p ↔
      p ∈ ps ∧ ∀ q ∈ ps, distance p expected < distance q expected ∨
        (distance p expected = distance q expected ∧ p ≤ q) := by
  induction ps generalizing p with
  | nil => simp [closest]
  | cons a rest ih =>
      obtain ⟨ha, hrest⟩ := List.pairwise_cons.mp hs
      cases hc : closest expected rest with
      | none =>
          obtain rfl := closest_eq_none_iff.mp hc
          simp only [closest, Option.some.injEq, List.mem_singleton, forall_eq]
          constructor
          · rintro rfl
            exact ⟨rfl, Or.inr ⟨rfl, Nat.le_refl _⟩⟩
          · exact fun h => h.1.symm
      | some b =>
          obtain ⟨hb, hmin⟩ := (ih hrest).mp hc
          have hab : a < b := ha b hb
          simp only [closest, hc]
          split
          · -- one of the rest is nearer than the first position
            next hlt =>
            simp only [Option.some.injEq]
            constructor
            · rintro rfl
              refine ⟨List.mem_cons_of_mem _ hb, fun q hq => ?_⟩
              rcases List.mem_cons.mp hq with rfl | hq
              · exact Or.inl hlt
              · exact hmin q hq
            · rintro ⟨hp, hle⟩
              rcases List.mem_cons.mp hp with rfl | hp
              · have := hle b (List.mem_cons_of_mem _ hb)
                omega
              · have h1 := hle b (List.mem_cons_of_mem _ hb)
                have h2 := hmin p hp
                omega
          · -- none of the rest is, so the first position stands, which is the smallest
            next hge =>
            simp only [Option.some.injEq]
            constructor
            · rintro rfl
              refine ⟨List.mem_cons_self, fun q hq => ?_⟩
              rcases List.mem_cons.mp hq with rfl | hq
              · exact Or.inr ⟨rfl, Nat.le_refl _⟩
              · have h1 := hmin q hq
                have h2 := ha q hq
                omega
            · rintro ⟨hp, hle⟩
              have h1 := hle a List.mem_cons_self
              rcases List.mem_cons.mp hp with rfl | hp
              · rfl
              · have h2 := hmin p hp
                have h3 := ha p hp
                omega

/-! ## The nearest occurrence -/

/-- **What a search takes**: an occurrence within the range, with none nearer and none as near
before it. -/
theorem nearestOccurrence_eq_some_iff {text pattern : Text} {expected range p : Nat} :
    nearestOccurrence text pattern expected range = some p ↔
      occursAt text pattern p = true ∧ distance p expected ≤ range ∧
        ∀ q, occursAt text pattern q = true →
          distance p expected < distance q expected ∨
            (distance p expected = distance q expected ∧ p ≤ q) := by
  have hs := List.Pairwise.filter (fun p => decide (distance p expected ≤ range))
    (occurrences_sorted text pattern)
  rw [nearestOccurrence, closest_eq_some_iff hs]
  simp only [List.mem_filter, mem_occurrences, decide_eq_true_eq]
  constructor
  · rintro ⟨⟨hp, hr⟩, hmin⟩
    refine ⟨hp, hr, fun q hq => ?_⟩
    by_cases hqr : distance q expected ≤ range
    · exact hmin q ⟨hq, hqr⟩
    · exact Or.inl (by omega)
  · rintro ⟨hp, hr, hmin⟩
    exact ⟨⟨hp, hr⟩, fun q hq => hmin q hq.1⟩

theorem nearestOccurrence_eq_none_iff {text pattern : Text} {expected range : Nat} :
    nearestOccurrence text pattern expected range = none ↔
      ∀ q, occursAt text pattern q = true → range < distance q expected := by
  rw [nearestOccurrence, closest_eq_none_iff, List.filter_eq_nil_iff]
  simp only [mem_occurrences, decide_eq_true_eq, Nat.not_le]

/-- What is found is found as well by a search that goes farther. -/
theorem nearestOccurrence_of_le {text pattern : Text} {expected range range' p : Nat}
    (hr : range ≤ range') (h : nearestOccurrence text pattern expected range = some p) :
    nearestOccurrence text pattern expected range' = some p := by
  obtain ⟨hp, hle, hmin⟩ := nearestOccurrence_eq_some_iff.mp h
  exact nearestOccurrence_eq_some_iff.mpr ⟨hp, Nat.le_trans hle hr, hmin⟩

/-- A pattern that stands where it is expected is found there. -/
theorem nearestOccurrence_of_occursAt {text pattern : Text} {p : Nat} (range : Nat)
    (h : occursAt text pattern p = true) :
    nearestOccurrence text pattern p range = some p := by
  rw [nearestOccurrence_eq_some_iff]
  refine ⟨h, by simp, fun q _ => ?_⟩
  rw [distance_self]
  rcases Nat.eq_zero_or_pos (distance q p) with h0 | hpos
  · exact Or.inr ⟨h0.symm, (eq_of_distance_eq_zero h0) ▸ Nat.le_refl _⟩
  · exact Or.inl hpos

/-! ## Replacing a stretch -/

theorem splice_append (pre old post new : Text) :
    splice (pre ++ old ++ post) pre.length old.length new = pre ++ new ++ post := by
  rw [splice, ← List.length_append, List.drop_left, List.append_assoc pre old, List.take_left]

end TextHistory.Text
