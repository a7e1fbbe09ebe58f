import TextHistory.Proofs.Patch.Layout

/-!
# Patches for texts that have drifted

A text has drifted when something stands before it that a patch knows nothing of. Only the first
hunk then has to be searched for. It is found in its new place, unless what it looks for also
stands nearer to the old one (`Text.nearestOccurrence_of_drift`). From there on the drift is known,
and the other hunks stand exactly where they are expected (`Patch.Fits.stands_between`). So the
whole patch is applied as if nothing had been put around the text (`Patch.make?_drifted`).
-/

set_option autoImplicit false

namespace TextHistory

/-- A pattern that has moved on by `d` is found, if it stands nowhere nearer to the place where it
was: not at the positions less than `d` from it, nor at the one `d` before it. -/
theorem Text.nearestOccurrence_of_drift {text pattern : Text} {expected d range : Nat}
    (h : occursAt text pattern (expected + d) = true) (hrange : d ≤ range)
    (hnone : ∀ q, expected ≤ q + d → q < expected + d → occursAt text pattern q = false) :
    nearestOccurrence text pattern expected range = some (expected + d) := by
  have hdistance : distance (expected + d) expected = d := by
    simp only [distance]
    omega
  refine nearestOccurrence_eq_some_iff.mpr ⟨h, hdistance.symm ▸ hrange, fun q hq => ?_⟩
  rw [hdistance]
  have hout : ¬(expected ≤ q + d ∧ q < expected + d) := by
    rintro ⟨hlow, hhigh⟩
    rw [hnone q hlow hhigh] at hq
    cases hq
  simp only [distance]
  omega

namespace Patch

/-- Hunks that fit a text stand in a longer one around it, even if the drift is not known yet, when
what the first one looks for stands nowhere nearer to its old place. -/
theorem Fits.stands_drifted {h : Hunk} {p : Patch} {old new : Text} (hf : Fits (h :: p) old new)
    {range : Nat} (pre post : Text) (hs : ∀ g ∈ h :: p, g.newStart + pre.length ≤ maxPosition)
    (hrange : pre.length ≤ range)
    (hnone : ∀ q, h.newStart ≤ q + pre.length → q < h.newStart + pre.length →
      Text.occursAt (pre ++ old ++ post) h.edits.source q = false) :
    Stands range ⟨pre ++ old ++ post, 0⟩ (h :: p) ⟨pre ++ new ++ post, pre.length⟩ := by
  cases hf with
  | cons hh hp =>
      have hbound := hs h List.mem_cons_self
      refine .cons (Hunk.moved?_zero (by omega))
        (Text.nearestOccurrence_of_drift (hh.occursAt pre post) hrange hnone) ?_
      -- from here on the drift is what comes before the text
      have hdrift : ((h.newStart + pre.length : Nat) : Int) - h.newStart = pre.length := by omega
      rw [hdrift, hh.splice pre post]
      exact hp.stands_between range pre post fun g hg => hs g (List.mem_cons_of_mem _ hg)

/-- **Drift found once carries to every later hunk.** Let a patch be made for a script, and other
texts be put before and after the source of the script. If the search goes as far as the first text
is long, and what the first hunk looks for stands nowhere nearer to the place in its heading, nor as
near before that place, then every hunk is applied, and the target of the script comes to stand
between the two texts. -/
theorem make?_drifted (s : Script) {margin : Nat} (pre post : Text) (o : Reach)
    (hm : margin < sizeLimit) (hsource : s.source.length < sizeLimit)
    (htarget : s.target.length < sizeLimit) (hpre : pre.length < sizeLimit)
    (hrange : pre.length ≤ o.range) :
    ∃ p, make? s.source s margin = some p ∧
      ∀ first rest, p = first :: rest →
        (∀ q, first.newStart ≤ q + pre.length → q < first.newStart + pre.length →
          Text.occursAt (pre ++ s.source ++ post) first.core.pattern q = false) →
        p.apply (pre ++ s.source ++ post) o
          = (pre ++ s.target ++ post, p.map fun _ => true) := by
  rw [sizeLimit_eq] at hsource htarget hpre
  have hsize : s.source.length + s.target.length ≤ maxPosition := by
    rw [maxPosition_eq]
    omega
  obtain ⟨p, hp, hfits, -⟩ := make?_fits s hm hsize
  refine ⟨p, hp, ?_⟩
  rintro first rest rfl hnone
  have hstarts : ∀ g ∈ first :: rest, g.newStart + pre.length ≤ maxPosition := by
    intro g hg
    have hle := (cuts_of_make? hp).newStart_le g hg
    rw [maxPosition_eq]
    omega
  rw [Hunk.pattern_core] at hnone
  exact apply_of_stands (hfits.stands_drifted pre post hstarts hrange hnone) (Nat.le_refl _)

/-- Three hunks in a text full of repeats: what the second one looks for also stands in the text
before, at the very place in its heading. -/
theorem make?_drifted_repeats :
    let s : Script :=
      [⟨.delete, ['q']⟩, ⟨.equal, "abcab".toList⟩, ⟨.insert, ['Z']⟩, ⟨.equal, "cab".toList⟩,
        ⟨.insert, ['!']⟩]
    let first : Hunk := ⟨[⟨.delete, ['q']⟩, ⟨.equal, ['a']⟩], 0, 2, 0, 1⟩
    let second : Hunk :=
      ⟨[⟨.equal, "bcab".toList⟩, ⟨.insert, ['Z']⟩, ⟨.equal, "cab".toList⟩], 1, 7, 1, 8⟩
    let third : Hunk := ⟨[⟨.equal, "bZcab".toList⟩, ⟨.insert, ['!']⟩], 4, 5, 4, 6⟩
    let pre := "abcabcab,".toList
    let text := pre ++ s.source ++ "abcab".toList
    (1 < sizeLimit ∧ s.source.length < sizeLimit ∧ s.target.length < sizeLimit ∧
        pre.length < sizeLimit) ∧
      make? s.source s 1 = some [first, second, third] ∧
      Text.occursAt text second.core.pattern second.newStart = true ∧
      (∀ q < pre.length, Text.occursAt text first.core.pattern q = false) ∧
      apply [first, second, third] text ⟨0, pre.length⟩
        = ("abcabcab,abcabZcab!abcab".toList, [true, true, true]) := by
  intro s first second third pre text
  have hmade : make? s.source s 1 = some [first, second, third] := by decide
  have hnone : ∀ q < pre.length, Text.occursAt text first.core.pattern q = false := by decide
  obtain ⟨p, hp, happly⟩ := make?_drifted s pre "abcab".toList ⟨0, pre.length⟩
    (show 1 < sizeLimit by decide) (by decide) (by decide) (by decide) (Nat.le_refl _)
  obtain rfl : p = [first, second, third] := Option.some.inj (hp.symm.trans hmade)
  refine ⟨by decide, hmade, by decide, hnone, happly first [second, third] rfl fun q _ hq => ?_⟩
  exact hnone q (by simpa [first] using hq)

end Patch

end TextHistory
