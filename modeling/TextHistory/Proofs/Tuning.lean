import TextHistory.Proofs.Edit.Soundness
import TextHistory.Proofs.Patch.Gathering

/-!
# Patches between two texts

With any settings, the patch between two texts that are not too long exists, fits the old text,
leads to the new one and can be written down (`Tuning.patch?_spec`). It has no hunks exactly when
the texts are the same: then the script is one kept run, in which there is nothing to absorb.

A patch that fits is applied alike whatever the settings, so the settings a patch is made with and
those it is applied with need not agree (`Tuning.applyStrict_parse_print`). Nor does it matter how
far the search for shared tokens comes in its time (`Tuning.search`): one that is cut short makes a
longer patch to the same text.
-/

set_option autoImplicit false

namespace TextHistory

/-! ## Scripts without edits -/

namespace Scan

/-- A scan passes over the equalities of a script without edits. -/
theorem run_of_all_equal (s : Scan) (h : s.edits.all (·.kind == .equal) = true) :
    s.run.edits = s.edits ∧ s.run.changed = s.changed := by
  fun_induction run s with
  | case1 s hstep => exact ⟨rfl, rfl⟩
  | case2 s s' hstep ih =>
      unfold step at hstep
      split at hstep
      · cases hstep
      · cases hstep
        exact ih h
      · next e hne hget =>
        -- a run that is no equality cannot be met
        have he : e.kind = .equal := by
          simpa using List.all_eq_true.mp h e (List.mem_of_getElem? hget)
        obtain ⟨kind, t⟩ := e
        exact absurd (he ▸ rfl) (hne t)

end Scan

namespace Script

theorem absorb_of_all_equal {s : Script} (h : s.all (·.kind == .equal) = true) :
    absorb s = s := by
  obtain ⟨hedits, hchanged⟩ := Scan.run_of_all_equal { edits := s } h
  simp only [absorb, hedits, hchanged]
  rfl

theorem betweenBy_self (search : Aligner) (t : Text) :
    (betweenBy search t t).all (·.kind == .equal) = true := by
  rw [betweenBy, if_pos rfl]
  cases t with
  | nil => rfl
  | cons c t => rfl

end Script

namespace Tuning

theorem script_self (o : Tuning) (t : Text) : (o.script t t).all (·.kind == .equal) = true := by
  have h := Script.betweenBy_self (o.search o.diffTimeout) t
  unfold script
  split
  · rw [Script.absorb_of_all_equal h]
    exact h
  · exact h

/-! ## The patch between two texts -/

/-- Why there is always a patch, and what it is like. -/
theorem patch?_spec {o : Tuning} {old new : Text} (hm : o.patchMargin < sizeLimit)
    (hold : old.length < sizeLimit) (hnew : new.length < sizeLimit) :
    ∃ p, o.patch? old new = some p ∧ p.Fits old new ∧ (∀ h ∈ p, h.WellFormed) ∧
      (p = [] ↔ old = new) := by
  have hspells := o.script_spells old new
  have hsize : (o.script old new).source.length + (o.script old new).target.length
      ≤ maxPosition := by
    rw [sizeLimit_eq] at hold hnew
    rw [hspells.source, hspells.target, maxPosition_eq]
    omega
  obtain ⟨p, hp, hfits, hsound⟩ := Patch.make?_fits (o.script old new) hm hsize
  rw [hspells.source] at hp
  rw [hspells.source, hspells.target] at hfits
  refine ⟨p, hp, hfits, hsound, ?_, ?_⟩
  · rintro rfl
    cases hfits
    rfl
  · rintro rfl
    rw [Patch.make?_eq_nil _ (o.script_self old)] at hp
    exact (Option.some.inj hp).symm

/-- A patch that fits does what it should, applied with any settings. -/
theorem applyStrict_of_fits (o : Tuning) {p : Patch} {old new : Text} (hf : p.Fits old new)
    (hw : ∀ h ∈ p, h.WellFormed) : o.applyStrict p old = .ok new :=
  Patch.applyStrict_of_fits o.reach hf fun h hh => (hw h hh).newStart_le

/-- **The round trip of a delta through its text form.** Whatever settings a patch is made with,
its text form reads back to it, and applied with whatever settings it makes the new text of the
old one. It is empty only between equal texts. -/
theorem applyStrict_parse_print (a b : Tuning) (old new : Text) (hm : a.patchMargin < sizeLimit)
    (hold : old.length < sizeLimit) (hnew : new.length < sizeLimit) :
    ∃ p, a.patch? old new = some p ∧ Patch.parse p.print = .ok p ∧
      b.applyStrict p old = .ok new ∧ (p = [] ↔ old = new) := by
  obtain ⟨p, hp, hfits, hsound, hempty⟩ := patch?_spec hm hold hnew
  exact ⟨p, hp, Patch.parse_print hsound, b.applyStrict_of_fits hfits hsound, hempty⟩

/-- Two settings that have nothing in common, and a text with repeats and escapes. -/
theorem applyStrict_parse_print_repeats :
    (0 < sizeLimit ∧ "aa%\naa".toList.length < sizeLimit ∧ "aaa%\n".toList.length < sizeLimit) ∧
      ∃ p, Tuning.patch? { semanticCleanup := false, patchMargin := 0 } "aa%\naa".toList
          "aaa%\n".toList = some p ∧
        Patch.parse p.print = .ok p ∧
        Tuning.applyStrict { patchMargin := 9, matchDistance := 0 } p "aa%\naa".toList
          = .ok "aaa%\n".toList ∧
        (p = [] ↔ "aa%\naa".toList = "aaa%\n".toList) :=
  ⟨by decide, applyStrict_parse_print { semanticCleanup := false, patchMargin := 0 }
    { patchMargin := 9, matchDistance := 0 } _ _ (by decide) (by decide) (by decide)⟩

end Tuning

end TextHistory
