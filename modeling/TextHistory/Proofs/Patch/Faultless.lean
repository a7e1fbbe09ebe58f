import TextHistory.Patch.Checked
import TextHistory.Proofs.Patch.Codec
import TextHistory.Proofs.Patch.Locality
import TextHistory.Proofs.Text.Checked

/-!
# Applications without faults

A patch that was read from a text can be applied to any text, wherever its hunks say that they
belong, however far they are looked for and whatever the margin is, with one kind of fault at most
(`Patch.apply_faultless_iff`). No sum and no conversion of words fails, and no stretch is taken that
lies outside a text. The fault is a drift that loses its value: the one left by a rejected hunk
stays at the least signed word when it would become smaller (`Progress.Saturates`). This takes
searches over a quarter of all words or more, but it does happen (`Patch.apply_saturates`). The
hunks after it are applied without a fault again, from the drift as it is then.

Three bounds go along with the hunks (`Progress.Within`): the text has grown by no more than the
hunks hold, the drift is no larger than that, and it is a signed word.
-/

set_option autoImplicit false

namespace TextHistory

open Outcome

/-! ## Where a form is expected -/

theorem moved?_eq_some_iff {position p : Nat} {drift : Int} :
    moved? position drift = some p ↔
      position ≤ maxPosition ∧ position + drift ≤ maxPosition ∧ p = (position + drift).toNat := by
  simp only [moved?]
  split
  · next h =>
    rw [Option.some.injEq]
    exact ⟨fun hp => ⟨h.1, h.2, hp.symm⟩, fun hp => hp.2.2.symm⟩
  · next h =>
    constructor
    · intro hp
      cases hp
    · rintro ⟨h₁, h₂, -⟩
      exact absurd ⟨h₁, h₂⟩ h

theorem isSignedWord_iff {n : Int} :
    Numeral.isSignedWord n = true ↔ -(maxPosition : Int) - 1 ≤ n ∧ n ≤ maxPosition := by
  have hpow : Nat.pow 2 63 = maxPosition + 1 := rfl
  rw [Numeral.isSignedWord, Bool.and_eq_true, decide_eq_true_eq, decide_eq_true_eq, hpow]
  omega

/-- A place is moved without a fault by any signed word. -/
theorem shifted_eq {drift : Int} (hdrift : -(maxPosition : Int) - 1 ≤ drift) (position : Nat) :
    shifted position drift = .ok (moved? position drift) := by
  by_cases hposition : position ≤ maxPosition
  · rw [shifted, Word.signed?_of_le hposition]
    by_cases hsum : position + drift ≤ maxPosition
    · have hword : Numeral.isSignedWord (position + drift) = true :=
        isSignedWord_iff.mpr ⟨by omega, hsum⟩
      have hlimit : (maxPosition : Int) < wordLimit := by decide
      have hunsigned : Word.unsigned (max (position + drift) 0)
          = .ok (position + drift).toNat := by
        rw [Word.unsigned, if_pos ⟨by omega, by omega⟩]
        congr 1
        omega
      simp only [Word.signedAdd?, hword, if_true, hunsigned]
      rw [moved?_eq_some_iff.mpr ⟨hposition, hsum, rfl⟩]
      rfl
    · have hword : ¬Numeral.isSignedWord (position + drift) = true := by
        rw [isSignedWord_iff]
        omega
      simp only [Word.signedAdd?, if_neg hword]
      rw [moved?, if_neg (by omega)]
  · rw [shifted, Word.signed?, if_neg hposition, moved?, if_neg (by omega)]

/-! ## The forms of a hunk -/

namespace Core

/-- The core with so many characters of context kept before it and behind it. -/
def keeping (c : Core) (keptLead keptTrail : Nat) : Core :=
  { c with lead := c.lead.drop (c.lead.length - keptLead), trail := c.trail.take keptTrail }

theorem trim_eq_keeping (c : Core) (kept : Nat) :
    c.trim kept = c.keeping (min c.lead.length kept) (min c.trail.length kept) := by
  have hlead : c.lead.length - min c.lead.length kept = c.lead.length - kept := by omega
  have htrail : c.trail.take kept = c.trail.take (min c.trail.length kept) := by
    rw [Nat.min_comm, ← List.take_take, List.take_length]
  rw [trim, keeping, hlead, ← htrail]

theorem length_lead_keeping {c : Core} {keptLead : Nat} (h : keptLead ≤ c.lead.length)
    (keptTrail : Nat) :
    c.lead.length - (c.keeping keptLead keptTrail).lead.length = c.lead.length - keptLead := by
  simp only [keeping, List.length_drop]
  omega

/-- With more context kept than there is, nothing is lost. -/
theorem trim_of_le {c : Core} {kept : Nat} (hlead : c.lead.length ≤ kept)
    (htrail : c.trail.length ≤ kept) : c.trim kept = c := by
  rw [trim, Nat.sub_eq_zero_of_le hlead, List.drop_zero, List.take_of_length_le htrail]

/-- The forms tried in words are the forms of the hunk. -/
theorem map_trim_fuzz {c : Core} (hlead : c.lead.length < wordLimit)
    (htrail : c.trail.length < wordLimit) (margin : Nat) :
    (Hunk.fuzz c margin).map c.trim = c.levels margin := by
  have hwhole : c.trim (wordLimit - 1) = c :=
    trim_of_le (Nat.le_sub_one_of_lt hlead) (Nat.le_sub_one_of_lt htrail)
  rw [Hunk.fuzz, levels]
  split
  · rw [List.map_cons, List.map_nil, hwhole]
  · simp only [List.map_cons, List.map_nil, hwhole]

end Core

namespace Progress

/-- The text with a form of a hunk placed, and how far off it was found. -/
def placed (text : Text) (c : Core) (found nominal : Nat) : Progress :=
  ⟨Text.splice text found c.pattern.length c.replacement, (found : Int) - nominal⟩

end Progress

namespace Hunk

variable {text : Text} {h : Hunk} {drift : Int}

/-- **One form is placed without a fault.** -/
theorem placeForm_eq (htext : text.length ≤ maxPosition) (hdrift : -(maxPosition : Int) - 1 ≤ drift)
    (c : Core) (start behind range : Nat) :
    placeForm text c start behind drift range
      = .ok (((moved? (start + behind) drift).bind fun expected =>
          Text.nearestOccurrence text c.pattern expected range).map
            fun found => Progress.placed text c found (start + behind)) := by
  have hlimit : maxPosition < wordLimit := by decide
  rw [placeForm, Word.add?]
  generalize start + behind = nominal
  by_cases hnominal : nominal < wordLimit
  · rw [if_pos hnominal]
    dsimp only
    rw [shifted_eq hdrift, ok_bind]
    cases hmoved : moved? nominal drift with
    | none => rfl
    | some expected =>
        obtain ⟨hle, -, -⟩ := moved?_eq_some_iff.mp hmoved
        dsimp only
        rw [Text.seekNearest_eq (by omega), ok_bind, Option.bind_some]
        cases hfound : Text.nearestOccurrence text c.pattern expected range with
        | none => rfl
        | some found =>
            -- what is found lies inside the text
            have hend := Text.le_of_occursAt (Text.nearestOccurrence_eq_some_iff.mp hfound).1
            have hword : Numeral.isSignedWord ((found : Int) - nominal) = true :=
              isSignedWord_iff.mpr ⟨by omega, by omega⟩
            have hoff : Word.signedSub found nominal = .ok ((found : Int) - nominal) :=
              if_pos hword
            dsimp only
            rw [Word.add_of_lt (by omega), ok_bind, Text.replace_of_le hend, ok_bind,
              Word.signed_of_le (by omega), ok_bind, Word.signed_of_le hle, ok_bind, hoff]
            rfl
  · -- a place that is no word is none that could be moved
    rw [if_neg hnominal, moved?, if_neg (by omega)]
    rfl

/-- Looking for a form with so much context. -/
theorem locate?_keeping {keptLead : Nat} (hlead : keptLead ≤ h.core.lead.length)
    (keptTrail range : Nat) :
    (h.core.keeping keptLead keptTrail).locate? h.core text h.newStart drift range
      = ((moved? (h.newStart + (h.core.lead.length - keptLead)) drift).bind fun expected =>
          Text.nearestOccurrence text (h.core.keeping keptLead keptTrail).pattern expected
            range).map
          fun found => (found, h.newStart + (h.core.lead.length - keptLead)) := by
  rw [Core.locate?, Core.length_lead_keeping hlead]
  cases moved? _ drift with
  | none => rfl
  | some expected =>
      simp only [Option.bind_eq_bind, Option.bind_some]
      cases Text.nearestOccurrence text _ expected range <;> rfl

theorem tryForm_eq (htext : text.length ≤ maxPosition) (hdrift : -(maxPosition : Int) - 1 ≤ drift)
    (range : Nat) {keptLead keptTrail : Nat} (hlead : keptLead ≤ h.core.lead.length)
    (htrail : keptTrail ≤ h.core.trail.length) :
    tryForm text h drift range keptLead keptTrail
      = .ok (((h.core.keeping keptLead keptTrail).locate? h.core text h.newStart drift range).map
          fun p => Progress.placed text (h.core.keeping keptLead keptTrail) p.1 p.2) := by
  have hcutLead : Text.cut h.core.lead (h.core.lead.length - keptLead) h.core.lead.length
      = .ok (h.core.lead.drop (h.core.lead.length - keptLead)) := by
    rw [Text.cut_of_le (Nat.sub_le _ _) (Nat.le_refl _), Text.slice, List.take_length]
  have hcutTrail : Text.cut h.core.trail 0 keptTrail = .ok (h.core.trail.take keptTrail) := by
    rw [Text.cut_of_le (Nat.zero_le _) htrail, Text.slice, List.drop_zero]
  rw [locate?_keeping hlead, Option.map_map, tryForm]
  rw [Word.sub_of_le hlead, ok_bind, hcutLead, ok_bind, hcutTrail, ok_bind]
  exact placeForm_eq htext hdrift _ _ _ range

/-- Forms that keep as much context as one that was not found are not found either. -/
theorem tryForms_eq (htext : text.length ≤ maxPosition) (hdrift : -(maxPosition : Int) - 1 ≤ drift)
    (range : Nat) (kepts : List Nat) {previous : Option (Nat × Nat)}
    (hprevious : ∀ a b, previous = some (a, b) →
      (h.core.keeping a b).locate? h.core text h.newStart drift range = none) :
    tryForms text h drift range previous kepts
      = .ok ((kepts.map h.core.trim).findSome? fun c =>
          (c.locate? h.core text h.newStart drift range).map
            fun p => Progress.placed text c p.1 p.2) := by
  induction kepts generalizing previous with
  | nil => rfl
  | cons kept rest ih =>
      rw [tryForms, List.map_cons, List.findSome?_cons, Core.trim_eq_keeping]
      dsimp only
      split
      · next hsame => rw [hprevious _ _ hsame, ih hprevious, Option.map_none]
      · next hother =>
        rw [tryForm_eq htext hdrift range (Nat.min_le_left _ _) (Nat.min_le_left _ _), ok_bind]
        cases hform : (h.core.keeping (min h.core.lead.length kept)
            (min h.core.trail.length kept)).locate? h.core text h.newStart drift range with
        | some p => rfl
        | none =>
            refine ih fun a b hab => ?_
            obtain ⟨rfl, rfl⟩ := Prod.mk.inj (Option.some.inj hab)
            exact hform

end Hunk

/-! ## One hunk -/

namespace Hunk

/-- The context around the edits of a hunk is a part of its runs. -/
theorem length_context_le (h : Hunk) :
    h.core.lead.length ≤ h.edits.size ∧ h.core.trail.length ≤ h.edits.size := by
  have hpattern := congrArg List.length h.pattern_core
  simp only [Core.pattern, List.length_append] at hpattern
  have hsource := h.edits.length_source_le
  omega

/-- What a heading says of the lengths of a hunk is no more than the hunk holds. -/
theorem WellFormed.lengths_le {h : Hunk} (hw : h.WellFormed) :
    h.oldLength ≤ h.edits.size ∧ h.newLength ≤ h.edits.size :=
  ⟨hw.oldLength_eq ▸ h.edits.length_source_le, hw.newLength_eq ▸ h.edits.length_target_le⟩

end Hunk

namespace Progress

variable {s : Progress} {h : Hunk}

/-- The drift that a rejected hunk leaves is smaller than any signed word. -/
def Saturates (s : Progress) (o : Reach) (h : Hunk) : Prop :=
  h.place? s.text s.drift o = none ∧ s.drift - h.gain < -(maxPosition : Int) - 1

instance (s : Progress) (o : Reach) (h : Hunk) : Decidable (s.Saturates o h) :=
  inferInstanceAs (Decidable (_ ∧ _))

theorem apply_of_saturates {o : Reach} (hsat : s.Saturates o h) :
    s.apply o h = (⟨s.text, -(maxPosition : Int) - 1⟩, false) := by
  have hclamp : clampDrift (s.drift - h.gain) = -(maxPosition : Int) - 1 := by
    have hlow := hsat.2
    simp only [clampDrift]
    omega
  rw [apply_of_no_place hsat.1, hclamp]

/-- The drift that a rejected hunk leaves, if it is not too large. -/
theorem signedSubWithin_gain (hle : s.drift - h.gain ≤ maxPosition) :
    Word.signedSubWithin s.drift h.gain
      = if s.drift - h.gain < -(maxPosition : Int) - 1 then .error .saturated
        else .ok (clampDrift (s.drift - h.gain)) := by
  rw [Word.signedSubWithin]
  by_cases hlow : s.drift - h.gain < -(maxPosition : Int) - 1
  · have hword : ¬Numeral.isSignedWord (s.drift - h.gain) = true := by
      rw [isSignedWord_iff]
      omega
    rw [if_pos hlow, if_neg hword]
  · have hclamp : clampDrift (s.drift - h.gain) = s.drift - h.gain := by
      simp only [clampDrift]
      omega
    rw [if_neg hlow, if_pos (isSignedWord_iff.mpr ⟨by omega, hle⟩), hclamp]

/-- **One hunk is applied without a fault**, unless the drift that it leaves loses its value. -/
theorem applyChecked_eq (htext : s.text.length ≤ maxPosition)
    (hdrift : -(maxPosition : Int) - 1 ≤ s.drift) (hw : h.WellFormed)
    (hsize : h.edits.size ≤ maxPosition) (hgrown : s.drift + h.edits.size ≤ maxPosition)
    (o : Reach) :
    s.applyChecked o h = if s.Saturates o h then .error .saturated else .ok (s.apply o h) := by
  have hlimit : maxPosition < wordLimit := by decide
  obtain ⟨hlead, htrail⟩ := h.length_context_le
  obtain ⟨hold, hnew⟩ := hw.lengths_le
  have hforms : Hunk.tryForms s.text h s.drift o.range none (Hunk.fuzz h.core o.margin)
      = .ok ((h.place? s.text s.drift o).map fun p => placed s.text p.1 p.2.1 p.2.2) := by
    rw [Hunk.tryForms_eq htext hdrift _ _ (by simp),
      Core.map_trim_fuzz (by omega) (by omega), Hunk.place?, List.map_findSome?]
    simp only [Function.comp_def, Option.map_map]
  rw [applyChecked, hforms, ok_bind]
  cases hplace : h.place? s.text s.drift o with
  | some p =>
      have hsat : ¬s.Saturates o h := by
        rintro ⟨hnone, -⟩
        rw [hplace] at hnone
        cases hnone
      rw [if_neg hsat, apply_of_place hplace]
      rfl
  | none =>
      have hgain : h.gain = (h.newLength : Int) - h.oldLength := rfl
      have hword : Word.signedSub h.newLength h.oldLength = .ok h.gain :=
        if_pos (isSignedWord_iff.mpr ⟨by omega, by omega⟩)
      dsimp only [Option.map_none]
      rw [Word.signed_of_le (by omega), ok_bind, Word.signed_of_le (by omega), ok_bind, hword,
        ok_bind, signedSubWithin_gain (by omega), apply_of_no_place hplace]
      simp only [Saturates, hplace, true_and]
      split <;> rfl

/-! ## A run -/

/-- What the words of an application are bounded by: the text and the drift by `room`, a negative
drift by `reach` and by the least signed word. -/
structure Within (room reach : Nat) (s : Progress) : Prop where
  length_le : s.text.length ≤ room
  drift_le : s.drift ≤ room
  le_drift : -(reach : Int) ≤ s.drift
  signed : -(maxPosition : Int) - 1 ≤ s.drift

/-- A hunk that is found is no farther from its place than the drift and the search have it. -/
theorem drift_of_accepted {o : Reach} {c : Core} {found nominal : Nat}
    (hplace : h.place? s.text s.drift o = some (c, found, nominal)) :
    found ≤ s.text.length ∧ nominal ≤ maxPosition ∧ s.drift - o.range ≤ found - nominal := by
  obtain ⟨-, expected, hmoved, hnearest⟩ := Hunk.of_place? hplace
  obtain ⟨hfound, hnear, -⟩ := Text.nearestOccurrence_eq_some_iff.mp hnearest
  obtain ⟨hnominal, -, rfl⟩ := moved?_eq_some_iff.mp hmoved
  have hend := Text.le_of_occursAt hfound
  simp only [Text.distance] at hnear
  omega

/-- **Step**: the bounds are moved by what the hunk holds, and by the range of the search. -/
theorem Within.apply {room reach : Nat} (hs : s.Within room reach) (hw : h.WellFormed)
    (hroom : room + h.edits.size ≤ maxPosition) (o : Reach) :
    (s.apply o h).1.Within (room + h.edits.size) (reach + h.edits.size + o.range) := by
  obtain ⟨hlength, hdrift, hreach, hsigned⟩ := hs
  obtain ⟨hold, hnew⟩ := hw.lengths_le
  have hgain : h.gain = (h.newLength : Int) - h.oldLength := rfl
  have hgrown : (s.apply o h).1.text.length ≤ room + h.edits.size := by
    obtain ⟨-, htext⟩ | ⟨-, hreplaces⟩ := s.apply_replaces o h
    · rw [htext]
      omega
    · have := hreplaces.length_eq hw
      omega
  cases hplace : h.place? s.text s.drift o with
  | some p =>
      obtain ⟨c, found, nominal⟩ := p
      obtain ⟨hfound, hnominal, hfar⟩ := drift_of_accepted hplace
      rw [apply_of_place hplace] at hgrown ⊢
      exact ⟨hgrown, by dsimp only; omega, by dsimp only; omega, by dsimp only; omega⟩
  | none =>
      rw [apply_of_no_place hplace] at hgrown ⊢
      refine ⟨hgrown, ?_, ?_, ?_⟩ <;> simp only [clampDrift] <;> omega

/-- **Run**: the bounds of hunks in a row add up. -/
theorem Within.applyAll {p : Patch} {room reach : Nat} (hs : s.Within room reach)
    (hw : ∀ h ∈ p, h.WellFormed) (hroom : room + p.size ≤ maxPosition) (o : Reach) :
    (applyAll o s p).1.Within (room + p.size) (reach + p.size + p.length * o.range) := by
  induction p generalizing s room reach with
  | nil => simpa [Progress.applyAll, Patch.size] using hs
  | cons h p ih =>
      rw [List.forall_mem_cons] at hw
      rw [Patch.size_cons] at hroom
      have hstep := ih (hs.apply hw.1 (by omega) o) hw.2 (by omega)
      have hreach : reach + h.edits.size + o.range + Patch.size p + p.length * o.range
          = reach + (h.edits.size + Patch.size p) + (p.length + 1) * o.range := by
        rw [Nat.succ_mul]
        omega
      rwa [Nat.add_assoc, hreach] at hstep

/-- A hunk with what comes before it, for every hunk of a row. -/
theorem forall_hunk_cons {P : Patch → Hunk → Prop} {h : Hunk} {p : Patch} :
    (∀ front g back, h :: p = front ++ g :: back → P front g) ↔
      P [] h ∧ ∀ front g back, p = front ++ g :: back → P (h :: front) g := by
  constructor
  · intro hall
    exact ⟨hall [] h p rfl, fun front g back hp => hall (h :: front) g back (congrArg (h :: ·) hp)⟩
  · rintro ⟨hfirst, hrest⟩ front g back hp
    cases front with
    | nil =>
        obtain ⟨rfl, -⟩ := List.cons.inj hp
        exact hfirst
    | cons f front =>
        obtain ⟨rfl, hrow⟩ := List.cons.inj hp
        exact hrest front g back hrow

/-- **A run is the application**, or ends where a drift loses its value. -/
theorem applyAllChecked_cases {p : Patch} {room reach : Nat} (hs : s.Within room reach)
    (hw : ∀ h ∈ p, h.WellFormed) (hroom : room + p.size ≤ maxPosition) (o : Reach) :
    let keeps := ∀ front h back, p = front ++ h :: back →
      ¬(Progress.applyAll o s front).1.Saturates o h
    (keeps ∧ applyAllChecked o s p = .ok (Progress.applyAll o s p)) ∨
      (¬keeps ∧ applyAllChecked o s p = .error .saturated) := by
  induction p generalizing s room reach with
  | nil => exact .inl ⟨by simp, rfl⟩
  | cons h p ih =>
      rw [List.forall_mem_cons] at hw
      rw [Patch.size_cons] at hroom
      have hlength := hs.length_le
      have hdrift := hs.drift_le
      have hfirst := applyChecked_eq (by omega) hs.signed hw.1 (by omega) (by omega) o
      have hrow := forall_hunk_cons (h := h) (p := p)
        (P := fun front g => ¬(Progress.applyAll o s front).1.Saturates o g)
      dsimp only
      rw [hrow, applyAllChecked, hfirst]
      by_cases hsat : s.Saturates o h
      · rw [if_pos hsat]
        exact .inr ⟨fun hkeeps => hkeeps.1 hsat, rfl⟩
      · rw [if_neg hsat, ok_bind]
        dsimp only
        rcases ih (hs.apply hw.1 (by omega) o) hw.2 (by omega) with
          ⟨hkeeps, hrest⟩ | ⟨hkeeps, hrest⟩
        · refine .inl ⟨⟨hsat, hkeeps⟩, ?_⟩
          rw [hrest, applyAll_cons]
          rfl
        · refine .inr ⟨fun h => hkeeps h.2, ?_⟩
          rw [hrest]
          rfl

end Progress

namespace Patch

/-- **An application has one kind of fault at most.** Let a patch be read from a text, and be applied
to any text, with any margin and any range. What is computed in words is the application, exactly
when no rejected hunk leaves a drift below all signed words. Wherever a run has come, the next hunk
is applied without a fault otherwise: every sum, difference and conversion on the way is a word, and
every stretch lies inside the text as the hunks before have left it. A drift below all signed words
becomes the least of them, which cannot be before a quarter of all words or more was to be
searched. -/
theorem apply_faultless_iff {t : Text} {p : Patch} (ht : t.length < sizeLimit)
    (hp : parse t = .ok p) {text : Text} (htext : text.length < sizeLimit) (o : Reach) :
    (p.applyChecked text o = .ok (p.apply text o) ↔
      ∀ front h back, p = front ++ h :: back →
        ¬(Progress.applyAll o ⟨text, 0⟩ front).1.Saturates o h) ∧
    ∀ front h back, p = front ++ h :: back →
      let s := (Progress.applyAll o ⟨text, 0⟩ front).1
      (¬s.Saturates o h → s.applyChecked o h = .ok (s.apply o h)) ∧
        (s.Saturates o h → s.applyChecked o h = .error .saturated ∧
          s.apply o h = (⟨s.text, -(maxPosition : Int) - 1⟩, false) ∧
          sizeLimit ≤ front.length * o.range) := by
  have hw := wellFormed_of_parse hp
  have hsize := size_le_of_parse hp
  have hstart : Progress.Within text.length 0 ⟨text, 0⟩ :=
    ⟨Nat.le_refl _, Int.natCast_nonneg _, Int.le_refl _, by dsimp only; omega⟩
  have hmax : sizeLimit + sizeLimit = maxPosition + 1 := rfl
  constructor
  · rw [applyChecked]
    rcases Progress.applyAllChecked_cases hstart hw (by omega) o with
      ⟨hkeeps, hrun⟩ | ⟨hkeeps, hrun⟩
    · rw [hrun]
      exact ⟨fun _ => hkeeps, fun _ => rfl⟩
    · rw [hrun]
      constructor
      · intro hfine
        cases hfine
      · intro h
        exact absurd h hkeeps
  · rintro front h back rfl
    rw [size_append, size_cons] at hsize
    have hfront : ∀ g ∈ front, g.WellFormed := fun g hg => hw g (List.mem_append_left _ hg)
    have hh : h.WellFormed := hw h (by simp)
    obtain ⟨hold, hnew⟩ := hh.lengths_le
    have hgain : h.gain = (h.newLength : Int) - h.oldLength := rfl
    obtain ⟨hlength, hdrift, hreach, hsigned⟩ := hstart.applyAll hfront (by omega) o
    have hstep := Progress.applyChecked_eq (by omega) hsigned hh (by omega) (by omega) o
    dsimp only
    rw [hstep]
    constructor
    · exact fun hsat => if_neg hsat
    · intro hsat
      have hlow := hsat.2
      exact ⟨if_pos hsat, Progress.apply_of_saturates hsat, by omega⟩

/-- Places at the end of all positions, and a search through all words. The first hunk stands
nowhere; for the second, the place is none any more; the third is found far before its place, and
the fourth then has a place before the text. -/
theorem apply_faultless_iff_extremes :
    let p : Patch :=
      [⟨[⟨.delete, ['q']⟩], 0, 1, maxPosition, 0⟩, ⟨[⟨.delete, ['b']⟩], 0, 1, maxPosition, 0⟩,
        ⟨[⟨.delete, ['b']⟩, ⟨.insert, "cc".toList⟩], 0, 1, maxPosition - 2, 2⟩,
        ⟨[⟨.delete, ['x']⟩], maxPosition, 1, 0, 0⟩]
    let o : Reach := ⟨wordLimit - 1, wordLimit - 1⟩
    p.print.length < sizeLimit ∧ parse p.print = .ok p ∧ "bx".toList.length < sizeLimit ∧
      p.applyChecked "bx".toList o = .ok ("cc".toList, [false, false, true, true]) := by
  intro p o
  have hw : ∀ h ∈ p, h.WellFormed := by
    simp only [p, List.forall_mem_cons]
    exact ⟨⟨by decide, by decide, rfl, rfl, by decide, by decide⟩,
      ⟨by decide, by decide, rfl, rfl, by decide, by decide⟩,
      ⟨by decide, by decide, rfl, rfl, by decide, by decide⟩,
      ⟨by decide, by decide, rfl, rfl, by decide, by decide⟩, by simp⟩
  have hp : parse p.print = .ok p := parse_print hw
  have happly : p.apply "bx".toList o = ("cc".toList, [false, false, true, true]) := by decide
  have hlength : p.print.length < sizeLimit := by decide +kernel
  have htext : "bx".toList.length < sizeLimit := by decide
  obtain ⟨hchecked, -⟩ := apply_faultless_iff hlength hp htext o
  have hkeeps : ∀ front h back, p = front ++ h :: back →
      ¬(Progress.applyAll o ⟨"bx".toList, 0⟩ front).1.Saturates o h :=
    Progress.forall_hunk_cons.mpr ⟨by decide, Progress.forall_hunk_cons.mpr ⟨by decide,
      Progress.forall_hunk_cons.mpr ⟨by decide, Progress.forall_hunk_cons.mpr ⟨by decide,
        by simp⟩⟩⟩⟩
  exact ⟨hlength, hp, htext, (hchecked.mpr hkeeps).trans (congrArg Except.ok happly)⟩

/-- Two patches with a search through all words. In the first one, a hunk at the end of all
positions is found at the beginning of the text, and a rejected hunk then has a gain by which the
drift cannot be lowered: it loses its value. In the second one, a rejected hunk leaves the drift one,
and with it the place at the end of all positions is no signed word any more: the hunk there is not
looked for, though what it deletes stands in the text. -/
theorem apply_saturates :
    let far : Hunk := ⟨[⟨.delete, ['b']⟩], 0, 1, maxPosition, 0⟩
    let grown : Hunk := ⟨[⟨.delete, ['q']⟩, ⟨.insert, "abcd".toList⟩], 0, 1, 0, 4⟩
    let absent : Hunk := ⟨[⟨.delete, ['q']⟩], 0, 1, 0, 0⟩
    let o : Reach := ⟨4, wordLimit - 1⟩
    let s := (Progress.applyAll o ⟨['b'], 0⟩ [far]).1
    let s' := (Progress.applyAll o ⟨['b'], 0⟩ [absent]).1
    (∀ p ∈ [[far, grown], [absent, far]], parse (print p) = .ok p ∧ (print p).length < sizeLimit) ∧
      (s = ⟨[], -(maxPosition : Int)⟩ ∧ s.drift - grown.gain = -(maxPosition : Int) - 3 ∧
        s.apply o grown = (⟨[], -(maxPosition : Int) - 1⟩, false) ∧
        s.applyChecked o grown = .error .saturated) ∧
      (s' = ⟨['b'], 1⟩ ∧ Word.signedAdd? far.newStart s'.drift = none ∧
        s'.apply o far = (⟨['b'], 2⟩, false) ∧
        apply [absent, far] ['b'] o = (['b'], [false, false])) := by
  intro far grown absent o s s'
  have hfar : far.WellFormed := ⟨by decide, by decide, rfl, rfl, by decide, by decide⟩
  have hgrown : grown.WellFormed := ⟨by decide, by decide, rfl, rfl, by decide, by decide⟩
  have habsent : absent.WellFormed := ⟨by decide, by decide, rfl, rfl, by decide, by decide⟩
  have hprinted : ∀ p ∈ [[far, grown], [absent, far]],
      parse (print p) = .ok p ∧ (print p).length < sizeLimit := by
    simp only [List.forall_mem_cons]
    exact ⟨⟨parse_print (by simp [hfar, hgrown]), by decide +kernel⟩,
      ⟨parse_print (by simp [habsent, hfar]), by decide +kernel⟩, by simp⟩
  have hchecked : s.applyChecked o grown = .error .saturated :=
    (Progress.applyChecked_eq (by decide) (by decide) hgrown (by decide) (by decide) o).trans
      (if_pos (by decide))
  exact ⟨hprinted, ⟨by decide, by decide, by decide, hchecked⟩, by decide⟩

end Patch

end TextHistory
