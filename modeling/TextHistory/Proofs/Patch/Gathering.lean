import TextHistory.Patch.Build
import TextHistory.Proofs.Patch.Fit
import TextHistory.Proofs.Patch.WrittenForm

/-!
# The patch for a script

A script is gathered into hunks run by run. While that goes on, the finished hunks lead from the
text to the one they are placed in, and the open hunk stands in both the text before it and the
text after it: `Draft.Follows` says so, with the stretches before and behind the hunk as its
parameters. Every run of the script keeps it (`Draft.Follows.add`), and so does the end of a hunk,
for which enough context is found in the text (`Hunk.surround_eq`). What comes out fits the text
and leads to the target of the script (`Patch.make?_fits`).

Sums of words do not wrap here: both texts together are no longer than a position can be, and two
margins are less than a word.
-/

set_option autoImplicit false

namespace TextHistory

/-- Margins and lengths of texts are below it, a quarter of a word. -/
def sizeLimit : Nat := Nat.pow 2 62

theorem sizeLimit_eq : sizeLimit = 4611686018427387904 := rfl

theorem wordLimit_eq : wordLimit = 18446744073709551616 := rfl

theorem maxPosition_eq : maxPosition = 9223372036854775807 := rfl

/-- A margin can be taken twice when it is no larger than a position. -/
theorem twice_lt_iff {margin : Nat} : 2 * margin < wordLimit ↔ margin ≤ maxPosition := by
  rw [wordLimit_eq, maxPosition_eq]
  omega

/-! ## Stretches of a text -/

namespace Text

/-- The stretch from `start` to `stop`, with `padding` more characters on each side as far as the
text goes. -/
def padded (text : Text) (start stop padding : Nat) : Text :=
  slice text (start - padding) (min (stop + padding) text.length)

theorem slice_lead (pre rest : Text) (k : Nat) :
    slice (pre ++ rest) (pre.length - k) pre.length = pre.drop (pre.length - k) := by
  rw [slice, List.take_left]

theorem slice_trail (pre rest : Text) (k : Nat) :
    slice (pre ++ rest) pre.length (min (pre.length + k) (pre ++ rest).length) = rest.take k := by
  rw [slice, ← List.take_take, List.take_length, List.take_append,
    List.take_of_length_le (Nat.le_add_right _ _), List.drop_left, Nat.add_sub_cancel_left]

end Text

/-! ## Context -/

namespace Hunk

theorem paddedStop_eq {stop padding : Nat} (hw : stop + padding < wordLimit) (text : Text) :
    paddedStop text stop padding = min (stop + padding) text.length := by
  rw [paddedStop, wrap_of_lt hw]

theorem window_eq {text : Text} {start stop padding : Nat} (hle : start ≤ stop)
    (hstop : stop ≤ text.length) (hw : stop + padding < wordLimit) :
    window text start stop padding = some (text.padded start stop padding) := by
  simp only [window, paddedStop_eq hw]
  exact if_pos (by omega)

theorem growth_succ {text : Text} {start stop margin padding : Nat} (hle : start ≤ stop)
    (hstop : stop ≤ text.length) (hw : stop + padding < wordLimit) (steps : Nat) :
    growth text start stop margin (steps + 1) padding
      = if isSettled text margin (text.padded start stop padding) then some padding
        else growth text start stop margin steps (wrap (padding + margin)) := by
  rw [growth, window_eq hle hstop hw]

/-- With a large margin every pattern is settled at once. -/
theorem margin_lt_of_not_settled {text pattern : Text} {margin : Nat} (hm : 2 * margin < wordLimit)
    (hs : ¬isSettled text margin pattern = true) : margin < 16 := by
  rw [isSettled, Bool.or_eq_true, decide_eq_true_eq, wrap_of_lt hm, settledLength] at hs
  omega

/-- The context grows only while the margin is small, so it does not grow far. -/
theorem growth_eq_some (text : Text) {start stop margin : Nat} (hle : start ≤ stop)
    (hstop : stop ≤ text.length) (hm : 2 * margin < wordLimit) (steps padding : Nat)
    (hroom : text.length + padding + 16 * steps < wordLimit) :
    ∃ grown, growth text start stop margin steps padding = some grown ∧
      grown ≤ padding + 16 * steps ∧ (16 ≤ margin → grown = padding) := by
  induction steps generalizing padding with
  | zero => exact ⟨padding, rfl, by omega, fun _ => rfl⟩
  | succ steps ih =>
      rw [growth_succ hle hstop (by omega)]
      split
      · exact ⟨padding, rfl, by omega, fun _ => rfl⟩
      · next hs =>
        have hsmall := margin_lt_of_not_settled hm hs
        obtain ⟨grown, hgrown, hbound, -⟩ := ih (padding + margin) (by omega)
        rw [wrap_of_lt (by omega)]
        exact ⟨grown, hgrown, by omega, fun hlarge => by omega⟩

@[simp] theorem source_context (t : Text) : Script.source (context t) = t := by
  cases t <;> simp [context, Script.source_cons]

@[simp] theorem target_context (t : Text) : Script.target (context t) = t := by
  cases t <;> simp [context, Script.target_cons]

theorem surroundBy_nil (h : Hunk) : h.surroundBy [] [] = h := by
  simp [surroundBy, context]

/-- Around a hunk in a text, the context grows by so little that a margin more is still a word. -/
theorem growth_of_le {text : Text} {start stop margin : Nat} (hle : start ≤ stop)
    (hstop : stop ≤ text.length) (hm : margin ≤ maxPosition) (hsize : text.length ≤ maxPosition) :
    ∃ grown, growth text start stop margin (settledLength + 1) 0 = some grown ∧
      text.length + (grown + margin) < wordLimit := by
  have hdouble := twice_lt_iff.mpr hm
  rw [maxPosition_eq] at hm hsize
  obtain ⟨grown, hgrown, hbound, hlarge⟩ := growth_eq_some text hle hstop hdouble
    (settledLength + 1) 0 (by rw [wordLimit_eq, settledLength]; omega)
  rw [settledLength] at hbound
  refine ⟨grown, hgrown, ?_⟩
  rw [wordLimit_eq]
  omega

/-- The context of a hunk inside a text, once it is known how far it grows. -/
theorem surround_of_growth {h : Hunk} {text : Text} {margin grown : Nat} (hne : text ≠ [])
    (hstop : h.newStart + h.oldLength ≤ text.length)
    (hgrown : growth text h.newStart (h.newStart + h.oldLength) margin (settledLength + 1) 0
      = some grown)
    (hroom : text.length + (grown + margin) < wordLimit) :
    h.surround text margin = some (h.surroundBy
      (Text.slice text (h.newStart - (grown + margin)) h.newStart)
      (Text.slice text (h.newStart + h.oldLength)
        (min (h.newStart + h.oldLength + (grown + margin)) text.length))) := by
  have hempty : ¬text.isEmpty = true := by simpa using hne
  have hmin : min h.newStart text.length = h.newStart := by omega
  have hmin' : min (h.newStart + h.oldLength) text.length = h.newStart + h.oldLength := by omega
  have hpad : wrap (grown + margin) = grown + margin := wrap_of_lt (by omega)
  have hend : paddedStop text (h.newStart + h.oldLength) (grown + margin)
      = min (h.newStart + h.oldLength + (grown + margin)) text.length :=
    paddedStop_eq (by omega) text
  simp only [surround, if_neg hempty, hmin, hmin', hgrown, hpad, hend, Option.bind_eq_bind,
    Option.bind_some]
  exact if_neg (by omega)

/-- **A hunk gets its context from the text around it.** -/
theorem surround_eq {h : Hunk} {text pre post : Text} {margin : Nat}
    (htext : text = pre ++ (h.edits.source ++ post)) (hstart : h.newStart = pre.length)
    (hlength : h.oldLength = h.edits.source.length) (hm : margin ≤ maxPosition)
    (hsize : text.length ≤ maxPosition) :
    ∃ away lead trail beyond, pre = away ++ lead ∧ post = trail ++ beyond ∧
      h.surround text margin = some (h.surroundBy lead trail) := by
  by_cases hne : text = []
  · refine ⟨pre, [], [], post, by simp, by simp, ?_⟩
    rw [surround, if_pos (by simpa using hne), surroundBy_nil]
  · have hlen : text.length = pre.length + h.edits.source.length + post.length := by
      simp only [htext, List.length_append]
      omega
    have hstop : h.newStart + h.oldLength = (pre ++ h.edits.source).length := by
      rw [hstart, hlength, List.length_append]
    obtain ⟨grown, hgrown, hroom⟩ := growth_of_le
      (Nat.le_add_right h.newStart h.oldLength) (by omega) hm hsize
    have hlead : Text.slice text (h.newStart - (grown + margin)) h.newStart
        = pre.drop (pre.length - (grown + margin)) := by
      rw [hstart, htext, Text.slice_lead]
    have htrail : Text.slice text (h.newStart + h.oldLength)
        (min (h.newStart + h.oldLength + (grown + margin)) text.length)
          = post.take (grown + margin) := by
      rw [hstop, htext, ← List.append_assoc, Text.slice_trail]
    have hsurround := surround_of_growth hne (by omega) hgrown hroom
    rw [hlead, htrail] at hsurround
    exact ⟨pre.take (pre.length - (grown + margin)), pre.drop (pre.length - (grown + margin)),
      post.take (grown + margin), post.drop (grown + margin),
      (List.take_append_drop _ _).symm, (List.take_append_drop _ _).symm, hsurround⟩

/-- A hunk with context that stands in the text fits where it fits without. -/
theorem fits_surroundBy {h : Hunk} {away lead : Text} (trail beyond : Text)
    (hstart : h.newStart = (away ++ lead).length) :
    (h.surroundBy lead trail).Fits
      (away ++ lead ++ (h.edits.source ++ (trail ++ beyond)))
      (away ++ lead ++ (h.edits.target ++ (trail ++ beyond))) := by
  refine ⟨away, beyond, ?_, ?_, ?_⟩
  · simp [surroundBy, Script.source_append]
  · simp [surroundBy, Script.target_append]
  · simp [surroundBy, hstart]

end Hunk

/-! ## A draft underway -/

/-- The draft of a patch from `old` to `new` with the runs `todo` still to come. `gone` and
`before` stand before the open hunk in `old` and in the draft's own texts; `trail` was passed
after the last edit of the hunk. -/
structure Draft.Follows (old new gone before trail : Text) (todo : Script) (d : Draft) : Prop where
  fits : Patch.Fits d.finished.reverse old d.rolling
  sound : ∀ h ∈ d.finished, h.WellFormed
  old_eq : old = gone ++ (d.hunk.edits.source ++ (trail ++ todo.source))
  new_eq : new = before ++ (d.hunk.edits.target ++ (trail ++ todo.target))
  rolling_eq : d.rolling = before ++ (d.hunk.edits.source ++ (trail ++ todo.source))
  current_eq : d.current = before ++ (d.hunk.edits.target ++ (trail ++ todo.source))
  position_eq : d.position = (before ++ (d.hunk.edits.target ++ trail)).length
  oldLength_eq : d.hunk.oldLength = d.hunk.edits.source.length
  newLength_eq : d.hunk.newLength = d.hunk.edits.target.length
  starts_eq : d.hunk.edits ≠ [] →
    d.hunk.oldStart = before.length ∧ d.hunk.newStart = before.length
  trail_eq : todo ≠ [] → trail = []

namespace Draft

theorem follows_start (s : Script) :
    (start s.source).Follows s.source s.target [] [] [] s where
  fits := .nil _
  sound := by simp [start]
  old_eq := by simp [start, Hunk.empty]
  new_eq := by simp [start, Hunk.empty]
  rolling_eq := by simp [start, Hunk.empty]
  current_eq := by simp [start, Hunk.empty]
  position_eq := by simp [start, Hunk.empty]
  oldLength_eq := by simp [start, Hunk.empty]
  newLength_eq := by simp [start, Hunk.empty]
  starts_eq := by simp [start, Hunk.empty]
  trail_eq := fun _ => rfl

namespace Follows

variable {old new gone before trail t : Text} {todo : Script} {d : Draft}

theorem opened_eq (h : d.Follows old new gone before [] todo) :
    d.opened = { d.hunk with oldStart := before.length, newStart := before.length } := by
  unfold opened
  split
  · -- the hunk that is opened begins where the draft has got to
    next hempty =>
    have hpos := h.position_eq
    rw [List.isEmpty_iff.mp hempty] at hpos
    simp only [Script.target_nil, List.append_nil] at hpos
    rw [hpos]
  · next hne =>
    obtain ⟨hold, hnew⟩ := h.starts_eq (by simpa using hne)
    show ({ d.hunk with oldStart := d.hunk.oldStart, newStart := d.hunk.newStart } : Hunk) = _
    rw [hold, hnew]

/-! ### One run -/

/-- A run of edits joins the open hunk, when the texts around it are brought up to date. -/
theorem edited {e : Edit} {current : Text} {position : Nat}
    (h : d.Follows old new gone before [] (e :: todo))
    (hcurrent : current = before ++ (d.hunk.edits ++ [e]).target ++ todo.source)
    (hposition : position = (before ++ (d.hunk.edits ++ [e]).target).length) :
    Follows old new gone before [] todo
      { d with
        hunk :=
          { d.opened with
            edits := d.opened.edits ++ [e]
            oldLength := d.opened.oldLength + (Script.source [e]).length
            newLength := d.opened.newLength + (Script.target [e]).length }
        current := current
        position := position } := by
  rw [h.opened_eq]
  have hsource : Script.source (e :: todo) = Script.source [e] ++ todo.source :=
    Script.source_append [e] todo
  have htarget : Script.target (e :: todo) = Script.target [e] ++ todo.target :=
    Script.target_append [e] todo
  exact
    { fits := h.fits
      sound := h.sound
      old_eq := by simpa [Script.source_append, hsource] using h.old_eq
      new_eq := by simpa [Script.target_append, htarget] using h.new_eq
      rolling_eq := by simpa [Script.source_append, hsource] using h.rolling_eq
      current_eq := by simpa using hcurrent
      position_eq := by simpa using hposition
      oldLength_eq := by simp [Script.source_append, h.oldLength_eq]
      newLength_eq := by simp [Script.target_append, h.newLength_eq]
      starts_eq := fun _ => ⟨rfl, rfl⟩
      trail_eq := fun _ => rfl }

theorem insert (h : d.Follows old new gone before [] (⟨.insert, t⟩ :: todo)) :
    ∃ d', d.insert t = some d' ∧ d'.Follows old new gone before [] todo := by
  have hcur : d.current = (before ++ d.hunk.edits.target) ++ [] ++ todo.source := by
    simpa [Script.source_cons] using h.current_eq
  have hpos : d.position = (before ++ d.hunk.edits.target).length := by
    simpa using h.position_eq
  have hle : ¬d.current.length < d.position := by
    rw [hcur, hpos]
    simp only [List.length_append]
    omega
  have hcurrent : Text.splice d.current d.position 0 t
      = before ++ Script.target (d.hunk.edits ++ [⟨.insert, t⟩]) ++ todo.source := by
    calc Text.splice d.current d.position 0 t
        = (before ++ d.hunk.edits.target) ++ t ++ todo.source := by
          rw [hcur, hpos]
          exact Text.splice_append _ [] _ _
      _ = before ++ Script.target (d.hunk.edits ++ [⟨.insert, t⟩]) ++ todo.source := by
          simp [Script.target_append, Script.target_cons]
  have hposition : d.position + t.length
      = (before ++ Script.target (d.hunk.edits ++ [⟨.insert, t⟩])).length := by
    simp [Script.target_append, Script.target_cons, hpos, Nat.add_assoc]
  refine ⟨_, if_neg hle, ?_⟩
  simpa [Script.source_cons, Script.target_cons] using h.edited hcurrent hposition

theorem delete (h : d.Follows old new gone before [] (⟨.delete, t⟩ :: todo)) :
    ∃ d', d.delete t = some d' ∧ d'.Follows old new gone before [] todo := by
  have hcur : d.current = (before ++ d.hunk.edits.target) ++ t ++ todo.source := by
    simpa [Script.source_cons] using h.current_eq
  have hpos : d.position = (before ++ d.hunk.edits.target).length := by
    simpa using h.position_eq
  have hle : ¬d.current.length < d.position + t.length := by
    rw [hcur, hpos]
    simp only [List.length_append]
    omega
  have hcurrent : Text.splice d.current d.position t.length []
      = before ++ Script.target (d.hunk.edits ++ [⟨.delete, t⟩]) ++ todo.source := by
    calc Text.splice d.current d.position t.length []
        = (before ++ d.hunk.edits.target) ++ [] ++ todo.source := by
          rw [hcur, hpos, Text.splice_append]
      _ = before ++ Script.target (d.hunk.edits ++ [⟨.delete, t⟩]) ++ todo.source := by
          simp [Script.target_append, Script.target_cons]
  have hposition : d.position
      = (before ++ Script.target (d.hunk.edits ++ [⟨.delete, t⟩])).length := by
    simp [Script.target_append, Script.target_cons, hpos]
  refine ⟨_, if_neg hle, ?_⟩
  simpa [Script.source_cons, Script.target_cons] using h.edited hcurrent hposition

theorem keep (h : d.Follows old new gone before [] (⟨.equal, t⟩ :: todo))
    (hopen : d.hunk.edits ≠ []) : (d.keep t).Follows old new gone before [] todo where
  fits := h.fits
  sound := h.sound
  old_eq := by simp [Draft.keep, Script.source_append, Script.source_cons, h.old_eq]
  new_eq := by simp [Draft.keep, Script.target_append, Script.target_cons, h.new_eq]
  rolling_eq := by simp [Draft.keep, Script.source_append, Script.source_cons, h.rolling_eq]
  current_eq := by
    simp [Draft.keep, Script.target_append, Script.target_cons, Script.source_cons, h.current_eq]
  position_eq := by
    simp [Draft.keep, Script.target_append, Script.target_cons, h.position_eq, Nat.add_assoc]
  oldLength_eq := by
    simp [Draft.keep, Script.source_append, Script.source_cons, h.oldLength_eq]
  newLength_eq := by
    simp [Draft.keep, Script.target_append, Script.target_cons, h.newLength_eq]
  starts_eq := fun _ => h.starts_eq hopen
  trail_eq := fun _ => rfl

/-- Between hunks a kept run is passed for good. -/
theorem skip (h : d.Follows old new gone before [] (⟨.equal, t⟩ :: todo))
    (hclosed : d.hunk.edits = []) :
    (d.skip t).Follows old new (gone ++ t) (before ++ t) [] todo where
  fits := h.fits
  sound := h.sound
  old_eq := by simp [Draft.skip, hclosed, h.old_eq, Script.source_cons]
  new_eq := by simp [Draft.skip, hclosed, h.new_eq, Script.target_cons]
  rolling_eq := by simp [Draft.skip, hclosed, h.rolling_eq, Script.source_cons]
  current_eq := by simp [Draft.skip, hclosed, h.current_eq, Script.source_cons]
  position_eq := by simp [Draft.skip, hclosed, h.position_eq]
  oldLength_eq := h.oldLength_eq
  newLength_eq := h.newLength_eq
  starts_eq := fun hopen => absurd hclosed hopen
  trail_eq := fun _ => rfl

/-- At the end of the script a kept run is left behind the open hunk. -/
theorem skip_last (h : d.Follows old new gone before [] [⟨.equal, t⟩]) :
    (d.skip t).Follows old new gone before t [] where
  fits := h.fits
  sound := h.sound
  old_eq := by simp [Draft.skip, h.old_eq, Script.source_cons]
  new_eq := by simp [Draft.skip, h.new_eq, Script.target_cons]
  rolling_eq := by simp [Draft.skip, h.rolling_eq, Script.source_cons]
  current_eq := by simp [Draft.skip, h.current_eq, Script.source_cons]
  position_eq := by simp [Draft.skip, h.position_eq, Nat.add_assoc]
  oldLength_eq := h.oldLength_eq
  newLength_eq := h.newLength_eq
  starts_eq := h.starts_eq
  trail_eq := fun hne => absurd rfl hne

/-! ### The end of a hunk -/

theorem lengths_le (h : d.Follows old new gone before trail todo) :
    d.rolling.length ≤ old.length + new.length ∧
      d.hunk.edits.source.length ≤ old.length ∧ d.hunk.edits.target.length ≤ new.length ∧
      before.length ≤ new.length := by
  have hold := congrArg List.length h.old_eq
  have hnew := congrArg List.length h.new_eq
  have hroll := congrArg List.length h.rolling_eq
  simp only [List.length_append] at hold hnew hroll
  omega

end Follows

end Draft

/-- A hunk with context from a text that is not too long is well formed. -/
theorem Hunk.wellFormed_surroundBy {h : Hunk} {lead trail : Text} {n : Nat}
    (hstarts : h.oldStart = n ∧ h.newStart = n) (hold : h.oldLength = h.edits.source.length)
    (hnew : h.newLength = h.edits.target.length) (hn : n ≤ maxPosition)
    (hroom : h.edits.source.length + h.edits.target.length + (lead.length + trail.length)
      < wordLimit) :
    (h.surroundBy lead trail).WellFormed where
  oldStart_le := Nat.le_trans (Nat.sub_le _ _) (hstarts.1 ▸ hn)
  newStart_le := Nat.le_trans (Nat.sub_le _ _) (hstarts.2 ▸ hn)
  oldLength_eq := by
    simp [surroundBy, Script.source_append, hold]
    omega
  newLength_eq := by
    simp [surroundBy, Script.target_append, hnew]
    omega
  oldLength_lt := by
    simp only [surroundBy, hold]
    omega
  newLength_lt := by
    simp only [surroundBy, hnew]
    omega

namespace Draft

namespace Follows

variable {old new gone before trail t : Text} {todo : Script} {d : Draft} {margin : Nat}

/-- A hunk that ends gets its context and joins the finished ones. -/
theorem close (h : d.Follows old new gone before trail todo) (hm : margin ≤ maxPosition)
    (hsize : old.length + new.length ≤ maxPosition) :
    ∃ d', d.close margin = some d' ∧ d'.hunk.edits = [] ∧
      d'.Follows old new (gone ++ d.hunk.edits.source) (before ++ d.hunk.edits.target)
        trail todo := by
  by_cases hclosed : d.hunk.edits = []
  · refine ⟨d, by rw [Draft.close, hclosed]; rfl, hclosed, ?_⟩
    rw [hclosed]
    simpa using h
  · obtain ⟨hbound, hsrc, htgt, hbefore⟩ := h.lengths_le
    obtain ⟨hstart', hstart⟩ := h.starts_eq hclosed
    obtain ⟨away, lead, inner, beyond, hpre, hpost, hsurround⟩ :=
      Hunk.surround_eq h.rolling_eq hstart h.oldLength_eq hm (by omega)
    have hplace : d.hunk.newStart = (away ++ lead).length := hpre ▸ hstart
    have hfits := Hunk.fits_surroundBy inner beyond hplace
    rw [← hpre, ← hpost, ← h.rolling_eq] at hfits
    have hsound : (d.hunk.surroundBy lead inner).WellFormed := by
      refine Hunk.wellFormed_surroundBy ⟨hstart', hstart⟩ h.oldLength_eq h.newLength_eq
        (by omega) ?_
      -- the context is cut from the text around the hunk, so both together are no longer than it
      have hroll := congrArg List.length h.rolling_eq
      simp only [hpre, hpost, List.length_append] at hroll
      rw [maxPosition_eq] at hsize
      rw [wordLimit_eq]
      omega
    refine ⟨⟨d.hunk.surroundBy lead inner :: d.finished, Hunk.empty, d.current, d.current,
      d.position⟩, ?_, rfl, ?_⟩
    · simp [Draft.close, hclosed, hsurround]
    · exact
        { fits := by
            rw [List.reverse_cons, h.current_eq]
            exact h.fits.snoc hfits
          sound := by
            rintro g hg
            rcases List.mem_cons.mp hg with rfl | hg
            · exact hsound
            · exact h.sound g hg
          old_eq := by simp [Hunk.empty, h.old_eq]
          new_eq := by simp [Hunk.empty, h.new_eq]
          rolling_eq := by simp [Hunk.empty, h.current_eq]
          current_eq := by simp [Hunk.empty, h.current_eq]
          position_eq := by simp [Hunk.empty, h.position_eq]
          oldLength_eq := rfl
          newLength_eq := rfl
          starts_eq := fun hopen => absurd rfl hopen
          trail_eq := h.trail_eq }

/-! ### The whole script -/

theorem equal (h : d.Follows old new gone before [] (⟨.equal, t⟩ :: todo))
    (hm : margin ≤ maxPosition) (hsize : old.length + new.length ≤ maxPosition) :
    ∃ d' gone' before' trail', d.equal margin todo.isEmpty t = some d' ∧
      d'.Follows old new gone' before' trail' todo := by
  have hwrap : wrap (2 * margin) = 2 * margin := wrap_of_lt (twice_lt_iff.mpr hm)
  by_cases hclosed : d.hunk.edits = []
  · exact ⟨_, _, _, _, if_pos (List.isEmpty_iff.mpr hclosed), h.skip hclosed⟩
  · rw [Draft.equal, if_neg (by simpa using hclosed), hwrap]
    by_cases hkeep : t.length ≤ 2 * margin ∧ (!todo.isEmpty) = true
    · exact ⟨_, _, _, _, if_pos hkeep, h.keep hclosed⟩
    · rw [if_neg hkeep]
      by_cases hlong : 2 * margin ≤ t.length
      · obtain ⟨d', hd', hclosed', h'⟩ := h.close hm hsize
        refine ⟨_, _, _, _, ?_, h'.skip hclosed'⟩
        rw [if_pos hlong, hd', Option.map_some]
      · -- only the last run can be short and yet not be kept
        cases todo with
        | nil => exact ⟨_, _, _, _, if_neg hlong, h.skip_last⟩
        | cons e todo => exact absurd ⟨by omega, rfl⟩ hkeep

theorem add {e : Edit} (h : d.Follows old new gone before trail (e :: todo))
    (hm : margin ≤ maxPosition) (hsize : old.length + new.length ≤ maxPosition) :
    ∃ d' gone' before' trail', d.add margin todo.isEmpty e = some d' ∧
      d'.Follows old new gone' before' trail' todo := by
  obtain rfl := h.trail_eq (List.cons_ne_nil e todo)
  obtain ⟨kind, t⟩ := e
  cases kind with
  | equal => exact h.equal hm hsize
  | delete =>
      obtain ⟨d', hd', h'⟩ := h.delete
      exact ⟨d', _, _, _, hd', h'⟩
  | insert =>
      obtain ⟨d', hd', h'⟩ := h.insert
      exact ⟨d', _, _, _, hd', h'⟩

theorem addAll (h : d.Follows old new gone before trail todo) (hm : margin ≤ maxPosition)
    (hsize : old.length + new.length ≤ maxPosition) :
    ∃ d' gone' before' trail', d.addAll margin todo = some d' ∧
      d'.Follows old new gone' before' trail' [] := by
  induction todo generalizing d gone before trail with
  | nil => exact ⟨d, gone, before, trail, rfl, h⟩
  | cons e todo ih =>
      obtain ⟨d₁, _, _, _, hd₁, h₁⟩ := h.add hm hsize
      obtain ⟨d₂, _, _, _, hd₂, h₂⟩ := ih h₁
      refine ⟨d₂, _, _, _, ?_, h₂⟩
      simp only [Draft.addAll, hd₁, Option.bind_eq_bind, Option.bind_some, hd₂]

end Follows

end Draft

/-! ## The patch -/

namespace Patch

theorem make?_eq_nil {text : Text} {s : Script} (margin : Nat)
    (h : s.all (·.kind == .equal) = true) : make? text s margin = some [] := by
  simp [make?, h]

/-- A script of kept runs leads nowhere else. -/
theorem target_eq_source {s : Script} (h : s.all (·.kind == .equal) = true) :
    s.target = s.source := by
  induction s with
  | nil => rfl
  | cons e s ih =>
      rw [List.all_cons, Bool.and_eq_true, beq_iff_eq] at h
      rw [Script.target_cons, Script.source_cons, h.1, ih h.2]
      rfl

/-- The patch for a script that edits anything is what the finished draft holds. -/
theorem make?_eq_finished {text : Text} {s : Script} {margin : Nat} {d₁ d₂ : Draft}
    (hedit : ¬s.all (·.kind == .equal) = true)
    (hd₁ : Draft.addAll (max margin 1) (Draft.start text) s = some d₁)
    (hd₂ : d₁.close (max margin 1) = some d₂) :
    make? text s margin = some d₂.finished.reverse := by
  simp only [make?, if_neg hedit, hd₁, hd₂, Option.bind_eq_bind, Option.bind_some]
  rfl

/-- The patch for a script and a margin that is a word when it is taken twice. -/
theorem make?_fits_of_le (s : Script) {margin : Nat} (hm : margin ≤ maxPosition)
    (hsize : s.source.length + s.target.length ≤ maxPosition) :
    ∃ p, make? s.source s margin = some p ∧ Fits p s.source s.target ∧
      ∀ h ∈ p, h.WellFormed := by
  by_cases hall : s.all (·.kind == .equal) = true
  · refine ⟨[], make?_eq_nil margin hall, ?_, by simp⟩
    rw [target_eq_source hall]
    exact .nil _
  · have hm' : max margin 1 ≤ maxPosition := Nat.max_le.mpr ⟨hm, by decide⟩
    obtain ⟨d₁, gone, before, trail, hd₁, h₁⟩ := (Draft.follows_start s).addAll hm' hsize
    obtain ⟨d₂, hd₂, hclosed, h₂⟩ := h₁.close hm' hsize
    have hdone : d₂.rolling = s.target := by
      rw [h₂.rolling_eq, h₂.new_eq, hclosed]
      rfl
    refine ⟨d₂.finished.reverse, make?_eq_finished hall hd₁ hd₂, hdone ▸ h₂.fits, ?_⟩
    intro h hh
    exact h₂.sound h (List.mem_reverse.mp hh)

/-- **The patch for a script** exists, is well formed, fits the text the script starts from and
makes of it the text the script leads to. -/
theorem make?_fits (s : Script) {margin : Nat} (hm : margin < sizeLimit)
    (hsize : s.source.length + s.target.length ≤ maxPosition) :
    ∃ p, make? s.source s margin = some p ∧ Fits p s.source s.target ∧
      ∀ h ∈ p, h.WellFormed :=
  make?_fits_of_le s (Nat.le_trans (Nat.le_of_lt hm) (by decide)) hsize

end Patch

end TextHistory
