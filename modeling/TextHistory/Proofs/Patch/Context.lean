import Mathlib.Data.List.DropRight
import Mathlib.Data.Nat.Find
import TextHistory.Proofs.Patch.Grouping
import TextHistory.Proofs.Patch.Margin

/-!
# How much context a hunk gets

When a hunk is finished, a loop gives it a margin of the text around it, and one margin more as
long as what it has, with its core, is short and stands in several places. Then it gets a last
margin.

* `Hunk.SettlesIn` counts the rounds of the loop. There is such a number for each core in a text
  that is not empty, since the whole text stands in one place (`Hunk.exists_settlesIn`), and the
  loop ends after these rounds (`Hunk.SettlesIn.growthChecked_eq`).
* `Hunk.Surrounds` says all that is known of a context: how it came about, how long it is, and
  that it tells the place of its core. A finished hunk has one (`Hunk.exists_surrounds`). A core
  that stands in one place with some context stands in one place with more
  (`Text.StandsOnlyAt.around_of_le`), so the last margin does no harm.
* `Draft.Anchors` goes through a script with a draft. The text in which a hunk is finished is the
  one that the hunks before it leave, and its two sides are read off the runs (`Draft.Stage`).
* `Patch.make?_context` says of every hunk of a patch that it has such a context.
-/

set_option autoImplicit false

namespace TextHistory

open Outcome

namespace Text

/-! ## Patterns in one place -/

/-- A pattern stands in a text at one position and nowhere else. -/
def StandsOnlyAt (text pattern : Text) (p : Nat) : Prop :=
  ∀ q, occursAt text pattern q = true ↔ q = p

/-- What stands around a pattern in one place stands in one place. -/
theorem StandsOnlyAt.widen {text lead pattern trail : Text} {p : Nat}
    (h : StandsOnlyAt text pattern (p + lead.length))
    (hp : occursAt text (lead ++ pattern ++ trail) p = true) :
    StandsOnlyAt text (lead ++ pattern ++ trail) p := by
  intro q
  constructor
  · intro hq
    have hsame := (h _).mp (occursAt_inner hq)
    omega
  · rintro rfl
    exact hp

/-- The empty pattern stands at both ends of a text, so it stands in one place only if the text is
empty. -/
theorem occursOnce_iff_standsOnlyAt {text pattern : Text} {p : Nat} (hne : text ≠ [])
    (hp : occursAt text pattern p = true) :
    Hunk.occursOnce text pattern = true ↔ StandsOnlyAt text pattern p := by
  rw [Hunk.occursOnce]
  split
  · next hempty =>
    obtain rfl := List.isEmpty_iff.mp hempty
    have hlength : 0 < text.length := List.length_pos_iff.mpr hne
    constructor
    · intro h
      exact absurd (List.isEmpty_iff.mp h) hne
    · intro h
      have hfirst : occursAt text [] 0 = true := by simp [occursAt]
      have hlast : occursAt text [] text.length = true := by simp [occursAt]
      have := ((h _).mp hfirst).trans ((h _).mp hlast).symm
      omega
  · rw [decide_eq_true_eq, length_occurrences_le_one_iff]
    constructor
    · intro h q
      exact ⟨fun hq => h q p hq hp, fun hq => hq ▸ hp⟩
    · intro h q r hq hr
      exact ((h q).mp hq).trans ((h r).mp hr).symm

/-! ## Stretches around a core -/

/-- A core with up to so many characters on each side. -/
def around (pre core post : Text) (width : Nat) : Text :=
  pre.rtake width ++ core ++ post.take width

variable {pre core post : Text} {width width' : Nat}

theorem length_rtake (t : Text) (width : Nat) : (t.rtake width).length = min width t.length := by
  rw [List.rtake, List.length_drop]
  omega

theorem length_around : (around pre core post width).length
    = min width pre.length + core.length + min width post.length := by
  rw [around, List.length_append, List.length_append, length_rtake, List.length_take]

/-- More room makes a core longer on both sides. -/
theorem around_of_le (h : width ≤ width') :
    ∃ lead trail, around pre core post width' = lead ++ around pre core post width ++ trail := by
  obtain ⟨lead, hlead⟩ : ∃ lead, pre.rtake width' = lead ++ pre.rtake width := by
    have hdrop := List.take_append_drop
      ((pre.length - width) - (pre.length - width')) (pre.drop (pre.length - width'))
    rw [List.drop_drop, Nat.add_sub_of_le (by omega)] at hdrop
    exact ⟨_, hdrop.symm⟩
  obtain ⟨trail, htrail⟩ : ∃ trail, post.take width' = post.take width ++ trail := by
    have htake := List.take_add (l := post) (i := width) (j := width' - width)
    rw [Nat.add_sub_of_le h] at htake
    exact ⟨_, htake⟩
  refine ⟨lead, trail, ?_⟩
  simp only [around, hlead, htrail, List.append_assoc]

/-- With enough room the core takes in the whole text. -/
theorem around_of_length_le (hpre : pre.length ≤ width) (hpost : post.length ≤ width) :
    around pre core post width = pre ++ core ++ post := by
  rw [around, List.rtake, Nat.sub_eq_zero_of_le hpre, List.drop_zero, List.take_of_length_le hpost]

theorem around_zero (pre core post : Text) : around pre core post 0 = core := by
  rw [around, List.rtake, Nat.sub_zero, List.drop_length, List.take_zero, List.append_nil,
    List.nil_append]

theorem occursAt_around (pre core post : Text) (width : Nat) :
    occursAt (pre ++ core ++ post) (around pre core post width) (pre.length - width) = true := by
  have hpre : pre.take (pre.length - width) ++ pre.rtake width = pre := List.take_append_drop _ _
  have hpost : post.take width ++ post.drop width = post := List.take_append_drop _ _
  refine occursAt_iff.mpr ⟨pre.take (pre.length - width), post.drop width, ?_, ?_⟩
  · calc pre ++ core ++ post
        = pre.take (pre.length - width) ++ pre.rtake width ++ core
            ++ (post.take width ++ post.drop width) := by rw [hpre, hpost]
      _ = pre.take (pre.length - width) ++ around pre core post width ++ post.drop width := by
          simp only [around, List.append_assoc]
  · rw [List.length_take]
    omega

theorem padded_eq_around (pre core post : Text) (width : Nat) :
    padded (pre ++ core ++ post) pre.length (pre ++ core).length width
      = around pre core post width := by
  have hstop : (pre ++ core ++ post).take
      (min ((pre ++ core).length + width) (pre ++ core ++ post).length)
        = pre ++ (core ++ post.take width) := by
    rw [← List.take_take, List.take_length, List.take_append,
      List.take_of_length_le (Nat.le_add_right _ _), Nat.add_sub_cancel_left, List.append_assoc]
  rw [padded, slice, hstop, List.drop_append_of_le_length (Nat.sub_le _ _), around, List.rtake,
    List.append_assoc]

/-- A core that stands in one place with some room stands in one place with more. -/
theorem StandsOnlyAt.around_of_le (h : width ≤ width')
    (honly : StandsOnlyAt (pre ++ core ++ post) (around pre core post width)
      (pre.length - width)) :
    StandsOnlyAt (pre ++ core ++ post) (around pre core post width') (pre.length - width') := by
  obtain ⟨lead, trail, hwide⟩ : ∃ lead trail,
      around pre core post width' = lead ++ around pre core post width ++ trail :=
    Text.around_of_le h
  have hstands := occursAt_around pre core post width'
  rw [hwide] at hstands ⊢
  refine StandsOnlyAt.widen ?_ hstands
  -- the wider stretch begins as much earlier as there is of it before the narrower one
  have hsame := (honly _).mp (occursAt_inner hstands)
  rw [hsame]
  exact honly

end Text

/-! ## Rounds -/

namespace Hunk

/-- The context of a core in a text settles in so many rounds: with as many margins on each side the
pattern is settled, and with fewer it is not. -/
structure SettlesIn (margin : Nat) (pre core post : Text) (rounds : Nat) : Prop where
  settled : isSettled (pre ++ core ++ post) margin
    (Text.around pre core post (rounds * margin)) = true
  unsettled : ∀ k < rounds, ¬isSettled (pre ++ core ++ post) margin
    (Text.around pre core post (k * margin)) = true

variable {pre core post : Text} {margin rounds : Nat}

/-- The context settles sooner or later, since it takes in the whole text in the end. -/
theorem exists_settlesIn (hne : pre ++ core ++ post ≠ []) (hpos : 1 ≤ margin) :
    ∃ rounds, SettlesIn margin pre core post rounds := by
  have hend : ∃ rounds, isSettled (pre ++ core ++ post) margin
      (Text.around pre core post (rounds * margin)) = true := by
    refine ⟨settledLength, ?_⟩
    rw [← Text.padded_eq_around]
    exact isSettled_of_le hne (by simp) (by simp) (Nat.le_mul_of_pos_right _ hpos) margin
  exact ⟨Nat.find hend, Nat.find_spec hend, fun k hk => Nat.find_min hend hk⟩

/-- As long as a pattern is not settled it is short, and there is more text on one side at least; so
the room it was given is small. -/
theorem width_lt_of_not_settled {width : Nat} (hne : pre ++ core ++ post ≠ [])
    (hm : 2 * margin < wordLimit)
    (h : ¬isSettled (pre ++ core ++ post) margin (Text.around pre core post width) = true) :
    width + 2 * margin < settledLength := by
  rw [isSettled, Bool.or_eq_true, decide_eq_true_eq, not_or, wrap_of_lt hm, Nat.not_le,
    Text.length_around] at h
  obtain ⟨honce, hshort⟩ := h
  have hside : width < pre.length ∨ width < post.length := by
    by_contra hnone
    rw [Text.around_of_length_le (by omega) (by omega)] at honce
    exact honce (occursOnce_self hne)
  omega

namespace SettlesIn

/-- One margin more than it takes to settle is no more than one margin, or than 31 characters. -/
theorem width_le (h : SettlesIn margin pre core post rounds) (hne : pre ++ core ++ post ≠ [])
    (hm : 2 * margin < wordLimit) : (rounds + 1) * margin ≤ max 31 margin := by
  cases rounds with
  | zero =>
      rw [Nat.zero_add, Nat.one_mul]
      exact Nat.le_max_right _ _
  | succ k =>
      have hlast := width_lt_of_not_settled hne hm (h.unsettled k (Nat.lt_succ_self k))
      have hsum : (k + 1 + 1) * margin = k * margin + 2 * margin := Nat.add_mul k 2 margin
      rw [settledLength] at hlast
      omega

theorem rounds_lt (h : SettlesIn margin pre core post rounds) (hne : pre ++ core ++ post ≠ [])
    (hpos : 1 ≤ margin) (hm : 2 * margin < wordLimit) : rounds < settledLength := by
  cases rounds with
  | zero => decide
  | succ k =>
      have hlast := width_lt_of_not_settled hne hm (h.unsettled k (Nat.lt_succ_self k))
      have hk : k ≤ k * margin := Nat.le_mul_of_pos_right k hpos
      omega

/-- **The loop ends after these rounds**, with no fault on the way, however many more steps it is
given. -/
theorem growthChecked_eq (h : SettlesIn margin pre core post rounds) (hm : 2 * margin < wordLimit)
    (hroom : (pre ++ core ++ post).length + rounds * margin < wordLimit) (more k steps : Nat)
    (hk : k + more = rounds) (hsteps : more < steps) :
    growthChecked (pre ++ core ++ post) pre.length (pre ++ core).length margin steps (k * margin)
      (Text.around pre core post (k * margin)) = .ok (rounds * margin) := by
  induction more generalizing k steps with
  | zero =>
      obtain ⟨steps, rfl⟩ : ∃ n, steps = n + 1 := ⟨steps - 1, by omega⟩
      obtain rfl : k = rounds := hk
      rw [growthChecked, isSettledChecked_eq (by omega) hm, ok_bind, if_pos h.settled]
      rfl
  | succ more ih =>
      obtain ⟨steps, rfl⟩ : ∃ n, steps = n + 1 := ⟨steps - 1, by omega⟩
      have hnot := h.unsettled k (by omega)
      have hnext : k * margin + margin = (k + 1) * margin := (Nat.succ_mul k margin).symm
      have hle : (k + 1) * margin ≤ rounds * margin := Nat.mul_le_mul_right margin (by omega)
      have hstart : pre.length ≤ (pre ++ core).length := by simp
      have hstop : (pre ++ core).length ≤ (pre ++ core ++ post).length := by simp
      have hpattern := Text.padded_eq_around pre core post ((k + 1) * margin)
      rw [Text.padded] at hpattern
      rw [growthChecked, isSettledChecked_eq (by omega) hm, ok_bind, if_neg hnot,
        Word.add_of_lt (by omega), ok_bind, hnext, Word.add_of_lt (by omega), ok_bind,
        Text.cut_of_le (by omega) (by omega), ok_bind, hpattern]
      exact ih (k + 1) steps (by omega) (by omega)

/-- The last margin does not bring the sums past a word. -/
theorem room (h : SettlesIn margin pre core post rounds) (hne : pre ++ core ++ post ≠ [])
    (hm : margin ≤ maxPosition) (hsize : (pre ++ core ++ post).length ≤ maxPosition) :
    (pre ++ core ++ post).length + (rounds * margin + margin) < wordLimit := by
  have hwidth := h.width_le hne (twice_lt_iff.mpr hm)
  have hnext : (rounds + 1) * margin = rounds * margin + margin := Nat.succ_mul rounds margin
  rw [maxPosition_eq] at hm hsize
  rw [wordLimit_eq]
  omega

/-- The loop begins with the bare core. -/
theorem ends (h : SettlesIn margin pre core post rounds) (hne : pre ++ core ++ post ≠ [])
    (hm : margin ≤ maxPosition) (hsize : (pre ++ core ++ post).length ≤ maxPosition) {steps : Nat}
    (hsteps : rounds < steps) :
    growthChecked (pre ++ core ++ post) pre.length (pre ++ core).length margin steps 0 core
      = .ok (rounds * margin) := by
  have hroom := h.room hne hm hsize
  have hrun := h.growthChecked_eq (twice_lt_iff.mpr hm) (by omega) rounds 0 steps (Nat.zero_add _)
    hsteps
  rwa [Nat.zero_mul, Text.around_zero] at hrun

/-- The loop that takes sums as they come ends after the same rounds. -/
theorem growth_eq (h : SettlesIn margin pre core post rounds) (hne : pre ++ core ++ post ≠ [])
    (hpos : 1 ≤ margin) (hm : margin ≤ maxPosition)
    (hsize : (pre ++ core ++ post).length ≤ maxPosition) :
    growth (pre ++ core ++ post) pre.length (pre ++ core).length margin (settledLength + 1) 0
      = some (rounds * margin) := by
  have hdouble := twice_lt_iff.mpr hm
  have hle : pre.length ≤ (pre ++ core).length := by simp
  have hle' : (pre ++ core).length ≤ (pre ++ core ++ post).length := by simp
  obtain ⟨grown, hgrown, -⟩ := growth_of_le hle hle' hm hsize
  have hsteps : (pre ++ core ++ post).length + 0 + 16 * (settledLength + 1) < wordLimit := by
    rw [maxPosition_eq] at hsize
    rw [wordLimit_eq, settledLength]
    omega
  have hchecked := Hunk.growthChecked_eq hne hle hle' hpos hdouble settledLength 0 (by omega)
    hsteps hgrown
  rw [Text.padded_eq_around, Text.around_zero] at hchecked
  have hlt := h.rounds_lt hne hpos hdouble
  have hends := h.ends hne hm hsize (Nat.lt_succ_of_lt hlt)
  rw [hgrown, Except.ok.inj (hchecked.symm.trans hends)]

/-- A hunk gets what stands around its core, one margin more than it takes to settle. -/
theorem surround_eq_some {g : Hunk} (h : SettlesIn margin pre core post rounds)
    (hne : pre ++ core ++ post ≠ []) (hstart : g.newStart = pre.length)
    (hlength : g.oldLength = core.length) (hpos : 1 ≤ margin) (hm : margin ≤ maxPosition)
    (hsize : (pre ++ core ++ post).length ≤ maxPosition) :
    g.surround (pre ++ core ++ post) margin = some
      (g.surroundBy (pre.rtake ((rounds + 1) * margin)) (post.take ((rounds + 1) * margin))) := by
  have hstop : g.newStart + g.oldLength = (pre ++ core).length := by
    rw [hstart, hlength, List.length_append]
  have hle : g.newStart + g.oldLength ≤ (pre ++ core ++ post).length := by
    rw [hstop]
    simp
  have hgrown : growth (pre ++ core ++ post) g.newStart (g.newStart + g.oldLength) margin
      (settledLength + 1) 0 = some (rounds * margin) := by
    rw [hstop, hstart]
    exact h.growth_eq hne hpos hm hsize
  have hnext : rounds * margin + margin = (rounds + 1) * margin := (Nat.succ_mul rounds margin).symm
  have hlead : Text.slice (pre ++ core ++ post) (pre.length - (rounds + 1) * margin) pre.length
      = pre.rtake ((rounds + 1) * margin) := by
    rw [List.append_assoc]
    exact Text.slice_lead pre (core ++ post) _
  rw [surround_of_growth hne hle hgrown (h.room hne hm hsize), hnext, hstop, hstart, hlead,
    Text.slice_trail]

/-- The pattern that is settled stands in one place only or is long, and so is the one with a margin
more. -/
theorem once_or_long (h : SettlesIn margin pre core post rounds) (hne : pre ++ core ++ post ≠ [])
    (hm : 2 * margin < wordLimit) {width : Nat} (hwidth : rounds * margin ≤ width) :
    Text.StandsOnlyAt (pre ++ core ++ post) (Text.around pre core post width)
        (pre.length - width) ∨
      settledLength - 2 * margin ≤ (Text.around pre core post width).length := by
  have hsettled := h.settled
  rw [isSettled, Bool.or_eq_true, decide_eq_true_eq, wrap_of_lt hm] at hsettled
  rcases hsettled with honce | hlong
  · left
    have hstands := Text.occursAt_around pre core post (rounds * margin)
    exact Text.StandsOnlyAt.around_of_le hwidth
      ((Text.occursOnce_iff_standsOnlyAt hne hstands).mp honce)
  · right
    rw [Text.length_around] at hlong ⊢
    omega

end SettlesIn

/-! ## The context of a hunk -/

/-- The context of a core in a text, as long as it is given: the loop has ended after some rounds, a
margin more is taken on each side as far as the text goes, and this is enough to tell the place. -/
structure Surrounds (margin : Nat) (pre core post lead trail : Text) (rounds : Nat) : Prop where
  settles : SettlesIn margin pre core post rounds
  ends : ∀ steps, rounds < steps →
    growthChecked (pre ++ core ++ post) pre.length (pre ++ core).length margin steps 0 core
      = .ok (rounds * margin)
  lead_eq : lead = pre.rtake ((rounds + 1) * margin)
  trail_eq : trail = post.take ((rounds + 1) * margin)
  lead_le : lead.length ≤ max 31 margin
  trail_le : trail.length ≤ max 31 margin
  told : Text.StandsOnlyAt (pre ++ core ++ post) (lead ++ core ++ trail)
      (pre.length - lead.length) ∨
    settledLength - 2 * margin ≤ (lead ++ core ++ trail).length

/-- **A hunk gets a context that tells its place.** -/
theorem exists_surrounds {h : Hunk} (hne : pre ++ core ++ post ≠ [])
    (hstart : h.newStart = pre.length) (hlength : h.oldLength = core.length) (hpos : 1 ≤ margin)
    (hm : margin ≤ maxPosition) (hsize : (pre ++ core ++ post).length ≤ maxPosition) :
    ∃ rounds lead trail, Surrounds margin pre core post lead trail rounds ∧
      h.surround (pre ++ core ++ post) margin = some (h.surroundBy lead trail) := by
  have hdouble := twice_lt_iff.mpr hm
  obtain ⟨rounds, hrounds⟩ := exists_settlesIn hne hpos
  have hwidth := hrounds.width_le hne hdouble
  have hlast : rounds * margin ≤ (rounds + 1) * margin :=
    Nat.mul_le_mul_right margin (Nat.le_succ rounds)
  have hlead : (pre.rtake ((rounds + 1) * margin)).length
      = min ((rounds + 1) * margin) pre.length := Text.length_rtake _ _
  have htrail : (post.take ((rounds + 1) * margin)).length
      = min ((rounds + 1) * margin) post.length := List.length_take
  have hplace : pre.length - (pre.rtake ((rounds + 1) * margin)).length
      = pre.length - (rounds + 1) * margin := by omega
  refine ⟨rounds, _, _, ?_, hrounds.surround_eq_some hne hstart hlength hpos hm hsize⟩
  exact
    { settles := hrounds
      ends := fun steps hsteps => hrounds.ends hne hm hsize hsteps
      lead_eq := rfl
      trail_eq := rfl
      lead_le := by omega
      trail_le := by omega
      told := by
        rw [hplace]
        exact hrounds.once_or_long hne hdouble hlast }

/-- A hunk that stands behind the hunks `front` and takes the runs `body` of a script, in which they
come between `before` and `after`. The hunks `front` leave the text with the target of `before` and
the source of the rest, and there the hunk reaches to the runs with its first context and the runs
stand between its contexts. -/
structure Anchored (margin : Nat) (before body after : Script) (front : Patch) (h : Hunk) :
    Prop where
  opens : body.OpensWithEdit
  cuts : front.Cuts before
  fits : front.Fits (before ++ body ++ after).source
    (before.target ++ body.source ++ after.source)
  stands : ∃ lead trail, h.edits = context lead ++ body ++ context trail ∧
    h.newStart + lead.length = before.target.length ∧
    (before.target ++ body.source ++ after.source ≠ [] →
      ∃ rounds, Surrounds margin before.target body.source after.source lead trail rounds)

end Hunk

/-! ## The hunks of a patch -/

/-- Every hunk of a patch takes runs of a script and has a context that tells its place. -/
def Patch.Anchored (margin : Nat) (s : Script) (p : Patch) : Prop :=
  ∀ front h back, p = front ++ h :: back → ∃ before body after, s = before ++ body ++ after ∧
    h.Anchored margin before body after front

theorem Patch.anchored_nil (margin : Nat) (s : Script) : Anchored margin s [] := by
  intro front h back hp
  simp at hp

/-- A hunk more at the end. -/
theorem Patch.Anchored.snoc {margin : Nat} {before body after : Script} {p : Patch} {g : Hunk}
    (hp : Anchored margin (before ++ body ++ after) p)
    (hg : g.Anchored margin before body after p) :
    Anchored margin (before ++ body ++ after) (p ++ [g]) := by
  intro front h back hsplit
  rcases last_or_earlier hsplit with ⟨rfl, rfl⟩ | ⟨back, hearlier⟩
  · exact ⟨before, body, after, rfl, hg⟩
  · exact hp front h back hearlier

namespace Draft

/-- What is known of a draft with an open hunk: its finished hunks divide `before` and leave the
text in which the open hunk stands before the source of `after`. -/
structure Stage (s before after : Script) (d : Draft) : Prop where
  script_eq : s = before ++ d.hunk.edits ++ after
  cuts : Patch.Cuts before d.finished.reverse
  fits : Patch.Fits d.finished.reverse s.source d.rolling
  rolling_eq : d.rolling = before.target ++ d.hunk.edits.source ++ after.source
  opens : d.hunk.edits.OpensWithEdit
  newStart_eq : d.hunk.newStart = before.target.length
  oldLength_eq : d.hunk.oldLength = d.hunk.edits.source.length

variable {margin : Nat} {s before trail done todo after : Script} {gone pre tail : Text}
  {d d' c : Draft} {e : Edit}

/-- What the runs behind a draft say of it and what its texts say of it come together. -/
theorem Gathers.stage (hg : d.Gathers before trail done)
    (hf : d.Follows s.source s.target gone pre tail todo) (hs : s = done ++ todo)
    (hopen : d.hunk.edits ≠ []) : d.Stage s before (trail ++ todo) := by
  obtain ⟨hopens, hstart⟩ := hg.opens hopen
  have hscript : s = before ++ d.hunk.edits ++ (trail ++ todo) := by
    rw [hs, hg.done_eq, List.append_assoc]
  have hkept : Script.target trail = Script.source trail :=
    Patch.target_eq_source (by simpa using hg.trail_kept)
  -- both ways of counting give the same text before the hunk and the same one passed behind it
  have htarget : pre ++ (d.hunk.edits.target ++ (tail ++ todo.target))
      = before.target ++ (d.hunk.edits.target ++ (trail.target ++ todo.target)) := by
    rw [← hf.new_eq, hscript]
    simp only [Script.target_append, List.append_assoc]
  obtain ⟨hpre, hrest⟩ := List.append_inj htarget ((hf.starts_eq hopen).2.symm.trans hstart)
  have htail : tail = trail.source :=
    (List.append_cancel_right (List.append_cancel_left hrest)).trans hkept
  exact
    { script_eq := hscript
      cuts := hg.cuts
      fits := hf.fits
      rolling_eq := by
        rw [hf.rolling_eq, hpre, htail]
        simp only [Script.source_append, List.append_assoc]
      opens := hopens
      newStart_eq := hstart
      oldLength_eq := hf.oldLength_eq }

/-- The open hunk gets a context that tells its place. -/
theorem Stage.anchored (h : d.Stage s before after) (hpos : 1 ≤ margin) (hm : margin ≤ maxPosition)
    (hsize : d.rolling.length ≤ maxPosition) {g : Hunk}
    (hg : d.hunk.surround d.rolling margin = some g) :
    g.Anchored margin before d.hunk.edits after d.finished.reverse := by
  refine ⟨h.opens, h.cuts, ?_, ?_⟩
  · rw [← h.script_eq, ← h.rolling_eq]
    exact h.fits
  · rw [h.rolling_eq] at hg hsize
    by_cases hne : before.target ++ d.hunk.edits.source ++ after.source = []
    · -- in an empty text there is no context
      have hempty : ([] : Text).isEmpty = true := rfl
      rw [Hunk.surround, hne, if_pos hempty, Option.some.injEq] at hg
      exact ⟨[], [], by simp [← hg, Hunk.context], by simp [← hg, h.newStart_eq],
        fun hne' => absurd hne hne'⟩
    · obtain ⟨rounds, lead, inner, hsurrounds, hsurround⟩ :=
        Hunk.exists_surrounds hne h.newStart_eq h.oldLength_eq hpos hm hsize
      obtain rfl := Option.some.inj (hsurround.symm.trans hg)
      have hlead : lead.length ≤ before.target.length := by
        rw [hsurrounds.lead_eq, Text.length_rtake]
        exact Nat.min_le_right _ _
      have hstart : (d.hunk.surroundBy lead inner).newStart + lead.length
          = before.target.length := by
        rw [← h.newStart_eq] at hlead ⊢
        exact Nat.sub_add_cancel hlead
      exact ⟨lead, inner, rfl, hstart, fun _ => ⟨rounds, hsurrounds⟩⟩

/-- A draft on its way through a script, with hunks that have a context that tells their place. -/
structure Anchors (margin : Nat) (s done todo : Script) (d : Draft) : Prop where
  script_eq : s = done ++ todo
  underway : d.Underway done todo
  follows : ∃ gone pre tail, d.Follows s.source s.target gone pre tail todo
  anchored : Patch.Anchored margin s d.finished.reverse

theorem anchors_start (margin : Nat) (s : Script) : (start s.source).Anchors margin s [] s where
  script_eq := rfl
  underway := underway_start s.source s
  follows := ⟨[], [], [], follows_start s⟩
  anchored := Patch.anchored_nil margin s

namespace Anchors

/-- The end of a hunk. -/
theorem close (h : d.Anchors margin s done todo) (hpos : 1 ≤ margin) (hm : margin ≤ maxPosition)
    (hsize : s.source.length + s.target.length ≤ maxPosition) (hclose : d.close margin = some c) :
    Patch.Anchored margin s c.finished.reverse := by
  unfold Draft.close at hclose
  split at hclose
  · cases hclose
    exact h.anchored
  · next hopen =>
    simp only [Option.bind_eq_bind, Option.bind_eq_some_iff] at hclose
    obtain ⟨g, hg, hc⟩ := hclose
    cases hc
    obtain ⟨before, trail, hgathers, -⟩ := h.underway
    obtain ⟨gone, pre, tail, hfollows⟩ := h.follows
    have hstage := hgathers.stage hfollows h.script_eq (by simpa using hopen)
    have hrolling := hfollows.lengths_le.1
    have hanchored := hstage.anchored hpos hm (by omega) hg
    have hscript := hstage.script_eq
    rw [List.reverse_cons, hscript]
    exact Patch.Anchored.snoc (hscript ▸ h.anchored) hanchored

/-- A run more keeps the contexts, since it finishes one hunk at most. -/
theorem add (h : d.Anchors margin s done (e :: todo)) (hpos : 1 ≤ margin)
    (hm : margin ≤ maxPosition) (hsize : s.source.length + s.target.length ≤ maxPosition)
    (hadd : d.add margin todo.isEmpty e = some d') : d'.Anchors margin s (done ++ [e]) todo := by
  obtain ⟨gone, pre, tail, hfollows⟩ := h.follows
  obtain ⟨d₁, gone', pre', tail', hadd₁, hfollows'⟩ := hfollows.add hm hsize
  obtain rfl : d' = d₁ := Option.some.inj (hadd.symm.trans hadd₁)
  have hadded := added_of_add hadd
  refine ⟨by rw [h.script_eq, List.append_cons], h.underway.added hadded,
    ⟨gone', pre', tail', hfollows'⟩, ?_⟩
  cases hadded with
  | edit current hkind => exact h.anchored
  | keep hopen hshort hmore => exact h.anchored
  | @close t c hclose hlong hmore =>
      -- what the closed draft passes over leaves its hunks alone
      have hc : Patch.Anchored margin s c.finished.reverse := h.close hpos hm hsize hclose
      exact hc
  | last hopen hshort hlast => exact h.anchored

theorem addAll (h : d.Anchors margin s done todo) (hpos : 1 ≤ margin) (hm : margin ≤ maxPosition)
    (hsize : s.source.length + s.target.length ≤ maxPosition)
    (hadd : d.addAll margin todo = some d') : d'.Anchors margin s (done ++ todo) [] := by
  induction todo generalizing d done with
  | nil =>
      cases hadd
      rwa [List.append_nil]
  | cons e todo ih =>
      obtain ⟨d₁, hd₁, hadd⟩ := addAll_cons_iff.mp hadd
      rw [List.append_cons]
      exact ih (h.add hpos hm hsize hd₁) hadd

end Anchors

end Draft

namespace Patch

/-- Every hunk of the patch for a script has a context that tells its place. -/
theorem anchored_of_make? {s : Script} {margin : Nat} {p : Patch} (hm : margin ≤ maxPosition)
    (hsize : s.source.length + s.target.length ≤ maxPosition)
    (h : make? s.source s margin = some p) : p.Anchored (max margin 1) s := by
  have hpos : 1 ≤ max margin 1 := Nat.le_max_right _ _
  have hm' : max margin 1 ≤ maxPosition := Nat.max_le.mpr ⟨hm, by decide⟩
  rcases make?_cases h with ⟨-, rfl⟩ | ⟨d, c, hd, hc, rfl⟩
  · exact anchored_nil _ s
  · exact ((Draft.anchors_start _ s).addAll hpos hm' hsize hd).close hpos hm' hsize hc

/-- **The context of every hunk tells its place.** The patch for a script whose texts are not too
long is built without a fault. The hunks before a given one leave a text in which the source of its
runs stands between its contexts, and the first context begins at the place of the hunk. If this
text is not empty, the loop that makes the context longer ends, the contexts are what stands around
the runs there, of so many margins on each side as the text holds, and are no longer than a margin
or 31 characters. Together with the runs they stand there in one place only or are long. -/
theorem make?_context {s : Script} {margin : Nat} (hpos : 1 ≤ margin) (hm : margin < sizeLimit)
    (hsource : s.source.length < sizeLimit) (htarget : s.target.length < sizeLimit) :
    ∃ p, makeChecked s.source s margin = .ok p ∧ make? s.source s margin = some p ∧
      ∀ (front : Patch) (h : Hunk) (back : Patch), p = front ++ h :: back →
        ∃ before body after lead trail, s = before ++ body ++ after ∧ body.OpensWithEdit ∧
          front.changes = before.changes ∧
          (∀ o, front.apply s.source o
            = (before.target ++ body.source ++ after.source, front.map fun _ => true)) ∧
          h.edits = Hunk.context lead ++ body ++ Hunk.context trail ∧
          h.newStart + lead.length = before.target.length ∧
          (before.target ++ body.source ++ after.source ≠ [] →
            ∃ rounds,
              Hunk.Surrounds margin before.target body.source after.source lead trail rounds) := by
  have hsize : s.source.length + s.target.length ≤ maxPosition := by
    rw [sizeLimit_eq] at hsource htarget
    rw [maxPosition_eq]
    omega
  have hm' : margin ≤ maxPosition := Nat.le_trans (Nat.le_of_lt hm) (by decide)
  obtain ⟨p, hchecked, hp⟩ := makeChecked_of_le hm' hsize
  obtain ⟨q, hq, -, hwell⟩ := make?_fits_of_le s hm' hsize
  obtain rfl : p = q := Option.some.inj (hp.symm.trans hq)
  have hanchored := anchored_of_make? hm' hsize hp
  rw [Nat.max_eq_left hpos] at hanchored
  refine ⟨p, hchecked, hp, ?_⟩
  rintro front h back rfl
  obtain ⟨before, body, after, rfl, hopens, hcuts, hfits, lead, trail, hedits, hstart,
    hsurrounds⟩ := hanchored front h back rfl
  have hstarts : ∀ g ∈ front, g.newStart ≤ maxPosition :=
    fun g hg => (hwell g (List.mem_append_left _ hg)).newStart_le
  have happly : ∀ o, front.apply (before ++ body ++ after).source o
      = (before.target ++ body.source ++ after.source, front.map fun _ => true) :=
    fun o => apply_of_stands (hfits.stands hstarts) (Nat.zero_le _)
  exact ⟨before, body, after, lead, trail, rfl, hopens, hcuts.changes_eq, happly, hedits,
    hstart, hsurrounds⟩

/-- The first hunk stands in a text of repeats, and its context grows for three rounds. The second
one only inserts, at the end of the text that the first one leaves. -/
theorem make?_context_repeats :
    let s : Script :=
      [⟨.equal, "xabcab".toList⟩, ⟨.delete, ['c']⟩, ⟨.equal, "abcaby".toList⟩,
        ⟨.insert, ['z', 'z']⟩]
    let g : Hunk :=
      ⟨[⟨.equal, "bcab".toList⟩, ⟨.delete, ['c']⟩, ⟨.equal, "abca".toList⟩], 2, 9, 2, 8⟩
    let h : Hunk := ⟨[⟨.equal, ['b', 'y']⟩, ⟨.insert, ['z', 'z']⟩], 10, 2, 10, 4⟩
    (1 < sizeLimit ∧ s.source.length < sizeLimit ∧ s.target.length < sizeLimit) ∧
      makeChecked s.source s 1 = .ok [g, h] ∧ make? s.source s 1 = some [g, h] ∧
      ∃ before body after lead trail rounds, s = before ++ body ++ after ∧ body.OpensWithEdit ∧
        before.target ++ body.source ++ after.source = "xabcababcaby".toList ∧
        h.edits = Hunk.context lead ++ body ++ Hunk.context trail ∧
        Hunk.Surrounds 1 before.target body.source after.source lead trail rounds := by
  intro s g h
  have hm : 1 < sizeLimit := by decide
  have hsource : s.source.length < sizeLimit := by decide
  have htarget : s.target.length < sizeLimit := by decide
  have hmade : make? s.source s 1 = some [g, h] := by decide
  have hfirst : apply [g] s.source ⟨0, 0⟩ = ("xabcababcaby".toList, [true]) := by decide
  obtain ⟨p, hchecked, hp, hcontexts⟩ := make?_context (Nat.le_refl 1) hm hsource htarget
  obtain rfl := Option.some.inj (hp.symm.trans hmade)
  obtain ⟨before, body, after, lead, trail, hs, hopens, -, happly, hedits, -, hsurrounds⟩ :=
    hcontexts [g] h [] rfl
  have hrolling : before.target ++ body.source ++ after.source = "xabcababcaby".toList :=
    congrArg Prod.fst ((happly ⟨0, 0⟩).symm.trans hfirst)
  have hne : before.target ++ body.source ++ after.source ≠ [] := by
    rw [hrolling]
    decide
  obtain ⟨rounds, hrounds⟩ := hsurrounds hne
  exact ⟨⟨hm, hsource, htarget⟩, hchecked, hp, before, body, after, lead, trail, rounds, hs, hopens,
    hrolling, hedits, hrounds⟩

end Patch

end TextHistory
