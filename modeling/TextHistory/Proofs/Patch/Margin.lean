import TextHistory.Patch.Checked
import TextHistory.Proofs.Patch.Gathering
import TextHistory.Proofs.Text.Checked

/-!
# Margins a patch can be built with

A margin is taken twice, added up while a pattern is not unique, and added to the end of a hunk.
What comes of it has to be a word. For a script with edits and kept runs that leaves half of all
margins: with a larger one the first kept run is a fault. A script of edits alone has one hunk,
which takes in the whole text, and only the end of the text with the margin more has to be a word.
These conditions are exact (`Script.Admits`, `Patch.make_faultless_iff`), and where they hold, what
is built is the patch for the script.

The context of a hunk grows by at least one character at a time, and so it is settled after no more
steps than a long pattern has characters (`Hunk.growthChecked_eq`). What is counted on the way is no
longer than the source and the target of the script together (`Draft.Follows.counts_le`).
-/

set_option autoImplicit false

namespace TextHistory

open Outcome

/-! ## The context of a hunk -/

namespace Hunk

variable {text pattern : Text} {start stop margin : Nat}

theorem isSettledChecked_of_once (hword : text.length < wordLimit)
    (honce : occursOnce text pattern = true) (margin : Nat) :
    isSettledChecked text margin pattern = .ok true := by
  rw [isSettledChecked, Text.standsOnce_eq hword]
  show (if occursOnce text pattern = true then _ else _) = _
  rw [if_pos honce]
  rfl

theorem isSettledChecked_eq (hword : text.length < wordLimit) (hm : 2 * margin < wordLimit) :
    isSettledChecked text margin pattern = .ok (isSettled text margin pattern) := by
  cases honce : occursOnce text pattern with
  | true => rw [isSettledChecked_of_once hword honce, isSettled, honce, Bool.true_or]
  | false =>
      rw [isSettledChecked, Text.standsOnce_eq hword]
      show (if occursOnce text pattern = true then _ else _) = _
      rw [honce, if_neg Bool.false_ne_true, Word.mul_of_lt hm, ok_bind, isSettled, honce,
        Bool.false_or, wrap_of_lt hm]
      rfl

/-- A text stands in itself once. -/
theorem occursOnce_self (hne : text ≠ []) : occursOnce text text = true := by
  rw [occursOnce, if_neg (by simpa using hne), decide_eq_true_eq,
    Text.length_occurrences_le_one_iff]
  intro p q hp hq
  have hp := Text.le_of_occursAt hp
  have hq := Text.le_of_occursAt hq
  omega

/-- With enough padding a stretch is long, or it is the whole text. -/
theorem isSettled_of_le (hne : text ≠ []) (hle : start ≤ stop) (hstop : stop ≤ text.length)
    {padding : Nat} (hpadding : settledLength ≤ padding) (margin : Nat) :
    isSettled text margin (text.padded start stop padding) = true := by
  rw [isSettled, Bool.or_eq_true, decide_eq_true_eq, Text.padded]
  by_cases hwhole : start ≤ padding ∧ text.length ≤ stop + padding
  · left
    rw [Nat.sub_eq_zero_of_le hwhole.1, Nat.min_eq_right hwhole.2, Text.slice, List.take_length,
      List.drop_zero]
    exact occursOnce_self hne
  · right
    rw [Text.slice, List.length_drop, List.length_take]
    omega

/-- **The context grows without a fault**, and in no more steps than a long pattern has
characters: every step makes the stretch longer, until it is long or the whole text. -/
theorem growthChecked_eq (hne : text ≠ []) (hle : start ≤ stop) (hstop : stop ≤ text.length)
    (hpos : 1 ≤ margin) (hm : 2 * margin < wordLimit) {grown : Nat} (steps padding : Nat)
    (hsteps : settledLength ≤ padding + steps)
    (hroom : text.length + padding + 16 * (steps + 1) < wordLimit)
    (hgrown : growth text start stop margin (steps + 1) padding = some grown) :
    growthChecked text start stop margin (steps + 1) padding (text.padded start stop padding)
      = .ok grown := by
  induction steps generalizing padding with
  | zero =>
      -- by the last step there is so much padding that the pattern is settled
      have hsettled : isSettled text margin (text.padded start stop padding) = true :=
        isSettled_of_le hne hle hstop hsteps margin
      rw [growth_succ hle hstop (by omega), if_pos hsettled] at hgrown
      rw [growthChecked, isSettledChecked_eq (by omega) hm, ok_bind, if_pos hsettled]
      exact congrArg Except.ok (Option.some.inj hgrown)
  | succ steps ih =>
      rw [growth_succ hle hstop (by omega)] at hgrown
      rw [growthChecked, isSettledChecked_eq (by omega) hm, ok_bind]
      split
      · next hsettled =>
        rw [if_pos hsettled] at hgrown
        exact congrArg Except.ok (Option.some.inj hgrown)
      · next hsettled =>
        have hsmall := margin_lt_of_not_settled hm hsettled
        rw [if_neg hsettled, wrap_of_lt (by omega)] at hgrown
        rw [Word.add_of_lt (by omega), ok_bind, Word.add_of_lt (by omega), ok_bind,
          Text.cut_of_le (by omega) (by omega), ok_bind]
        exact ih (padding + margin) (by omega) (by omega) hgrown

theorem surroundByChecked_eq {h : Hunk} {lead trail : Text} (holdStart : lead.length ≤ h.oldStart)
    (hnewStart : lead.length ≤ h.newStart)
    (holdLength : h.oldLength + (lead.length + trail.length) < wordLimit)
    (hnewLength : h.newLength + (lead.length + trail.length) < wordLimit) :
    h.surroundByChecked lead trail = .ok (h.surroundBy lead trail) := by
  rw [surroundByChecked, Word.add_of_lt (by omega), ok_bind, Word.sub_of_le holdStart, ok_bind,
    Word.sub_of_le hnewStart, ok_bind, Word.add_of_lt holdLength, ok_bind,
    Word.add_of_lt hnewLength]
  rfl

/-- A hunk whose source lies inside a text, in the same place by both of its starts, and whose
target leaves room in a word for the length of the text. -/
structure Inside (h : Hunk) (text : Text) : Prop where
  starts_eq : h.oldStart = h.newStart
  stop_le : h.newStart + h.oldLength ≤ text.length
  word : h.newLength + text.length < wordLimit

/-- Once it is known how far the context of a hunk grows, the hunk gets it without a fault. -/
theorem surroundChecked_of_growth {h : Hunk} (hi : h.Inside text) (hne : text ≠ []) {grown : Nat}
    (hgrown : growthChecked text h.newStart (h.newStart + h.oldLength) margin (settledLength + 1) 0
      (Text.slice text h.newStart (h.newStart + h.oldLength)) = .ok grown)
    (hroom : text.length + (grown + margin) < wordLimit) :
    h.surroundChecked text margin = .ok (h.surroundBy
      (Text.slice text (h.newStart - (grown + margin)) h.newStart)
      (Text.slice text (h.newStart + h.oldLength)
        (min (h.newStart + h.oldLength + (grown + margin)) text.length))) := by
  obtain ⟨hstarts, hstop, hword⟩ := hi
  have hempty : ¬text.isEmpty = true := by simpa using hne
  have hmin : min h.newStart text.length = h.newStart := by omega
  have hmin' : min (h.newStart + h.oldLength) text.length = h.newStart + h.oldLength := by omega
  have hlead : (Text.slice text (h.newStart - (grown + margin)) h.newStart).length
      ≤ h.newStart := by
    rw [Text.slice, List.length_drop, List.length_take]
    omega
  have htrail : (Text.slice text (h.newStart + h.oldLength)
      (min (h.newStart + h.oldLength + (grown + margin)) text.length)).length
        ≤ text.length - (h.newStart + h.oldLength) := by
    rw [Text.slice, List.length_drop, List.length_take]
    omega
  rw [surroundChecked, if_neg hempty]
  dsimp only
  rw [hmin, Word.add_of_lt (by omega), ok_bind, hmin', Text.cut_of_le (by omega) hstop, ok_bind,
    hgrown, ok_bind, Word.add_of_lt (by omega), ok_bind, Text.cut_of_le (by omega) (by omega),
    ok_bind, Word.add_of_lt (by omega), ok_bind, Text.cut_of_le (by omega) (by omega), ok_bind]
  exact surroundByChecked_eq (by omega) hlead (by omega) (by omega)

/-- **A hunk gets its context without a fault**, when two margins are a word. -/
theorem surroundChecked_eq {h g : Hunk} (hi : h.Inside text) (hpos : 1 ≤ margin)
    (hm : margin ≤ maxPosition) (hsize : text.length ≤ maxPosition)
    (hg : h.surround text margin = some g) : h.surroundChecked text margin = .ok g := by
  by_cases hne : text = []
  · have hempty : text.isEmpty = true := by simpa using hne
    rw [surround, if_pos hempty, Option.some.injEq] at hg
    rw [surroundChecked, if_pos hempty, hg]
  · have hstop := hi.stop_le
    obtain ⟨grown, hgrown, hroom⟩ := growth_of_le
      (Nat.le_add_right h.newStart h.oldLength) hstop hm hsize
    have hpattern : text.padded h.newStart (h.newStart + h.oldLength) 0
        = Text.slice text h.newStart (h.newStart + h.oldLength) := by
      rw [Text.padded, Nat.sub_zero, Nat.add_zero, Nat.min_eq_left hstop]
    have hsteps : text.length + 0 + 16 * (settledLength + 1) < wordLimit := by
      rw [maxPosition_eq] at hsize
      rw [wordLimit_eq, settledLength]
      omega
    have hchecked := growthChecked_eq hne (Nat.le_add_right h.newStart h.oldLength) hstop hpos
      (twice_lt_iff.mpr hm) settledLength 0 (by omega) hsteps hgrown
    rw [hpattern] at hchecked
    rw [surround_of_growth hne hstop hgrown hroom, Option.some.injEq] at hg
    rw [surroundChecked_of_growth hi hne hchecked hroom, hg]

/-! ### A hunk that takes in the whole text -/

/-- A hunk that takes in the whole text stands there once, and so its context does not grow. -/
theorem growth_whole (hne : text ≠ []) (hword : text.length < wordLimit) (margin : Nat) :
    growth text 0 text.length margin (settledLength + 1) 0 = some 0 ∧
      growthChecked text 0 text.length margin (settledLength + 1) 0
        (Text.slice text 0 text.length) = .ok 0 := by
  have hslice : Text.slice text 0 text.length = text := by
    rw [Text.slice, List.take_length, List.drop_zero]
  have hpadded : text.padded 0 text.length 0 = text := by
    rw [Text.padded, Nat.sub_zero, Nat.add_zero, Nat.min_self, hslice]
  constructor
  · rw [growth_succ (Nat.zero_le _) (Nat.le_refl _) hword, hpadded, isSettled,
      occursOnce_self hne, Bool.true_or, if_pos rfl]
  · rw [growthChecked, hslice, isSettledChecked_of_once hword (occursOnce_self hne), ok_bind,
      if_pos rfl]
    rfl

/-- There is no context for a hunk that takes in the whole text, and none is looked for, if the
margin more is still a word. -/
theorem surround_whole {h : Hunk} (hi : h.Inside text) (hstart : h.newStart = 0)
    (hlength : h.oldLength = text.length) (hroom : text = [] ∨ text.length + margin < wordLimit) :
    h.surround text margin = some h ∧ h.surroundChecked text margin = .ok h := by
  by_cases hne : text = []
  · have hempty : text.isEmpty = true := by simpa using hne
    exact ⟨if_pos hempty, if_pos hempty⟩
  · have hroom := hroom.resolve_left hne
    obtain ⟨hgrown, hchecked⟩ := growth_whole hne (by omega) margin
    have hstop : h.newStart + h.oldLength = text.length := by rw [hstart, hlength, Nat.zero_add]
    have hlead : Text.slice text (h.newStart - (0 + margin)) h.newStart = [] := by
      simp [Text.slice, hstart]
    have htrail : Text.slice text (h.newStart + h.oldLength)
        (min (h.newStart + h.oldLength + (0 + margin)) text.length) = [] := by
      simp [Text.slice, hstop]
    have hsurround := surround_of_growth hne hi.stop_le
      (by rw [hstop, hstart]; exact hgrown) (by omega)
    have hsurround' := surroundChecked_of_growth hi hne
      (by rw [hstop, hstart]; exact hchecked) (by omega)
    rw [hlead, htrail, surroundBy_nil] at hsurround hsurround'
    exact ⟨hsurround, hsurround'⟩

/-- The end of such a hunk with the margin more has to be a word. -/
theorem surroundChecked_overflow {h : Hunk} (hi : h.Inside text) (hne : text ≠ [])
    (hstart : h.newStart = 0) (hlength : h.oldLength = text.length) (hmargin : margin < wordLimit)
    (hover : wordLimit ≤ text.length + margin) :
    h.surroundChecked text margin = .error .overflow := by
  have hempty : ¬text.isEmpty = true := by simpa using hne
  have hword : text.length < wordLimit := by
    have := hi.word
    omega
  obtain ⟨-, hchecked⟩ := growth_whole hne hword margin
  rw [surroundChecked, if_neg hempty]
  dsimp only
  rw [hstart, hlength, Nat.zero_min, Word.add_of_lt (by omega), ok_bind, Nat.zero_add, Nat.min_self,
    Text.cut_of_le (Nat.zero_le _) (Nat.le_refl _), ok_bind, hchecked, ok_bind,
    Word.add_of_lt (by omega), ok_bind, Text.cut_of_le (by omega) (Nat.zero_le _), ok_bind,
    Nat.zero_add, Word.add_of_le hover, error_bind]

end Hunk

/-! ## Drafts -/

namespace Draft

namespace Follows

variable {old new gone before trail t : Text} {todo : Script} {d d' : Draft} {margin : Nat}

/-- The open hunk has its source inside the draft's own text. -/
theorem inside (h : d.Follows old new gone before trail todo) (hopen : d.hunk.edits ≠ [])
    (hsize : old.length + new.length ≤ maxPosition) : d.hunk.Inside d.rolling := by
  obtain ⟨hroll, -, htgt, -⟩ := h.lengths_le
  obtain ⟨hstart', hstart⟩ := h.starts_eq hopen
  have hlength := congrArg List.length h.rolling_eq
  simp only [List.length_append] at hlength
  rw [maxPosition_eq] at hsize
  refine ⟨hstart'.trans hstart.symm, ?_, ?_⟩
  · rw [hstart, h.oldLength_eq]
    omega
  · rw [h.newLength_eq, wordLimit_eq]
    omega

/-- What is counted of the next run is no longer than the two texts. -/
theorem counts_le {e : Edit} (h : d.Follows old new gone before [] (e :: todo)) :
    d.position + e.text.length ≤ old.length + new.length ∧
      d.hunk.oldLength + (Script.source [e]).length ≤ old.length ∧
      d.hunk.newLength + (Script.target [e]).length ≤ new.length := by
  have hsource : Script.source (e :: todo) = Script.source [e] ++ todo.source :=
    Script.source_append [e] todo
  have htarget : Script.target (e :: todo) = Script.target [e] ++ todo.target :=
    Script.target_append [e] todo
  have hrun : e.text.length ≤ (Script.source [e]).length + (Script.target [e]).length := by
    obtain ⟨kind, t⟩ := e
    cases kind <;> simp [Script.source_cons, Script.target_cons]
  have hold := congrArg List.length h.old_eq
  have hnew := congrArg List.length h.new_eq
  rw [h.position_eq, h.oldLength_eq, h.newLength_eq]
  simp only [hsource, htarget, List.length_append, List.length_nil] at hold hnew ⊢
  omega

/-- **An edit is added without a fault**, and alike with every margin. -/
theorem addChecked_of_edit {e : Edit} (h : d.Follows old new gone before [] (e :: todo))
    (hsize : old.length + new.length ≤ maxPosition) (hkind : e.kind ≠ .equal) :
    ∃ d', d'.Follows old new gone before [] todo ∧ ∀ margin isLast,
      d.add margin isLast e = some d' ∧ d.addChecked margin isLast e = .ok d' := by
  have hlimit : maxPosition < wordLimit := by decide
  obtain ⟨hposition, hold, hnew⟩ := h.counts_le
  obtain ⟨kind, t⟩ := e
  cases kind with
  | equal => exact absurd rfl hkind
  | insert =>
      obtain ⟨d', hd', h'⟩ := h.insert
      refine ⟨d', h', fun margin isLast => ⟨hd', ?_⟩⟩
      have hlength : d.opened.newLength + t.length ≤ new.length := by
        rw [h.opened_eq]
        simpa [Script.target_cons] using hnew
      rw [Draft.addChecked, Word.add_of_lt (by omega), ok_bind]
      show d.insertChecked t = _
      rw [insertChecked, Word.add_of_lt (by omega), ok_bind, hd']
      rfl
  | delete =>
      obtain ⟨d', hd', h'⟩ := h.delete
      refine ⟨d', h', fun margin isLast => ⟨hd', ?_⟩⟩
      have hlength : d.opened.oldLength + t.length ≤ old.length := by
        rw [h.opened_eq]
        simpa [Script.source_cons] using hold
      rw [Draft.addChecked, Word.add_of_lt (by omega), ok_bind]
      show d.deleteChecked t = _
      rw [deleteChecked, Word.add_of_lt (by omega), ok_bind, hd']
      rfl

/-- A hunk ends without a fault. -/
theorem closeChecked_eq (h : d.Follows old new gone before trail todo) (hpos : 1 ≤ margin)
    (hm : margin ≤ maxPosition) (hsize : old.length + new.length ≤ maxPosition)
    (hd : d.close margin = some d') : d.closeChecked margin = .ok d' := by
  obtain ⟨hroll, -⟩ := h.lengths_le
  by_cases hclosed : d.hunk.edits.isEmpty = true
  · rw [Draft.close, if_pos hclosed, Option.some.injEq] at hd
    rw [Draft.closeChecked, if_pos hclosed, hd]
  · rw [Draft.close, if_neg hclosed] at hd
    obtain ⟨g, hg, hd⟩ := Option.bind_eq_some_iff.mp hd
    have hopen : d.hunk.edits ≠ [] := by simpa using hclosed
    rw [Draft.closeChecked, if_neg hclosed,
      Hunk.surroundChecked_eq (h.inside hopen hsize) hpos hm (by omega) hg, ok_bind,
      ← Option.some.inj hd]
    rfl

theorem equalChecked_eq (h : d.Follows old new gone before [] (⟨.equal, t⟩ :: todo))
    (hpos : 1 ≤ margin) (hm : margin ≤ maxPosition)
    (hsize : old.length + new.length ≤ maxPosition) {isLast : Bool}
    (hd : d.equal margin isLast t = some d') : d.equalChecked margin isLast t = .ok d' := by
  have hlimit : maxPosition < wordLimit := by decide
  have hmul := twice_lt_iff.mpr hm
  obtain ⟨-, hcount, hcount'⟩ := h.counts_le
  have hold : d.hunk.oldLength + t.length ≤ old.length := by
    simpa [Script.source_cons] using hcount
  have hnew : d.hunk.newLength + t.length ≤ new.length := by
    simpa [Script.target_cons] using hcount'
  rw [Draft.equal, wrap_of_lt hmul] at hd
  rw [Draft.equalChecked, Word.mul_of_lt hmul, ok_bind]
  by_cases hclosed : d.hunk.edits.isEmpty = true
  · rw [if_pos hclosed, Option.some.injEq] at hd
    rw [if_neg (by simp [hclosed]), if_neg (by simp [hclosed]), hd]
    rfl
  · -- both take the same of the three ways: to keep the run, to end the hunk, to pass it over
    rw [if_neg hclosed] at hd
    by_cases hkeep : t.length ≤ 2 * margin ∧ (!isLast) = true
    · rw [if_pos hkeep, Option.some.injEq] at hd
      rw [if_pos ⟨hkeep.1, by simpa using hclosed, hkeep.2⟩, keepChecked, Word.add_of_lt (by omega),
        ok_bind, Word.add_of_lt (by omega), ok_bind, hd]
      rfl
    · rw [if_neg hkeep] at hd
      rw [if_neg fun hall => hkeep ⟨hall.1, hall.2.2⟩]
      by_cases hlong : 2 * margin ≤ t.length
      · rw [if_pos hlong] at hd
        obtain ⟨c, hc, hd⟩ := Option.map_eq_some_iff.mp hd
        rw [if_pos ⟨hlong, by simpa using hclosed⟩, h.closeChecked_eq hpos hm hsize hc, ok_bind, hd]
        rfl
      · rw [if_neg hlong, Option.some.injEq] at hd
        rw [if_neg fun hall => hlong hall.1, hd]
        rfl

theorem addChecked_eq {e : Edit} (h : d.Follows old new gone before [] (e :: todo))
    (hpos : 1 ≤ margin) (hm : margin ≤ maxPosition)
    (hsize : old.length + new.length ≤ maxPosition) {isLast : Bool}
    (hd : d.add margin isLast e = some d') : d.addChecked margin isLast e = .ok d' := by
  by_cases hkind : e.kind = .equal
  · have hlimit : maxPosition < wordLimit := by decide
    obtain ⟨hposition, -⟩ := h.counts_le
    obtain ⟨kind, t⟩ := e
    obtain rfl : kind = .equal := hkind
    rw [Draft.addChecked, Word.add_of_lt (by omega), ok_bind]
    exact h.equalChecked_eq hpos hm hsize hd
  · obtain ⟨d₁, -, hsame⟩ := h.addChecked_of_edit hsize hkind
    obtain ⟨hadd, hchecked⟩ := hsame margin isLast
    rw [hchecked, Option.some.inj (hadd.symm.trans hd)]

/-- **A script is added without a fault.** -/
theorem addAllChecked_eq (h : d.Follows old new gone before trail todo) (hpos : 1 ≤ margin)
    (hm : margin ≤ maxPosition) (hsize : old.length + new.length ≤ maxPosition)
    (hd : d.addAll margin todo = some d') : d.addAllChecked margin todo = .ok d' := by
  induction todo generalizing d gone before trail with
  | nil => exact congrArg Except.ok (Option.some.inj hd)
  | cons e todo ih =>
      obtain rfl := h.trail_eq (List.cons_ne_nil e todo)
      obtain ⟨d₁, gone₁, before₁, trail₁, hd₁, h₁⟩ := h.add hm hsize
      rw [Draft.addAll, hd₁] at hd
      rw [Draft.addAllChecked, h.addChecked_eq hpos hm hsize hd₁, ok_bind]
      exact ih h₁ hd

/-- A script of edits alone is added alike with every margin. -/
theorem addAllChecked_of_edits (h : d.Follows old new gone before [] todo)
    (hsize : old.length + new.length ≤ maxPosition) (hedits : ∀ e ∈ todo, e.kind ≠ .equal) :
    ∃ d', d'.Follows old new gone before [] [] ∧ ∀ margin,
      d.addAll margin todo = some d' ∧ d.addAllChecked margin todo = .ok d' := by
  induction todo generalizing d with
  | nil => exact ⟨d, h, fun _ => ⟨rfl, rfl⟩⟩
  | cons e todo ih =>
      rw [List.forall_mem_cons] at hedits
      obtain ⟨d₁, h₁, hadd⟩ := h.addChecked_of_edit hsize hedits.1
      obtain ⟨d₂, h₂, hrest⟩ := ih h₁ hedits.2
      refine ⟨d₂, h₂, fun margin => ?_⟩
      obtain ⟨hd₁, hd₁'⟩ := hadd margin todo.isEmpty
      rw [Draft.addAll, Draft.addAllChecked, hd₁, hd₁', ok_bind]
      exact hrest margin

/-- A kept run is a fault when two margins are no word. -/
theorem addAllChecked_overflow (h : d.Follows old new gone before [] todo)
    (hsize : old.length + new.length ≤ maxPosition) (hm : wordLimit ≤ 2 * margin)
    (hkept : ∃ e ∈ todo, e.kind = .equal) : d.addAllChecked margin todo = .error .overflow := by
  have hlimit : maxPosition < wordLimit := by decide
  induction todo generalizing d with
  | nil => simp at hkept
  | cons e todo ih =>
      rw [Draft.addAllChecked]
      by_cases hkind : e.kind = .equal
      · obtain ⟨hposition, -⟩ := h.counts_le
        rw [Draft.addChecked, Word.add_of_lt (by omega), ok_bind, hkind]
        show d.equalChecked margin todo.isEmpty e.text >>= _ = _
        rw [Draft.equalChecked, Word.mul_of_le hm, error_bind, error_bind]
      · obtain ⟨d₁, h₁, hadd⟩ := h.addChecked_of_edit hsize hkind
        rw [(hadd margin todo.isEmpty).2, ok_bind]
        refine ih h₁ ?_
        obtain ⟨g, hg, hkept⟩ := hkept
        rcases List.mem_cons.mp hg with rfl | hg
        · exact absurd hkept hkind
        · exact ⟨g, hg, hkept⟩

/-! ### A script of edits alone -/

/-- Nothing stands around the hunk that a script of edits alone makes. -/
theorem whole (h : d.Follows old new [] [] [] []) :
    d.rolling = old ∧ d.hunk.oldLength = old.length ∧
      (d.hunk.edits ≠ [] → d.hunk.newStart = 0) := by
  have hold : old = d.hunk.edits.source := by simpa using h.old_eq
  have hrolling : d.rolling = d.hunk.edits.source := by simpa using h.rolling_eq
  exact ⟨hrolling.trans hold.symm, hold ▸ h.oldLength_eq, fun hopen => (h.starts_eq hopen).2⟩

theorem closeChecked_whole (h : d.Follows old new [] [] [] [])
    (hsize : old.length + new.length ≤ maxPosition) :
    ∃ d', ∀ margin, old = [] ∨ old.length + margin < wordLimit →
      d.close margin = some d' ∧ d.closeChecked margin = .ok d' := by
  obtain ⟨hrolling, hlength, hstart⟩ := h.whole
  by_cases hclosed : d.hunk.edits.isEmpty = true
  · exact ⟨d, fun margin _ => ⟨if_pos hclosed, if_pos hclosed⟩⟩
  · have hopen : d.hunk.edits ≠ [] := by simpa using hclosed
    refine ⟨{ d with finished := d.hunk :: d.finished, hunk := Hunk.empty, rolling := d.current },
      fun margin hroom => ?_⟩
    obtain ⟨hsurround, hchecked⟩ := Hunk.surround_whole (h.inside hopen hsize) (hstart hopen)
      (hrolling ▸ hlength) (hrolling ▸ hroom)
    rw [Draft.close, if_neg hclosed, hsurround, Draft.closeChecked, if_neg hclosed, hchecked]
    exact ⟨rfl, rfl⟩

theorem closeChecked_overflow (h : d.Follows old new [] [] [] [])
    (hsize : old.length + new.length ≤ maxPosition) (hne : old ≠ []) (hmargin : margin < wordLimit)
    (hover : wordLimit ≤ old.length + margin) : d.closeChecked margin = .error .overflow := by
  obtain ⟨hrolling, hlength, hstart⟩ := h.whole
  have hopen : d.hunk.edits ≠ [] := by
    intro hclosed
    have hold := h.old_eq
    rw [hclosed] at hold
    exact hne hold
  rw [Draft.closeChecked, if_neg (by simpa using hopen),
    Hunk.surroundChecked_overflow (h.inside hopen hsize) (hrolling ▸ hne) (hstart hopen)
      (hrolling ▸ hlength) hmargin (hrolling ▸ hover), error_bind]

end Follows

end Draft

/-! ## The patch -/

/-- The margins with which the patch for a script can be built: every one if nothing is edited;
otherwise one that is a word when it is taken twice or, if nothing is kept, when it is added to the
length of the source. -/
def Script.Admits (s : Script) (margin : Nat) : Prop :=
  (∀ e ∈ s, e.kind = .equal) ∨ margin ≤ maxPosition ∨
    (∀ e ∈ s, e.kind ≠ .equal) ∧ (s.source = [] ∨ s.source.length + margin < wordLimit)

instance (s : Script) (margin : Nat) : Decidable (s.Admits margin) :=
  inferInstanceAs (Decidable (_ ∨ _ ∨ _ ∧ (_ ∨ _)))

namespace Patch

variable {s : Script} {margin : Nat}

theorem makeChecked_eq_nil {text : Text} (margin : Nat) (h : s.all (·.kind == .equal) = true) :
    makeChecked text s margin = .ok [] := by
  rw [makeChecked, if_pos h]
  rfl

theorem makeChecked_eq_finished {text : Text} {d₁ d₂ : Draft}
    (hedit : ¬s.all (·.kind == .equal) = true)
    (hd₁ : Draft.addAllChecked (max margin 1) (Draft.start text) s = .ok d₁)
    (hd₂ : d₁.closeChecked (max margin 1) = .ok d₂) :
    makeChecked text s margin = .ok d₂.finished.reverse := by
  rw [makeChecked, if_neg hedit, hd₁, ok_bind, hd₂]
  rfl

/-- With a margin that is a word when it is taken twice, no step is a fault. -/
theorem makeChecked_of_le (hm : margin ≤ maxPosition)
    (hsize : s.source.length + s.target.length ≤ maxPosition) :
    ∃ p, makeChecked s.source s margin = .ok p ∧ make? s.source s margin = some p := by
  by_cases hall : s.all (·.kind == .equal) = true
  · exact ⟨[], makeChecked_eq_nil margin hall, make?_eq_nil margin hall⟩
  · have hm' : max margin 1 ≤ maxPosition := Nat.max_le.mpr ⟨hm, by decide⟩
    have hpos : 1 ≤ max margin 1 := Nat.le_max_right _ _
    have h₀ := Draft.follows_start s
    obtain ⟨d₁, gone, before, trail, hd₁, h₁⟩ := h₀.addAll hm' hsize
    obtain ⟨d₂, hd₂, -, -⟩ := h₁.close hm' hsize
    have hd₁' := h₀.addAllChecked_eq hpos hm' hsize hd₁
    have hd₂' := h₁.closeChecked_eq hpos hm' hsize hd₂
    exact ⟨d₂.finished.reverse, makeChecked_eq_finished hall hd₁' hd₂',
      make?_eq_finished hall hd₁ hd₂⟩

/-- The patch for a script of edits alone does not hang on the margin. -/
theorem makeChecked_of_edits (hedits : ∀ e ∈ s, e.kind ≠ .equal)
    (hsize : s.source.length + s.target.length ≤ maxPosition) :
    ∃ p, ∀ margin, s.source = [] ∨ s.source.length + max margin 1 < wordLimit →
      makeChecked s.source s margin = .ok p ∧ make? s.source s margin = some p := by
  by_cases hall : s.all (·.kind == .equal) = true
  · exact ⟨[], fun margin _ => ⟨makeChecked_eq_nil margin hall, make?_eq_nil margin hall⟩⟩
  · obtain ⟨d₁, h₁, hadd⟩ := (Draft.follows_start s).addAllChecked_of_edits hsize hedits
    obtain ⟨d₂, hclose⟩ := h₁.closeChecked_whole hsize
    refine ⟨d₂.finished.reverse, fun margin hroom => ?_⟩
    obtain ⟨hd₁, hd₁'⟩ := hadd (max margin 1)
    obtain ⟨hd₂, hd₂'⟩ := hclose (max margin 1) hroom
    exact ⟨makeChecked_eq_finished hall hd₁' hd₂', make?_eq_finished hall hd₁ hd₂⟩

/-- With a margin that a script admits, its patch is built without a fault, and it fits. -/
theorem makeChecked_of_admits (hadmits : s.Admits margin)
    (hsize : s.source.length + s.target.length ≤ maxPosition) :
    ∃ p, makeChecked s.source s margin = .ok p ∧ make? s.source s margin = some p ∧
      Fits p s.source s.target ∧ ∀ h ∈ p, h.WellFormed := by
  rcases hadmits with hkept | hm | ⟨hedits, hroom⟩
  · have hall : s.all (·.kind == .equal) = true := by simpa using hkept
    refine ⟨[], makeChecked_eq_nil margin hall, make?_eq_nil margin hall, ?_, by simp⟩
    rw [target_eq_source hall]
    exact .nil _
  · obtain ⟨p, hchecked, hp⟩ := makeChecked_of_le hm hsize
    obtain ⟨q, hq, hfits, hwell⟩ := make?_fits_of_le s hm hsize
    obtain rfl := Option.some.inj (hp.symm.trans hq)
    exact ⟨p, hchecked, hp, hfits, hwell⟩
  · -- the patch is the one for a margin of one
    obtain ⟨p, hsame⟩ := makeChecked_of_edits hedits hsize
    obtain ⟨q, hq, hfits, hwell⟩ := make?_fits_of_le s (show 1 ≤ maxPosition by decide) hsize
    have hlimit : maxPosition + 1 < wordLimit := by decide
    obtain ⟨-, hp⟩ := hsame 1 (Or.inr (by omega))
    obtain rfl := Option.some.inj (hp.symm.trans hq)
    obtain ⟨hchecked, hp⟩ := hsame margin (hroom.imp_right fun h => by omega)
    exact ⟨p, hchecked, hp, hfits, hwell⟩

/-- With any other margin a product or a sum is no word. -/
theorem makeChecked_overflow (hadmits : ¬s.Admits margin) (hmargin : margin < wordLimit)
    (hsize : s.source.length + s.target.length ≤ maxPosition) :
    makeChecked s.source s margin = .error .overflow := by
  simp only [Script.Admits, not_or, not_and, Nat.not_le, Nat.not_lt] at hadmits
  obtain ⟨hedit, hm, hroom⟩ := hadmits
  have hall : ¬s.all (·.kind == .equal) = true := by simpa using hedit
  have hmax : max margin 1 = margin := by omega
  have h₀ := Draft.follows_start s
  rw [makeChecked, if_neg hall, hmax]
  by_cases hkept : ∃ e ∈ s, e.kind = .equal
  · have htwice : wordLimit ≤ 2 * margin := Nat.not_lt.mp (mt twice_lt_iff.mp (Nat.not_le.mpr hm))
    rw [h₀.addAllChecked_overflow hsize htwice hkept, error_bind]
  · have hedits : ∀ e ∈ s, e.kind ≠ .equal := fun e he hkind => hkept ⟨e, he, hkind⟩
    obtain ⟨hne, hover⟩ := hroom hedits
    obtain ⟨d₁, h₁, hadd⟩ := h₀.addAllChecked_of_edits hsize hedits
    rw [(hadd margin).2, ok_bind, h₁.closeChecked_overflow hsize hne hmargin hover, error_bind]

/-- **With which margins a patch can be built.** For a script whose texts are not too long no step
is a fault exactly if the script admits the margin. The patch that is built then is the patch for
the script, and applied to the source of the script it makes the target of it, whatever the
reach. -/
theorem make_faultless_iff (s : Script) {margin : Nat} (hmargin : margin < wordLimit)
    (hsource : s.source.length < sizeLimit) (htarget : s.target.length < sizeLimit) :
    ((∃ p, makeChecked s.source s margin = .ok p) ↔ s.Admits margin) ∧
      ∀ p, makeChecked s.source s margin = .ok p →
        make? s.source s margin = some p ∧ ∀ o, p.applyStrict s.source o = .ok s.target := by
  have hsize : s.source.length + s.target.length ≤ maxPosition := by
    rw [sizeLimit_eq] at hsource htarget
    rw [maxPosition_eq]
    omega
  have hadmits : ∀ p, makeChecked s.source s margin = .ok p → s.Admits margin := by
    intro p hp
    refine Decidable.byContradiction fun hnot => ?_
    rw [makeChecked_overflow hnot hmargin hsize] at hp
    cases hp
  refine ⟨⟨fun ⟨p, hp⟩ => hadmits p hp, fun h => ?_⟩, fun p hp => ?_⟩
  · obtain ⟨p, hp, -⟩ := makeChecked_of_admits h hsize
    exact ⟨p, hp⟩
  · obtain ⟨q, hq, hmade, hfits, hwell⟩ := makeChecked_of_admits (hadmits p hp) hsize
    obtain rfl := Except.ok.inj (hp.symm.trans hq)
    exact ⟨hmade, fun o => applyStrict_of_fits o hfits fun h hh => (hwell h hh).newStart_le⟩

/-- The largest margin that is a word when taken twice; the next one is not. A script of edits alone
admits larger ones, up to what its source leaves of the words. -/
theorem make_faultless_iff_largest :
    let s : Script := [⟨.equal, ['a']⟩, ⟨.delete, ['b']⟩, ⟨.equal, ['c']⟩]
    let p : Patch := [⟨[⟨.equal, ['a']⟩, ⟨.delete, ['b']⟩, ⟨.equal, ['c']⟩], 0, 3, 0, 2⟩]
    let t : Script := [⟨.delete, ['b']⟩, ⟨.insert, ['x', 'y']⟩]
    (maxPosition + 1 < wordLimit ∧ s.source.length < sizeLimit ∧ s.target.length < sizeLimit) ∧
      makeChecked s.source s maxPosition = .ok p ∧
      p.applyStrict s.source ⟨0, 0⟩ = .ok ['a', 'c'] ∧
      (¬∃ q, makeChecked s.source s (maxPosition + 1) = .ok q) ∧
      (∃ q, makeChecked t.source t (wordLimit - 2) = .ok q) ∧
      ¬∃ q, makeChecked t.source t (wordLimit - 1) = .ok q := by
  intro s p t
  have hs : s.source.length < sizeLimit ∧ s.target.length < sizeLimit := by decide
  have ht : t.source.length < sizeLimit ∧ t.target.length < sizeLimit := by decide
  have hmade : make? s.source s maxPosition = some p := by decide
  obtain ⟨hiff, hbuilt⟩ :=
    make_faultless_iff s (show maxPosition < wordLimit by decide) hs.1 hs.2
  obtain ⟨q, hq⟩ := hiff.mpr (by decide)
  obtain ⟨hq', happly⟩ := hbuilt q hq
  obtain rfl := Option.some.inj (hq'.symm.trans hmade)
  have hnext := make_faultless_iff s (show maxPosition + 1 < wordLimit by decide) hs.1 hs.2
  have hroom := make_faultless_iff t (show wordLimit - 2 < wordLimit by decide) ht.1 ht.2
  have hfull := make_faultless_iff t (show wordLimit - 1 < wordLimit by decide) ht.1 ht.2
  exact ⟨⟨by decide, hs.1, hs.2⟩, hq, happly ⟨0, 0⟩, mt hnext.1.mp (by decide),
    hroom.1.mpr (by decide), mt hfull.1.mp (by decide)⟩

/-- With the largest word for a margin there is no patch. In checked words a product is a fault;
modulo the number of words, the context asked for would end before it begins. -/
theorem make_overflows :
    let s : Script := [⟨.equal, ['a']⟩, ⟨.delete, ['b']⟩, ⟨.equal, ['c']⟩]
    let margin := wordLimit - 1
    (margin < wordLimit ∧ s.source.length < sizeLimit ∧ s.target.length < sizeLimit) ∧
      (¬∃ p, makeChecked s.source s margin = .ok p) ∧ make? s.source s margin = none := by
  intro s margin
  have hfault : makeChecked s.source s margin = .error .overflow := rfl
  refine ⟨by decide, ?_, by decide⟩
  rintro ⟨p, hp⟩
  rw [hfault] at hp
  cases hp

end Patch

end TextHistory
