import TextHistory.Proofs.Patch.Grouping
import TextHistory.Proofs.Patch.Rejection

/-!
# What a heading says about the place of a hunk

A heading has two starts, but a hunk is given one place. When a hunk is opened, both starts are the
position in the text as the hunks before it leave it, and the context moves both back alike
(`Hunk.Measured`). So the first start of a hunk is not its place in the source of the script. It is
off by what the hunks before it add to the text (`Patch.make?_oldStart`), and right only where these
gains add up to nothing.
-/

set_option autoImplicit false

namespace TextHistory

/-! ## Gains -/

/-- By how much a script makes a text longer. -/
def Script.gain (s : Script) : Int := (s.target.length : Int) - s.source.length

/-- By how much a patch makes a text longer, as the headings of its hunks say. -/
def Patch.gain : Patch → Int
  | [] => 0
  | h :: p => h.gain + gain p

/-- The last hunk adds to what the others do. -/
theorem Patch.gain_concat (p : Patch) (h : Hunk) : gain (p ++ [h]) = gain p + h.gain := by
  induction p with
  | nil => simp [gain]
  | cons g p ih => rw [List.cons_append, gain, gain, ih, Int.add_assoc]

namespace Script

@[simp] theorem gain_append (s r : Script) : gain (s ++ r) = gain s + gain r := by
  simp only [gain, source_append, target_append, List.length_append]
  omega

/-- Equalities add nothing. -/
theorem gain_of_kept {s : Script} (h : ∀ e ∈ s, e.kind = .equal) : gain s = 0 := by
  have hsame : s.target = s.source := Patch.target_eq_source (by simpa using h)
  rw [gain, hsame, Int.sub_self]

@[simp] theorem gain_context (t : Text) : gain (Hunk.context t) = 0 := by
  rw [gain, Hunk.source_context, Hunk.target_context, Int.sub_self]

end Script

/-! ## Headings that measure their hunks -/

/-- Both starts of the heading are the same, and its lengths are those of the two sides of the
hunk. -/
structure Hunk.Measured (h : Hunk) : Prop where
  starts_eq : h.oldStart = h.newStart
  oldLength_eq : h.oldLength = h.edits.source.length
  newLength_eq : h.newLength = h.edits.target.length

theorem Hunk.measured_empty : Hunk.empty.Measured := ⟨rfl, rfl, rfl⟩

namespace Hunk.Measured

variable {h : Hunk}

theorem gain_eq (hh : h.Measured) : h.gain = h.edits.gain := by
  rw [Hunk.gain, Script.gain, hh.oldLength_eq, hh.newLength_eq]

/-- Context moves both starts back and counts for both lengths. -/
theorem surroundBy (hh : h.Measured) (lead trail : Text) : (h.surroundBy lead trail).Measured where
  starts_eq := by simp only [Hunk.surroundBy, hh.starts_eq]
  oldLength_eq := by
    simp only [Hunk.surroundBy, hh.oldLength_eq, Script.source_append, Hunk.source_context,
      List.length_append]
    omega
  newLength_eq := by
    simp only [Hunk.surroundBy, hh.newLength_eq, Script.target_append, Hunk.target_context,
      List.length_append]
    omega

/-- One edit more. -/
theorem append (hh : h.Measured) (e : Edit) :
    ({ h with
        edits := h.edits ++ [e]
        oldLength := h.oldLength + (Script.source [e]).length
        newLength := h.newLength + (Script.target [e]).length } : Hunk).Measured where
  starts_eq := hh.starts_eq
  oldLength_eq := by rw [Script.source_append, List.length_append, ← hh.oldLength_eq]
  newLength_eq := by rw [Script.target_append, List.length_append, ← hh.newLength_eq]

end Hunk.Measured

namespace Draft

/-- The finished hunks are measured, and so is the open one. -/
structure Measured (d : Draft) : Prop where
  finished : ∀ h ∈ d.finished, h.Measured
  hunk : d.hunk.Measured

variable {margin : Nat} {isLast : Bool} {d d' c : Draft} {e : Edit}

theorem measured_start (text : Text) : (start text).Measured where
  finished := by simp [start]
  hunk := Hunk.measured_empty

namespace Measured

/-- A hunk is opened at one place. -/
theorem opened (h : d.Measured) : d.opened.Measured := by
  unfold Draft.opened
  split
  · exact { h.hunk with starts_eq := rfl }
  · exact h.hunk

theorem close (h : d.Measured) (hclose : d.close margin = some c) : c.Measured := by
  rcases close_cases hclose with ⟨-, rfl⟩ | ⟨lead, trail, -, -, rfl⟩
  · exact h
  · refine ⟨List.forall_mem_cons.mpr ⟨?_, h.finished⟩, Hunk.measured_empty⟩
    exact h.hunk.surroundBy lead trail

/-- A run more keeps the hunks measured. -/
theorem added (h : d.Measured) (hadd : Added margin isLast d e d') : d'.Measured := by
  cases hadd with
  | edit current hkind =>
      have hopened := h.opened.append e
      rw [opened_eq_self d] at hopened ⊢
      exact ⟨h.finished, hopened⟩
  | @keep t hopen hshort hmore =>
      have hkeep : (d.keep t).hunk.Measured := by
        simpa [Draft.keep, Script.source_cons, Script.target_cons] using h.hunk.append ⟨.equal, t⟩
      exact ⟨h.finished, hkeep⟩
  | @close t c hclose hlong hmore =>
      have hc := h.close hclose
      exact ⟨hc.finished, hc.hunk⟩
  | @last t hopen hshort hlast => exact ⟨h.finished, h.hunk⟩

theorem addAll {todo : Script} (h : d.Measured) (hadd : d.addAll margin todo = some d') :
    d'.Measured :=
  addAll_induct (motive := fun _ _ c => c.Measured) (fun hc hadded => hc.added hadded) [] h hadd

end Measured

end Draft

/-! ## Starts -/

namespace Patch

/-- Every hunk of the patch for a script is measured, whatever the text and the margin. -/
theorem measured_of_make? {text : Text} {s : Script} {margin : Nat} {p : Patch}
    (h : make? text s margin = some p) : ∀ g ∈ p, g.Measured := by
  rcases make?_cases h with ⟨-, rfl⟩ | ⟨d, c, hd, hc, rfl⟩
  · simp
  · have hmeasured := ((Draft.measured_start text).addAll hd).close hc
    exact fun g hg => hmeasured.finished g (List.mem_reverse.mp hg)

/-- The hunks before a given one divide what comes before the runs it takes. -/
theorem Cuts.split {s : Script} {p front back : Patch} {h : Hunk} (hcuts : p.Cuts s)
    (hp : p = front ++ h :: back) :
    ∃ before body after, s = before ++ body ++ after ∧ front.Cuts before ∧
      h.Takes before body := by
  induction hcuts generalizing back with
  | kept => simp at hp
  | @hunk before body kept p g hcuts htakes hkept ih =>
      rcases last_or_earlier hp with ⟨rfl, rfl⟩ | ⟨back, hearlier⟩
      · exact ⟨before, body, kept, rfl, hcuts, htakes⟩
      · obtain ⟨before', body', after, rfl, hfront, htakes'⟩ := ih hearlier
        refine ⟨before', body', after ++ body ++ kept, ?_, hfront, htakes'⟩
        simp only [List.append_assoc]

/-- A script makes a text longer by what its hunks add. -/
theorem Cuts.gain_eq {s : Script} {p : Patch} (hcuts : p.Cuts s) (hp : ∀ h ∈ p, h.Measured) :
    s.gain = p.gain := by
  induction hcuts with
  | kept hs => rw [Script.gain_of_kept hs, gain]
  | @hunk before body kept p h hcuts htakes hkept ih =>
      obtain ⟨hfront, hh⟩ := List.forall_mem_append.mp hp
      obtain ⟨lead, trail, hedits, -⟩ := htakes.stands
      have hgain : h.gain = body.gain := by
        rw [(hh h (List.mem_singleton_self h)).gain_eq, hedits]
        simp only [Script.gain_append, Script.gain_context, Int.zero_add, Int.add_zero]
      rw [gain_concat, ← ih hfront, hgain]
      simp only [Script.gain_append, Script.gain_of_kept hkept, Int.add_zero]

/-- **The first start of a heading counts characters of the text that the hunks before leave.** Both
starts of a hunk are the same. The runs before its first edit are those whose changes the earlier
hunks make. With the context before that edit, the first start is as many characters as these runs
take from the source, and what the earlier hunks add. So it is the place in the source exactly if
these add nothing. If the texts are not too long, there is a patch. -/
theorem make?_oldStart {s : Script} {margin : Nat} (hm : margin < sizeLimit) :
    (s.source.length < sizeLimit → s.target.length < sizeLimit →
      ∃ p, make? s.source s margin = some p ∧ p.Fits s.source s.target) ∧
    ∀ p, make? s.source s margin = some p →
      ∀ (front : Patch) (h : Hunk) (back : Patch), p = front ++ h :: back →
      ∃ before body after lead trail, s = before ++ body ++ after ∧ body.OpensWithEdit ∧
        front.changes = before.changes ∧
        h.edits = Hunk.context lead ++ body ++ Hunk.context trail ∧
        h.oldStart = h.newStart ∧
        (h.oldStart + lead.length : Int) = before.source.length + front.gain ∧
        (h.oldStart + lead.length = before.source.length ↔ front.gain = 0) := by
  refine ⟨exists_fits s hm, ?_⟩
  rintro p hp front h back rfl
  have hmeasured := measured_of_make? hp
  obtain ⟨hfront, hback⟩ := List.forall_mem_append.mp hmeasured
  have hstarts : h.oldStart = h.newStart := (hback h List.mem_cons_self).starts_eq
  obtain ⟨before, body, after, hs, hcuts, htakes⟩ := (cuts_of_make? hp).split rfl
  obtain ⟨lead, trail, hedits, hplace⟩ := htakes.stands
  have hgain : (before.target.length : Int) - before.source.length = front.gain :=
    hcuts.gain_eq hfront
  refine ⟨before, body, after, lead, trail, hs, htakes.opens, hcuts.changes_eq, hedits, hstarts, ?_,
    ?_⟩
  · omega
  · omega

/-- An insertion first, then a deletion as long, and a third hunk, whose first start is right. -/
theorem make?_oldStart_balanced :
    let s : Script :=
      [⟨.insert, ['x']⟩, ⟨.equal, "abcdefgh".toList⟩, ⟨.delete, ['i']⟩, ⟨.equal, "jklm".toList⟩,
        ⟨.insert, ['y']⟩]
    let front : Patch :=
      [⟨[⟨.insert, ['x']⟩, ⟨.equal, ['a', 'b']⟩], 0, 2, 0, 3⟩,
        ⟨[⟨.equal, ['h']⟩, ⟨.delete, ['i']⟩, ⟨.equal, ['j']⟩], 8, 3, 8, 2⟩]
    let h : Hunk := ⟨[⟨.equal, ['l', 'm']⟩, ⟨.insert, ['y']⟩], 11, 2, 11, 3⟩
    (1 < sizeLimit ∧ s.source.length < sizeLimit ∧ s.target.length < sizeLimit) ∧
      make? s.source s 1 = some (front ++ [h]) ∧
      Fits (front ++ [h]) s.source s.target ∧
      front.gain = 0 ∧
      ∃ before body after lead trail, s = before ++ body ++ after ∧ body.OpensWithEdit ∧
        front.changes = before.changes ∧
        h.edits = Hunk.context lead ++ body ++ Hunk.context trail ∧
        h.oldStart + lead.length = before.source.length := by
  intro s front h
  have hm : 1 < sizeLimit := by decide
  have hsource : s.source.length < sizeLimit := by decide
  have htarget : s.target.length < sizeLimit := by decide
  have hmade : make? s.source s 1 = some (front ++ [h]) := by decide
  have hnothing : front.gain = 0 := by decide
  obtain ⟨hexists, hstarts⟩ := make?_oldStart (s := s) hm
  obtain ⟨p, hp, hfits⟩ := hexists hsource htarget
  obtain rfl := Option.some.inj (hp.symm.trans hmade)
  obtain ⟨before, body, after, lead, trail, hs, hopens, hchanges, hedits, -, -, hright⟩ :=
    hstarts _ hp front h [] rfl
  exact ⟨⟨hm, hsource, htarget⟩, hmade, hfits, hnothing, before, body, after, lead, trail, hs,
    hopens, hchanges, hedits, hright.mpr hnothing⟩

/-- Behind an insertion of one character, the first start of the second hunk is one too many. -/
theorem make?_oldStart_shifted :
    let before : Script := [⟨.insert, ['x']⟩, ⟨.equal, "abcdefgh".toList⟩]
    let body : Script := [⟨.delete, ['i']⟩]
    let s : Script := before ++ body
    let front : Patch := [⟨[⟨.insert, ['x']⟩, ⟨.equal, ['a', 'b']⟩], 0, 2, 0, 3⟩]
    let h : Hunk := ⟨[⟨.equal, ['h']⟩, ⟨.delete, ['i']⟩], 8, 2, 8, 1⟩
    s.Normal ∧ make? s.source s 1 = some (front ++ [h]) ∧ body.OpensWithEdit ∧
      front.changes = before.changes ∧ h.edits = Hunk.context ['h'] ++ body ++ Hunk.context [] ∧
      h.oldStart + ['h'].length = before.source.length + 1 := by
  intro before body s front h
  have hopens : body.OpensWithEdit := ⟨_, _, rfl, EditKind.noConfusion⟩
  exact ⟨by decide, by decide, hopens, rfl, rfl, rfl⟩

end Patch

end TextHistory
