import TextHistory.Proofs.Patch.Gathering

/-!
# Where the hunks of a patch stand

The hunks of the patch for a script divide it (`Patch.Cuts`): from the first edit that is not in a
hunk yet, a hunk takes a stretch of runs, and only equalities are left out between two hunks. Its
place, counted with the context before its first edit, is where the target of the runs before that
edit ends. This holds for every patch that is made, however large the texts and the margin
(`Patch.cuts_of_make?`).

If the texts are not too long, the patch also fits the source of the script. Then every hunk is
found with all its context at its very place (`Patch.make?_lands`).
-/

set_option autoImplicit false

namespace TextHistory

/-! ## One run more -/

namespace Draft

/-- What becomes of a draft when a run is added to it. -/
inductive Added (margin : Nat) (isLast : Bool) (d : Draft) : Edit → Draft → Prop where
  /-- An edit joins the open hunk, or opens one. -/
  | edit {e : Edit} (current : Text) (hkind : e.kind ≠ .equal) :
      Added margin isLast d e
        { d with
          hunk :=
            { d.opened with
              edits := d.hunk.edits ++ [e]
              oldLength := d.hunk.oldLength + (Script.source [e]).length
              newLength := d.hunk.newLength + (Script.target [e]).length }
          current := current
          position := d.position + (Script.target [e]).length }
  /-- A short kept run stays in the open hunk, when edits may follow. -/
  | keep {t : Text} (hopen : d.hunk.edits ≠ []) (hshort : t.length ≤ wrap (2 * margin))
      (hmore : isLast = false) : Added margin isLast d ⟨.equal, t⟩ (d.keep t)
  /-- A long kept run ends the hunk, if one is open, and is passed over. -/
  | close {t : Text} {c : Draft} (hclose : d.close margin = some c)
      (hlong : d.hunk.edits ≠ [] → wrap (2 * margin) ≤ t.length)
      (hmore : d.hunk.edits ≠ [] → isLast = false → wrap (2 * margin) < t.length) :
      Added margin isLast d ⟨.equal, t⟩ (c.skip t)
  /-- A short kept run at the end of the script is left out of the open hunk. -/
  | last {t : Text} (hopen : d.hunk.edits ≠ []) (hshort : t.length < wrap (2 * margin))
      (hlast : isLast = true) : Added margin isLast d ⟨.equal, t⟩ (d.skip t)

variable {margin : Nat} {isLast : Bool} {d d' : Draft} {t : Text}

theorem opened_eq_self (d : Draft) :
    d.opened = { d.hunk with oldStart := d.opened.oldStart, newStart := d.opened.newStart } := by
  unfold opened
  split <;> rfl

theorem added_of_insert (h : d.insert t = some d') : Added margin isLast d ⟨.insert, t⟩ d' := by
  unfold insert at h
  split at h
  · cases h
  · cases h
    have hadd := @Added.edit margin isLast d ⟨.insert, t⟩ (Text.splice d.current d.position 0 t)
      EditKind.noConfusion
    rw [opened_eq_self] at hadd ⊢
    simpa [Script.source_cons, Script.target_cons] using hadd

theorem added_of_delete (h : d.delete t = some d') : Added margin isLast d ⟨.delete, t⟩ d' := by
  unfold delete at h
  split at h
  · cases h
  · cases h
    have hadd := @Added.edit margin isLast d ⟨.delete, t⟩
      (Text.splice d.current d.position t.length []) EditKind.noConfusion
    rw [opened_eq_self] at hadd ⊢
    simpa [Script.source_cons, Script.target_cons] using hadd

theorem added_of_equal (h : d.equal margin isLast t = some d') :
    Added margin isLast d ⟨.equal, t⟩ d' := by
  unfold equal at h
  split at h
  · next hclosed =>
    -- there is no hunk to end
    cases h
    have hedits : d.hunk.edits = [] := List.isEmpty_iff.mp hclosed
    exact .close (if_pos hclosed) (absurd hedits) (absurd hedits)
  · next hopen =>
    have hopen : d.hunk.edits ≠ [] := by simpa using hopen
    split at h
    · next hkeep =>
      cases h
      exact .keep hopen hkeep.1 (by simpa using hkeep.2)
    · next hkeep =>
      split at h
      · next hlong =>
        obtain ⟨c, hc, rfl⟩ := Option.map_eq_some_iff.mp h
        refine .close hc (fun _ => hlong) fun _ hmore => ?_
        exact Nat.lt_of_not_le fun hshort => hkeep ⟨hshort, by simp [hmore]⟩
      · next hlong =>
        cases h
        refine .last hopen (Nat.lt_of_not_le hlong) ?_
        cases isLast with
        | true => rfl
        | false => exact absurd ⟨by omega, rfl⟩ hkeep

/-- **All that can happen to a draft** when a run is added. -/
theorem added_of_add {e : Edit} (h : d.add margin isLast e = some d') :
    Added margin isLast d e d' := by
  obtain ⟨kind, t⟩ := e
  cases kind with
  | equal => exact added_of_equal h
  | delete => exact added_of_delete h
  | insert => exact added_of_insert h

end Draft

/-! ## Hunks and the runs they take -/

/-- The first run is an edit. -/
def Script.OpensWithEdit (s : Script) : Prop := ∃ e rest, s = e :: rest ∧ e.kind ≠ .equal

theorem Script.OpensWithEdit.append {s : Script} (h : s.OpensWithEdit) (t : Script) :
    Script.OpensWithEdit (s ++ t) := by
  obtain ⟨e, rest, rfl, hkind⟩ := h
  exact ⟨e, rest ++ t, rfl, hkind⟩

/-- A hunk takes the runs `body` of a script, in which they come after `before`: they begin with an
edit and stand between two contexts, and with the first context the hunk reaches to where the target
of `before` ends. -/
structure Hunk.Takes (before body : Script) (h : Hunk) : Prop where
  opens : body.OpensWithEdit
  stands : ∃ lead trail, h.edits = Hunk.context lead ++ body ++ Hunk.context trail ∧
    h.newStart + lead.length = before.target.length

/-- The hunks of a patch divide a script: each takes a stretch of it, one after the other, and what
no hunk takes are equalities. -/
inductive Patch.Cuts : Script → Patch → Prop where
  | kept {s : Script} : (∀ e ∈ s, e.kind = .equal) → Cuts s []
  | hunk {before body kept : Script} {p : Patch} {h : Hunk} :
      Cuts before p → h.Takes before body → (∀ e ∈ kept, e.kind = .equal) →
      Cuts (before ++ body ++ kept) (p ++ [h])

namespace Patch

/-- A hunk of a patch with one hunk more is the one more or one of those before. -/
theorem last_or_earlier {p front back : Patch} {g h : Hunk} (hp : p ++ [g] = front ++ h :: back) :
    (p = front ∧ g = h) ∨ ∃ back', p = front ++ h :: back' := by
  rcases List.eq_nil_or_concat back with rfl | ⟨back, last, rfl⟩
  · obtain ⟨rfl, hlast⟩ := List.append_inj' hp rfl
    exact .inl ⟨rfl, List.singleton_inj.mp hlast⟩
  · rw [List.concat_eq_append, ← List.cons_append, ← List.append_assoc] at hp
    exact .inr ⟨back, (List.append_inj' hp rfl).1⟩

/-- More equalities at the end belong to no hunk either. -/
theorem Cuts.append_kept {s kept : Script} {p : Patch} (h : Cuts s p)
    (hkept : ∀ e ∈ kept, e.kind = .equal) : Cuts (s ++ kept) p := by
  cases h with
  | kept hs => exact .kept (List.forall_mem_append.mpr ⟨hs, hkept⟩)
  | @hunk before body kept' p h hcuts htakes hkept' =>
      rw [List.append_assoc]
      exact .hunk hcuts htakes (List.forall_mem_append.mpr ⟨hkept', hkept⟩)

/-- No hunk is placed behind the end of the target. -/
theorem Cuts.newStart_le {s : Script} {p : Patch} (h : Cuts s p) :
    ∀ g ∈ p, g.newStart ≤ s.target.length := by
  induction h with
  | kept => simp
  | @hunk before body kept p h hcuts htakes hkept ih =>
      obtain ⟨lead, trail, -, hstart⟩ := htakes.stands
      intro g hg
      simp only [Script.target_append, List.length_append]
      rcases List.mem_append.mp hg with hg | hg
      · have := ih g hg
        omega
      · obtain rfl := List.mem_singleton.mp hg
        omega

end Patch

/-- Context is cut from the text before a hunk and after it. -/
theorem Hunk.surroundBy_of_surround {h g : Hunk} {text : Text} {margin : Nat}
    (hg : h.surround text margin = some g) :
    ∃ lead trail, g = h.surroundBy lead trail ∧ lead.length ≤ h.newStart := by
  unfold surround at hg
  split at hg
  · cases hg
    exact ⟨[], [], (h.surroundBy_nil).symm, Nat.zero_le _⟩
  · simp only [Option.bind_eq_bind, Option.bind_eq_some_iff] at hg
    obtain ⟨grown, -, hg⟩ := hg
    split at hg
    · cases hg
    · cases hg
      refine ⟨_, _, rfl, ?_⟩
      simp only [Text.slice, List.length_drop, List.length_take]
      omega

namespace Draft

/-- What becomes of a draft when its open hunk is finished, if there is one. -/
theorem close_cases {d c : Draft} {margin : Nat} (h : d.close margin = some c) :
    (d.hunk.edits = [] ∧ c = d) ∨
      ∃ lead trail, d.hunk.edits ≠ [] ∧ lead.length ≤ d.hunk.newStart ∧
        c = { d with
          finished := d.hunk.surroundBy lead trail :: d.finished
          hunk := Hunk.empty
          rolling := d.current } := by
  unfold close at h
  split at h
  · next hclosed =>
    cases h
    exact .inl ⟨List.isEmpty_iff.mp hclosed, rfl⟩
  · next hopen =>
    simp only [Option.bind_eq_bind, Option.bind_eq_some_iff] at h
    obtain ⟨g, hg, hc⟩ := h
    cases hc
    obtain ⟨lead, trail, rfl, hlead⟩ := Hunk.surroundBy_of_surround hg
    exact .inr ⟨lead, trail, by simpa using hopen, hlead, rfl⟩

/-- A script is added run by run. -/
theorem addAll_cons_iff {d d' : Draft} {margin : Nat} {e : Edit} {rest : Script} :
    d.addAll margin (e :: rest) = some d' ↔
      ∃ d₁, d.add margin rest.isEmpty e = some d₁ ∧ d₁.addAll margin rest = some d' := by
  simp only [addAll, Option.bind_eq_bind, Option.bind_eq_some_iff]

/-- What every run keeps, said of the runs behind and of those to come, holds at the end. -/
theorem addAll_induct {margin : Nat} {motive : Script → Script → Draft → Prop}
    (hstep : ∀ {done todo : Script} {e : Edit} {d d' : Draft}, motive done (e :: todo) d →
      Added margin todo.isEmpty d e d' → motive (done ++ [e]) todo d')
    (done : Script) {todo : Script} {d d' : Draft} (h : motive done todo d)
    (hadd : d.addAll margin todo = some d') : motive (done ++ todo) [] d' := by
  induction todo generalizing d done with
  | nil =>
      cases hadd
      rwa [List.append_nil]
  | cons e todo ih =>
      obtain ⟨d₁, hd₁, hadd⟩ := addAll_cons_iff.mp hadd
      rw [List.append_cons]
      exact ih _ (hstep h (added_of_add hd₁)) hadd

/-- A draft that has taken up the runs `done`: its finished hunks divide `before`, the open hunk
holds what comes then, and the equalities `trail` were passed after that. -/
structure Gathers (before trail done : Script) (d : Draft) : Prop where
  cuts : Patch.Cuts before d.finished.reverse
  done_eq : done = before ++ d.hunk.edits ++ trail
  trail_kept : ∀ e ∈ trail, e.kind = .equal
  position_eq : d.position = done.target.length
  opens : d.hunk.edits ≠ [] →
    d.hunk.edits.OpensWithEdit ∧ d.hunk.newStart = before.target.length

theorem gathers_start (text : Text) : (start text).Gathers [] [] [] where
  cuts := .kept (by simp)
  done_eq := rfl
  trail_kept := by simp
  position_eq := rfl
  opens := fun hopen => absurd rfl hopen

namespace Gathers

variable {before trail done : Script} {d d' c : Draft} {margin : Nat} {isLast : Bool} {e : Edit}

/-- When the open hunk is finished, hunks divide all there was. -/
theorem close (h : d.Gathers before trail done) (hclose : d.close margin = some c) :
    c.Gathers done [] done := by
  have hdone := h.done_eq
  rcases close_cases hclose with ⟨hclosed, rfl⟩ | ⟨lead, inner, hopen, hlead, rfl⟩
  · rw [hclosed, List.append_nil] at hdone
    exact
      { cuts := hdone ▸ h.cuts.append_kept h.trail_kept
        done_eq := by simp [hclosed]
        trail_kept := by simp
        position_eq := h.position_eq
        opens := fun hopen => absurd hclosed hopen }
  · obtain ⟨hopens, hstart⟩ := h.opens hopen
    have htakes : (d.hunk.surroundBy lead inner).Takes before d.hunk.edits := by
      refine ⟨hopens, lead, inner, rfl, ?_⟩
      simp only [Hunk.surroundBy]
      omega
    exact
      { cuts := by
          rw [List.reverse_cons, hdone]
          exact .hunk h.cuts htakes h.trail_kept
        done_eq := by simp [Hunk.empty]
        trail_kept := by simp
        position_eq := h.position_eq
        opens := fun hopen => absurd rfl hopen }

/-- The place of a hunk that is opened now, or that was opened before. -/
theorem newStart_opened (h : d.Gathers before [] done) :
    d.opened.newStart = before.target.length := by
  have hdone := h.done_eq
  unfold opened
  split
  · next hclosed =>
    rw [List.isEmpty_iff.mp hclosed, List.append_nil, List.append_nil] at hdone
    rw [← hdone, ← h.position_eq]
  · next hopen => exact (h.opens (by simpa using hopen)).2

/-- A run more keeps the division; only at the end of the script is one passed behind a hunk. -/
theorem added (h : d.Gathers before [] done) (hadd : Added margin isLast d e d') :
    ∃ before' trail', d'.Gathers before' trail' (done ++ [e]) ∧ (isLast = false → trail' = []) := by
  have hdone := h.done_eq
  have hposition := h.position_eq
  cases hadd with
  | edit current hkind =>
      refine ⟨before, [], ?_, fun _ => rfl⟩
      exact
        { cuts := h.cuts
          done_eq := by simp [hdone]
          trail_kept := by simp
          position_eq := by simp [Script.target_append, hposition]
          opens := fun _ => by
            refine ⟨?_, h.newStart_opened⟩
            by_cases hclosed : d.hunk.edits = []
            · -- the run opens the hunk
              exact ⟨e, [], by simp [hclosed], hkind⟩
            · exact (h.opens hclosed).1.append [e] }
  | @keep t hopen hshort hmore =>
      refine ⟨before, [], ?_, fun _ => rfl⟩
      exact
        { cuts := h.cuts
          done_eq := by simp [Draft.keep, hdone]
          trail_kept := by simp
          position_eq := by
            simp [Draft.keep, Script.target_append, Script.target_cons, hposition]
          opens := fun _ => ⟨(h.opens hopen).1.append [⟨.equal, t⟩], (h.opens hopen).2⟩ }
  | @close t c hclose hlong hmore =>
      have hc := h.close hclose
      have hclosed : c.hunk.edits = [] := by simpa using hc.done_eq
      have hkept : ∀ e ∈ [(⟨.equal, t⟩ : Edit)], e.kind = .equal := by simp
      refine ⟨done ++ [⟨.equal, t⟩], [], ?_, fun _ => rfl⟩
      exact
        { cuts := hc.cuts.append_kept hkept
          done_eq := by simp [Draft.skip, hclosed]
          trail_kept := by simp
          position_eq := by
            simp [Draft.skip, Script.target_append, Script.target_cons, hc.position_eq]
          opens := fun hopen => absurd hclosed hopen }
  | @last t hopen hshort hlast =>
      refine ⟨before, [⟨.equal, t⟩], ?_, fun hmore => by simp [hlast] at hmore⟩
      exact
        { cuts := h.cuts
          done_eq := by simp [Draft.skip, hdone]
          trail_kept := by simp
          position_eq := by
            simp [Draft.skip, Script.target_append, Script.target_cons, hposition]
          opens := h.opens }

end Gathers

/-- A draft on its way through a script: it has taken up the runs `done`, and as long as there are
runs `todo` to come, none was passed behind its open hunk. -/
def Underway (done todo : Script) (d : Draft) : Prop :=
  ∃ before trail, d.Gathers before trail done ∧ (todo ≠ [] → trail = [])

theorem underway_start (text : Text) (s : Script) : (start text).Underway [] s :=
  ⟨[], [], gathers_start text, fun _ => rfl⟩

namespace Underway

variable {done todo : Script} {d d' : Draft} {margin : Nat} {e : Edit}

/-- Before a run, nothing was passed behind the open hunk. -/
theorem gathers (h : d.Underway done (e :: todo)) : ∃ before, d.Gathers before [] done := by
  obtain ⟨before, trail, hg, htrail⟩ := h
  obtain rfl := htrail (List.cons_ne_nil e todo)
  exact ⟨before, hg⟩

theorem added (h : d.Underway done (e :: todo)) (hadd : Added margin todo.isEmpty d e d') :
    d'.Underway (done ++ [e]) todo := by
  obtain ⟨before, hg⟩ := h.gathers
  obtain ⟨before', trail', hg', htrail'⟩ := hg.added hadd
  exact ⟨before', trail', hg', fun hmore => htrail' (by simpa using hmore)⟩

/-- What the runs of a script leave behind. -/
theorem addAll (h : d.Underway done todo) (hadd : d.addAll margin todo = some d') :
    d'.Underway (done ++ todo) [] :=
  addAll_induct added done h hadd

end Underway

end Draft

namespace Patch

/-- How the patch for a script comes about: nothing is edited, or the runs are gathered into hunks,
and the last one is finished. -/
theorem make?_cases {text : Text} {s : Script} {margin : Nat} {p : Patch}
    (h : make? text s margin = some p) :
    ((∀ e ∈ s, e.kind = .equal) ∧ p = []) ∨
      ∃ d c, Draft.addAll (max margin 1) (Draft.start text) s = some d ∧
        d.close (max margin 1) = some c ∧ p = c.finished.reverse := by
  unfold make? at h
  dsimp only at h
  split at h
  · next hall =>
    cases h
    exact .inl ⟨fun e he => by simpa using List.all_eq_true.mp hall e he, rfl⟩
  · simp only [Option.bind_eq_bind, Option.bind_eq_some_iff] at h
    obtain ⟨d, hd, c, hc, hp⟩ := h
    cases hp
    exact .inr ⟨d, c, hd, hc, rfl⟩

/-- **The hunks of the patch for a script divide it**, whatever the text and the margin. -/
theorem cuts_of_make? {text : Text} {s : Script} {margin : Nat} {p : Patch}
    (h : make? text s margin = some p) : p.Cuts s := by
  rcases make?_cases h with ⟨hkept, rfl⟩ | ⟨d, c, hd, hc, rfl⟩
  · exact .kept hkept
  · obtain ⟨before, trail, h₁, -⟩ := (Draft.underway_start text s).addAll hd
    exact (h₁.close hc).cuts

/-- **The hunks of a patch land where they say.** The patch for a script whose texts are not too
long exists, and applied to the source of the script it makes the target of it. Every hunk is found
with its whole context at the very place in its heading, whatever the reach. The lengths in the
headings are those of the source and the target of the hunk, and the hunks divide the script. -/
theorem make?_lands (s : Script) {margin : Nat} (o : Reach) (hm : margin < sizeLimit)
    (hsource : s.source.length < sizeLimit) (htarget : s.target.length < sizeLimit) :
    ∃ p, make? s.source s margin = some p ∧
      p.apply s.source o = (s.target, p.map fun _ => true) ∧
      (∀ front h back, p = front ++ h :: back →
        ∃ t, (Progress.applyAll o ⟨s.source, 0⟩ front).1 = ⟨t, 0⟩ ∧
          h.place? t 0 o = some (h.core, h.newStart, h.newStart)) ∧
      (∀ h ∈ p, h.oldLength = h.edits.source.length ∧ h.newLength = h.edits.target.length) ∧
      p.Cuts s := by
  have hsize : s.source.length + s.target.length ≤ maxPosition := by
    rw [sizeLimit_eq] at hsource htarget
    rw [maxPosition_eq]
    omega
  obtain ⟨p, hp, hfits, hwell⟩ := make?_fits s hm hsize
  have hstarts : ∀ h ∈ p, h.newStart ≤ maxPosition := fun h hh => (hwell h hh).newStart_le
  refine ⟨p, hp, apply_of_stands (hfits.stands hstarts) (Nat.zero_le _), ?_, ?_, cuts_of_make? hp⟩
  · rintro front h back rfl
    exact hfits.place? hstarts o
  · intro h hh
    exact ⟨(hwell h hh).oldLength_eq, (hwell h hh).newLength_eq⟩

/-- Insertions before deletions, empty runs, equalities side by side, and one of exactly twice the
margin, which stays inside its hunk. The second hunk takes more context than the margin. -/
theorem make?_lands_unmerged :
    let s : Script :=
      [⟨.insert, ['x']⟩, ⟨.delete, ['a']⟩, ⟨.equal, []⟩, ⟨.equal, ['b', 'c']⟩, ⟨.delete, ['d']⟩,
        ⟨.equal, "efghij".toList⟩, ⟨.equal, ['e']⟩, ⟨.insert, ['y']⟩, ⟨.delete, []⟩,
        ⟨.equal, ['z']⟩]
    let p : Patch :=
      [⟨[⟨.insert, ['x']⟩, ⟨.delete, ['a']⟩, ⟨.equal, []⟩, ⟨.equal, ['b', 'c']⟩, ⟨.delete, ['d']⟩,
          ⟨.equal, ['e']⟩], 0, 5, 0, 4⟩,
        ⟨[⟨.equal, ['j', 'e']⟩, ⟨.insert, ['y']⟩, ⟨.delete, []⟩, ⟨.equal, ['z']⟩], 8, 3, 8, 4⟩]
    (1 < sizeLimit ∧ s.source.length < sizeLimit ∧ s.target.length < sizeLimit) ∧
      make? s.source s 1 = some p ∧
      p.apply "abcdefghijez".toList ⟨0, 0⟩ = ("xbcefghijeyz".toList, [true, true]) ∧
      (∀ front h back, p = front ++ h :: back →
        ∃ t, (Progress.applyAll ⟨0, 0⟩ ⟨s.source, 0⟩ front).1 = ⟨t, 0⟩ ∧
          h.place? t 0 ⟨0, 0⟩ = some (h.core, h.newStart, h.newStart)) ∧
      p.Cuts s := by
  intro s p
  have hmade : make? s.source s 1 = some p := by decide
  obtain ⟨q, hq, happly, hplaces, -, hcuts⟩ :=
    make?_lands s ⟨0, 0⟩ (show 1 < sizeLimit by decide) (by decide) (by decide)
  obtain rfl : q = p := Option.some.inj (hq.symm.trans hmade)
  exact ⟨by decide, hmade, happly, hplaces, hcuts⟩

end Patch

end TextHistory
