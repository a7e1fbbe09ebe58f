import TextHistory.Proofs.Edit.NormalForm
import TextHistory.Proofs.Patch.Layout

/-!
# Which changes share a hunk

The deletions and insertions of a script are its *changes*. The hunks of a patch make the changes of
the script in their order, each of them once (`Patch.Cuts.changes_eq`). What a draft has gathered it
keeps (`Draft.Keeps`), so it is settled where the next run is added whether a hunk goes on: an
equality of at most twice the margin stays in the hunk, between the changes on its two sides, and a
longer one parts them (`Draft.joins_or_not_together`).

For a script in normal form nothing else is in a hunk: behind its leading context it begins with a
change, before its trailing context it ends with one, and the equalities in between are short ones
of the script (`Hunk.Holds`).
-/

set_option autoImplicit false

namespace TextHistory

/-! ## Changes -/

namespace Script

/-- The deletions and insertions of a script. -/
def changes (s : Script) : Script := s.filter (·.kind != .equal)

@[simp] theorem changes_append (s r : Script) : changes (s ++ r) = changes s ++ changes r :=
  List.filter_append s r

theorem changes_of_kept {s : Script} (h : ∀ e ∈ s, e.kind = .equal) : changes s = [] := by
  rw [changes, List.filter_eq_nil_iff]
  intro e he
  simp [h e he]

theorem changes_cons_of_ne {e : Edit} (h : e.kind ≠ .equal) (s : Script) :
    changes (e :: s) = e :: changes s :=
  List.filter_cons_of_pos (by simpa using h)

@[simp] theorem changes_context (t : Text) : changes (Hunk.context t) = [] := by
  refine changes_of_kept fun e he => ?_
  unfold Hunk.context at he
  split at he
  · cases he
  · rw [List.mem_singleton.mp he]

end Script

namespace Patch

/-- The changes that a patch makes, hunk by hunk. -/
def changes (p : Patch) : Script := p.flatMap fun h => h.edits.changes

@[simp] theorem changes_append (p q : Patch) : changes (p ++ q) = changes p ++ changes q :=
  List.flatMap_append

theorem changes_cons (h : Hunk) (p : Patch) : changes (h :: p) = h.edits.changes ++ changes p :=
  List.flatMap_cons

theorem changes_singleton (h : Hunk) : changes [h] = h.edits.changes :=
  List.flatMap_singleton _ _

/-- **The hunks of a patch make the changes of the script**, in order, and each of them once. -/
theorem Cuts.changes_eq {s : Script} {p : Patch} (h : p.Cuts s) : p.changes = s.changes := by
  induction h with
  | kept hs => rw [Script.changes_of_kept hs, changes, List.flatMap_nil]
  | @hunk before body kept p h hcuts htakes hkept ih =>
      obtain ⟨lead, trail, hedits, -⟩ := htakes.stands
      simp only [changes_append, changes_singleton, ih, hedits, Script.changes_append,
        Script.changes_context, Script.changes_of_kept hkept, List.append_nil, List.nil_append]

/-- The changes with the numbers `k` and `k + 1` are made by one hunk. -/
def Together (p : Patch) (k : Nat) : Prop :=
  ∃ (front : Patch) (h : Hunk) (back : Patch), p = front ++ h :: back ∧
    front.changes.length ≤ k ∧ k + 1 < (changes (front ++ [h])).length

/-- A hunk has the runs `mid` side by side. The changes before these are those of `pre`, and the
changes behind them are those of `post`. -/
def Joins (p : Patch) (pre mid post : Script) : Prop :=
  ∃ (front : Patch) (h : Hunk) (back : Patch) (left right : Script), p = front ++ h :: back ∧
    h.edits = left ++ mid ++ right ∧ front.changes ++ left.changes = pre.changes ∧
    right.changes ++ back.changes = post.changes

/-- Runs side by side in a hunk have their changes in one hunk. -/
theorem Joins.together {p : Patch} {pre mid post : Script} (h : p.Joins pre mid post)
    (hmid : 2 ≤ mid.changes.length) : p.Together pre.changes.length := by
  obtain ⟨front, h, back, left, right, hp, hedits, hpre, -⟩ := h
  refine ⟨front, h, back, hp, ?_, ?_⟩
  · rw [← hpre, List.length_append]
    omega
  · rw [changes_append, changes_singleton, hedits, ← hpre]
    simp only [Script.changes_append, List.length_append]
    omega

/-- Changes are not made by one hunk when a hunk ends between them. -/
theorem not_together_append {front back : Patch} {k : Nat} (hk : front.changes.length = k + 1) :
    ¬Together (front ++ back) k := by
  rintro ⟨front', h, back', hp, hle, hlt⟩
  rcases List.append_eq_append_iff.mp hp with ⟨between, rfl, -⟩ | ⟨between, rfl, hback⟩
  · -- the hunk stands behind the place where the other one ends
    rw [changes_append, List.length_append] at hle
    omega
  · cases between with
    | nil =>
        rw [List.append_nil] at hk
        omega
    | cons g between =>
        obtain ⟨rfl, -⟩ := List.cons.inj hback
        rw [List.append_cons, changes_append, List.length_append] at hk
        omega

end Patch

/-! ## What a draft keeps -/

namespace Draft

variable {margin : Nat} {isLast : Bool} {d d₁ d' c : Draft} {e : Edit} {before trail done : Script}

/-- What a draft has gathered is kept by a later one: its finished hunks are still there, and its
open hunk is still open or is finished as well, with more behind. -/
inductive Keeps (d d' : Draft) : Prop where
  | still (more : Script) : d'.finished = d.finished → d'.hunk.edits = d.hunk.edits ++ more →
      Keeps d d'
  | closed (h : Hunk) (lead trail : Text) (more : Script) (back : Patch) :
      d'.finished.reverse = d.finished.reverse ++ h :: back →
      h.edits = Hunk.context lead ++ (d.hunk.edits ++ more) ++ Hunk.context trail → Keeps d d'

namespace Keeps

theorem refl (d : Draft) : Keeps d d := .still [] rfl (List.append_nil _).symm

theorem trans (h : Keeps d d₁) (h' : Keeps d₁ d') : Keeps d d' := by
  cases h with
  | still more hfinished hedits =>
      cases h' with
      | still more' hfinished' hedits' =>
          refine .still (more ++ more') (hfinished'.trans hfinished) ?_
          rw [hedits', hedits, List.append_assoc]
      | closed g lead trail more' back hfinished' hedits' =>
          refine .closed g lead trail (more ++ more') back (hfinished ▸ hfinished') ?_
          rw [hedits', hedits, List.append_assoc d.hunk.edits]
  | closed g lead trail more back hfinished hedits =>
      cases h' with
      | still more' hfinished' _ =>
          exact .closed g lead trail more back (hfinished' ▸ hfinished) hedits
      | closed g' _ _ _ back' hfinished' _ =>
          refine .closed g lead trail more (back ++ g' :: back') ?_ hedits
          rw [hfinished', hfinished, List.append_assoc, List.cons_append]

theorem of_close (h : d.close margin = some c) : Keeps d c := by
  rcases close_cases h with ⟨-, rfl⟩ | ⟨lead, trail, -, -, rfl⟩
  · exact refl c
  · refine .closed (d.hunk.surroundBy lead trail) lead trail [] [] (List.reverse_cons ..) ?_
    rw [List.append_nil]
    rfl

theorem of_added (h : Added margin isLast d e d') : Keeps d d' := by
  cases h with
  | edit current hkind => exact .still [e] rfl rfl
  | @keep t hopen hshort hmore => exact .still [⟨.equal, t⟩] rfl rfl
  | @close t c hclose hlong hmore =>
      have hskip : Keeps c (c.skip t) := .still [] rfl (List.append_nil _).symm
      exact (of_close hclose).trans hskip
  | @last t hopen hshort hlast => exact .still [] rfl (List.append_nil _).symm

theorem of_addAll {todo : Script} (h : d.addAll margin todo = some d') : Keeps d d' :=
  addAll_induct (motive := fun _ _ c => Keeps d c)
    (fun hkeeps hadd => hkeeps.trans (of_added hadd)) [] (refl d) h

/-- Finished hunks stay where they are. -/
theorem finished (h : Keeps d d') : ∃ back, d'.finished.reverse = d.finished.reverse ++ back := by
  cases h with
  | still more hfinished _ => exact ⟨[], by rw [hfinished, List.append_nil]⟩
  | closed g _ _ _ back hfinished _ => exact ⟨g :: back, hfinished⟩

end Keeps

namespace Gathers

/-- The changes taken up are those of the finished hunks and those of the open one. -/
theorem changes_eq (h : d.Gathers before trail done) :
    Patch.changes d.finished.reverse ++ d.hunk.edits.changes = done.changes := by
  rw [h.cuts.changes_eq, h.done_eq]
  simp only [Script.changes_append, Script.changes_of_kept h.trail_kept, List.append_nil]

/-- A script is added in two parts. -/
theorem addAll_append {todo rest : Script} (h : d.Gathers before [] done) (hrest : rest ≠ [])
    (hadd : d.addAll margin (todo ++ rest) = some d') :
    ∃ (d₁ : Draft) (before₁ : Script), d₁.Gathers before₁ [] (done ++ todo) ∧
      d₁.addAll margin rest = some d' := by
  induction todo generalizing d before done with
  | nil => exact ⟨d, before, by rwa [List.append_nil], hadd⟩
  | cons e todo ih =>
      obtain ⟨d₁, hd₁, hadd⟩ := addAll_cons_iff.mp hadd
      obtain ⟨before₁, trail₁, h₁, htrail₁⟩ := h.added (added_of_add hd₁)
      -- more is to come, so nothing was passed over for good
      have hmore : (todo ++ rest).isEmpty = false := by simp [hrest]
      obtain rfl := htrail₁ hmore
      rw [List.append_cons]
      exact ih h₁ hadd

end Gathers

/-- A change joins the open hunk. -/
theorem Added.of_change (h : Added margin isLast d e d') (hkind : e.kind ≠ .equal) :
    d'.finished = d.finished ∧ d'.hunk.edits = d.hunk.edits ++ [e] := by
  cases h with
  | edit current _ => exact ⟨rfl, rfl⟩
  | keep => exact absurd rfl hkind
  | close => exact absurd rfl hkind
  | last => exact absurd rfl hkind

/-! ## Where a hunk ends -/

variable {a b : Edit} {t text : Text} {pre mid post : Script}

/-- Runs that join the open hunk stay side by side in the hunk it becomes. -/
theorem Gathers.joins (h : d.Gathers before [] done) (hfinished : d₁.finished = d.finished)
    (hedits : d₁.hunk.edits = d.hunk.edits ++ mid) (hmid : mid ≠ []) (hkeeps : Keeps d₁ c)
    (hclosed : c.hunk.edits = [])
    (hall : Patch.changes c.finished.reverse = Script.changes (done ++ mid ++ post)) :
    Patch.Joins c.finished.reverse done mid post := by
  have hbefore := h.changes_eq
  cases hkeeps with
  | still more _ hstill =>
      -- the hunk has been finished
      rw [hclosed, hedits] at hstill
      exact absurd hstill.symm (by simp [hmid])
  | closed g lead trail more back hback hg =>
      rw [hfinished] at hback
      rw [hedits] at hg
      refine ⟨d.finished.reverse, g, back, Hunk.context lead ++ d.hunk.edits,
        more ++ Hunk.context trail, hback, ?_, ?_, ?_⟩
      · rw [hg]
        simp only [List.append_assoc]
      · rw [Script.changes_append, Script.changes_context, List.nil_append, hbefore]
      · have hsplit : Script.changes (done ++ mid)
              ++ (Script.changes (more ++ Hunk.context trail) ++ Patch.changes back)
            = Script.changes (done ++ mid) ++ Script.changes post := by
          rw [← Script.changes_append _ post, ← hall, hback, Patch.changes_append,
            Patch.changes_cons, hg]
          simp only [Script.changes_append, Script.changes_context, ← hbefore, List.nil_append,
            List.append_nil, List.append_assoc]
        exact List.append_cancel_left hsplit

/-- When the open hunk is finished, the next change is in another one. -/
theorem Gathers.not_together (h : d.Gathers before [] (pre ++ [a])) (ha : a.kind ≠ .equal)
    (hclose : d.close margin = some d₁) (hkeeps : Keeps (d₁.skip t) c) :
    ¬Patch.Together c.finished.reverse pre.changes.length := by
  obtain ⟨back, hback⟩ := hkeeps.finished
  have hcount : Patch.changes d₁.finished.reverse = pre.changes ++ [a] := by
    rw [(h.close hclose).cuts.changes_eq, Script.changes_append, Script.changes_cons_of_ne ha]
    rfl
  rw [hback]
  refine Patch.not_together_append ?_
  show (Patch.changes d₁.finished.reverse).length = _
  rw [hcount, List.length_append]
  rfl

/-- What a finished draft has made of a script. -/
theorem finished_of_addAll {s : Script} (hadd : (start text).addAll margin s = some d)
    (hclose : d.close margin = some c) :
    c.hunk.edits = [] ∧ Patch.changes c.finished.reverse = s.changes := by
  obtain ⟨before, trail, hg, -⟩ := (underway_start text s).addAll hadd
  have hc := hg.close hclose
  exact ⟨by simpa using hc.done_eq, hc.cuts.changes_eq⟩

/-- Two changes with nothing between them are made by one hunk. -/
theorem joins_of_changes (ha : a.kind ≠ .equal) (hb : b.kind ≠ .equal)
    (hadd : (start text).addAll margin (pre ++ a :: b :: post) = some d)
    (hclose : d.close margin = some c) : Patch.Joins c.finished.reverse pre [a, b] post := by
  obtain ⟨hclosed, hall⟩ := finished_of_addAll hadd hclose
  obtain ⟨d₁, before₁, h₁, hadd⟩ := (gathers_start text).addAll_append (List.cons_ne_nil _ _) hadd
  obtain ⟨d₂, hd₂, hadd⟩ := addAll_cons_iff.mp hadd
  obtain ⟨d₃, hd₃, hadd⟩ := addAll_cons_iff.mp hadd
  obtain ⟨hfinished₂, hedits₂⟩ := (added_of_add hd₂).of_change ha
  obtain ⟨hfinished₃, hedits₃⟩ := (added_of_add hd₃).of_change hb
  have hkeeps : Keeps d₃ c := (Keeps.of_addAll hadd).trans (.of_close hclose)
  refine h₁.joins (hfinished₃.trans hfinished₂) ?_ (List.cons_ne_nil _ _) hkeeps hclosed ?_
  · rw [hedits₃, hedits₂, List.append_assoc]
    rfl
  · rw [hall, List.append_assoc]
    rfl

/-- **What becomes of an equality between two changes**: with at most twice the margin it stays
between them in one hunk, and with more no hunk makes both. -/
theorem joins_or_not_together (hm : 2 * margin < wordLimit) (ha : a.kind ≠ .equal)
    (hb : b.kind ≠ .equal)
    (hadd : (start text).addAll margin (pre ++ a :: ⟨.equal, t⟩ :: b :: post) = some d)
    (hclose : d.close margin = some c) :
    (t.length ≤ 2 * margin → Patch.Joins c.finished.reverse pre [a, ⟨.equal, t⟩, b] post) ∧
      (2 * margin < t.length → ¬Patch.Together c.finished.reverse pre.changes.length) := by
  have hwrap : wrap (2 * margin) = 2 * margin := wrap_of_lt hm
  obtain ⟨hclosed, hall⟩ := finished_of_addAll hadd hclose
  -- the draft before the first change, behind it, behind the equality, and behind the second change
  obtain ⟨d₁, before₁, h₁, hadd⟩ := (gathers_start text).addAll_append (List.cons_ne_nil _ _) hadd
  obtain ⟨d₂, hd₂, hadd⟩ := addAll_cons_iff.mp hadd
  obtain ⟨d₃, hd₃, hadd⟩ := addAll_cons_iff.mp hadd
  obtain ⟨d₄, hd₄, hadd⟩ := addAll_cons_iff.mp hadd
  have hfirst := added_of_add hd₂
  have hequal := added_of_add hd₃
  have hsecond := added_of_add hd₄
  obtain ⟨hfinished₂, hedits₂⟩ := hfirst.of_change ha
  obtain ⟨hfinished₄, hedits₄⟩ := hsecond.of_change hb
  obtain ⟨before₂, trail₂, h₂, htrail₂⟩ := h₁.added hfirst
  obtain rfl := htrail₂ rfl
  have hkeeps : Keeps d₄ c := (Keeps.of_addAll hadd).trans (.of_close hclose)
  cases hequal with
  | edit _ hkind => exact absurd rfl hkind
  | keep hopen hshort hmore =>
      rw [hwrap] at hshort
      refine ⟨fun _ => ?_, fun hlong => absurd hshort (Nat.not_le.mpr hlong)⟩
      refine h₁.joins (hfinished₄.trans hfinished₂) ?_ (List.cons_ne_nil _ _) hkeeps hclosed ?_
      · rw [hedits₄]
        simp [Draft.keep, hedits₂]
      · rw [hall, List.append_assoc]
        rfl
  | @close t c₂ hclose₂ hlong hmore =>
      have hopen : d₂.hunk.edits ≠ [] := by simp [hedits₂]
      have hlonger := hmore hopen rfl
      rw [hwrap] at hlonger
      refine ⟨fun hshort => absurd hlonger (Nat.not_lt.mpr hshort), fun _ => ?_⟩
      exact h₂.not_together ha hclose₂ ((Keeps.of_added hsecond).trans hkeeps)
  | last hopen hshort hlast => exact absurd hlast Bool.false_ne_true

end Draft

/-! ## What else is in a hunk -/

/-- A hunk holds a stretch of a script between its two contexts. The stretch begins and ends with a
change, and its equalities have at most twice the margin. -/
structure Hunk.Holds (margin : Nat) (s body : Script) (h : Hunk) : Prop where
  stretch : body <:+: s
  opens : body.OpensWithEdit
  ends : ∀ e ∈ body.getLast?, e.kind ≠ .equal
  short : ∀ e ∈ body, e.kind = .equal → e.text.length ≤ 2 * margin
  edits_eq : ∃ lead trail, h.edits = Hunk.context lead ++ body ++ Hunk.context trail

theorem Hunk.Holds.append {margin : Nat} {s body : Script} {h : Hunk} (hh : h.Holds margin s body)
    (r : Script) : h.Holds margin (s ++ r) body :=
  { hh with stretch := hh.stretch.trans (List.prefix_append s r).isInfix }

namespace Draft

/-- A draft for the runs `done`, before the runs `todo`, whose hunks hold stretches of them. The
open hunk may end with an equality only as long as more is to come. -/
structure Tidy (margin : Nat) (done todo : Script) (d : Draft) : Prop where
  held : ∀ h ∈ d.finished, ∃ body, h.Holds margin done body
  short : ∀ e ∈ d.hunk.edits, e.kind = .equal → e.text.length ≤ 2 * margin
  ends : todo = [] → ∀ e ∈ d.hunk.edits.getLast?, e.kind ≠ .equal

theorem tidy_start (margin : Nat) (text : Text) (s : Script) : (start text).Tidy margin [] s where
  held := by simp [start]
  short := by simp [start, Hunk.empty]
  ends := by simp [start, Hunk.empty]

/-- An equality comes only behind a change. -/
theorem Gathers.ends_with_change {d : Draft} {before done todo : Script} {t : Text}
    (h : d.Gathers before [] done)
    (hs : List.IsChain (fun x y : Edit => x.kind ≠ y.kind) (done ++ ⟨.equal, t⟩ :: todo)) :
    ∀ e ∈ d.hunk.edits.getLast?, e.kind ≠ .equal := by
  intro e he
  have hlast : e ∈ done.getLast? := by
    rw [h.done_eq, List.append_nil, List.getLast?_append, Option.mem_def.mp he]
    rfl
  exact (List.isChain_append.mp hs).2.2 e hlast _ rfl

namespace Tidy

variable {margin : Nat} {d d' c : Draft} {before trail done todo : Script} {e : Edit}

theorem held_append (h : d.Tidy margin done todo) (r : Script) :
    ∀ g ∈ d.finished, ∃ body, g.Holds margin (done ++ r) body := by
  intro g hg
  obtain ⟨body, hbody⟩ := h.held g hg
  exact ⟨body, hbody.append r⟩

/-- The open hunk is finished behind a change. -/
theorem close (h : d.Tidy margin done todo) (hg : d.Gathers before trail done)
    (hends : ∀ e ∈ d.hunk.edits.getLast?, e.kind ≠ .equal) (hclose : d.close margin = some c) :
    c.Tidy margin done todo := by
  rcases close_cases hclose with ⟨-, rfl⟩ | ⟨lead, inner, hopen, -, rfl⟩
  · exact h
  · refine ⟨fun g hgm => ?_, by simp [Hunk.empty], by simp [Hunk.empty]⟩
    rcases List.mem_cons.mp hgm with rfl | hgm
    · have hstretch : d.hunk.edits <:+: done := ⟨before, trail, hg.done_eq.symm⟩
      exact ⟨d.hunk.edits, hstretch, (hg.opens hopen).1, hends, h.short, lead, inner, rfl⟩
    · exact h.held g hgm

/-- A run more keeps a draft tidy, when no two neighbours are of one kind. -/
theorem added (h : d.Tidy margin done (e :: todo)) (hg : d.Gathers before [] done)
    (hs : List.IsChain (fun x y : Edit => x.kind ≠ y.kind) (done ++ e :: todo))
    (hm : 2 * margin < wordLimit) (hadd : Added margin todo.isEmpty d e d') :
    d'.Tidy margin (done ++ [e]) todo := by
  cases hadd with
  | edit current hkind =>
      refine ⟨h.held_append [e], ?_, ?_⟩
      · intro x hx hequal
        rcases List.mem_append.mp hx with hx | hx
        · exact h.short x hx hequal
        · rw [List.mem_singleton.mp hx] at hequal
          exact absurd hequal hkind
      · intro _ x hx
        rw [List.getLast?_concat] at hx
        cases hx
        exact hkind
  | @keep t hopen hshort hmore =>
      rw [wrap_of_lt hm] at hshort
      refine ⟨h.held_append [⟨.equal, t⟩], ?_, fun hnone => ?_⟩
      · intro x hx hequal
        rcases List.mem_append.mp hx with hx | hx
        · exact h.short x hx hequal
        · rw [List.mem_singleton.mp hx]
          exact hshort
      · -- an equality is kept only when more is to come
        rw [hnone] at hmore
        cases hmore
  | @close t c hclose hlong hmore =>
      have hc := h.close hg (hg.ends_with_change hs) hclose
      have hclosed : c.hunk.edits = [] := by simpa using (hg.close hclose).done_eq
      refine ⟨hc.held_append [⟨.equal, t⟩], hc.short, fun _ x hx => ?_⟩
      rw [show (c.skip t).hunk = c.hunk from rfl, hclosed] at hx
      cases hx
  | @last t hopen hshort hlast =>
      exact ⟨h.held_append [⟨.equal, t⟩], h.short, fun _ => hg.ends_with_change hs⟩

theorem addAll (h : d.Tidy margin done todo) (hg : d.Underway done todo)
    (hs : List.IsChain (fun x y : Edit => x.kind ≠ y.kind) (done ++ todo))
    (hm : 2 * margin < wordLimit) (hadd : d.addAll margin todo = some d') :
    d'.Tidy margin (done ++ todo) [] := by
  have hend := addAll_induct
    (motive := fun done todo d => d.Tidy margin done todo ∧ d.Underway done todo ∧
      List.IsChain (fun x y : Edit => x.kind ≠ y.kind) (done ++ todo))
    (fun ⟨h, hg, hs⟩ hadded => by
      obtain ⟨before, hgathers⟩ := hg.gathers
      exact ⟨h.added hgathers hs hm hadded, hg.added hadded, by rwa [← List.append_cons]⟩)
    done ⟨h, hg, hs⟩ hadd
  exact hend.1

end Tidy

end Draft

/-! ## The patch for a script -/

namespace Patch

theorem twice_max_lt {margin : Nat} (hm : margin < sizeLimit) : 2 * max margin 1 < wordLimit := by
  rw [sizeLimit_eq] at hm
  rw [wordLimit_eq]
  omega

/-- If the texts are not too long, there is a patch for a script, and it fits the source. -/
theorem exists_fits (s : Script) {margin : Nat} (hm : margin < sizeLimit)
    (hsource : s.source.length < sizeLimit) (htarget : s.target.length < sizeLimit) :
    ∃ p, make? s.source s margin = some p ∧ p.Fits s.source s.target := by
  have hsize : s.source.length + s.target.length ≤ maxPosition := by
    rw [sizeLimit_eq] at hsource htarget
    rw [maxPosition_eq]
    omega
  obtain ⟨p, hp, hfits, -⟩ := make?_fits s hm hsize
  exact ⟨p, hp, hfits⟩

/-- Every hunk holds a stretch of the script. -/
theorem holds_of_make? {text : Text} {s : Script} {margin : Nat} {p : Patch} (hs : s.Normal)
    (hm : margin < sizeLimit) (h : make? text s margin = some p) :
    ∀ g ∈ p, ∃ body, g.Holds (max margin 1) s body := by
  rcases make?_cases h with ⟨-, rfl⟩ | ⟨d, c, hd, hc, rfl⟩
  · simp
  · obtain ⟨before, trail, hg, -⟩ := (Draft.underway_start text s).addAll hd
    have htidy := (Draft.tidy_start (max margin 1) text s).addAll (Draft.underway_start text s)
      hs.alternates (twice_max_lt hm) hd
    have hheld := (htidy.close hg (htidy.ends rfl) hc).held
    exact fun g hgm => hheld g (List.mem_reverse.mp hgm)

/-- **Every change is made by exactly one hunk.** The changes of the hunks, one hunk after the
other, are those of the script. Two changes side by side are made by one hunk. The changes on the
two sides of an equality are made by one hunk exactly if it has at most twice the margin, and then
it stands between them in that hunk. Apart from such equalities of the script, a hunk has none but
one at either end, its context. If the texts are not too long, there is such a patch, and it fits
the source: the contexts are what stands around the changes. -/
theorem make?_groups {s : Script} (hs : s.Normal) {margin : Nat} (hpos : 1 ≤ margin)
    (hm : margin < sizeLimit) :
    (s.source.length < sizeLimit → s.target.length < sizeLimit →
      ∃ p, make? s.source s margin = some p ∧ p.Fits s.source s.target) ∧
    ∀ p, make? s.source s margin = some p →
      p.changes = s.changes ∧
      (∀ pre a b post, s = pre ++ a :: b :: post → a.kind ≠ .equal → b.kind ≠ .equal →
        p.Joins pre [a, b] post) ∧
      (∀ pre a t b post, s = pre ++ a :: ⟨.equal, t⟩ :: b :: post → a.kind ≠ .equal →
        b.kind ≠ .equal →
        (p.Together (Script.changes pre).length ↔ t.length ≤ 2 * margin) ∧
        (t.length ≤ 2 * margin → p.Joins pre [a, ⟨.equal, t⟩, b] post)) ∧
      ∀ h ∈ p, ∃ body, h.Holds margin s body := by
  have hmax : max margin 1 = margin := Nat.max_eq_left hpos
  constructor
  · exact exists_fits s hm
  · intro p hp
    have hholds := holds_of_make? hs hm hp
    rw [hmax] at hholds
    refine ⟨(cuts_of_make? hp).changes_eq, ?_, ?_, hholds⟩
    · rintro pre a b post rfl ha hb
      rcases make?_cases hp with ⟨hkept, -⟩ | ⟨d, c, hd, hc, rfl⟩
      · exact absurd (hkept a (by simp)) ha
      · exact Draft.joins_of_changes ha hb hd hc
    · rintro pre a t b post rfl ha hb
      rcases make?_cases hp with ⟨hkept, -⟩ | ⟨d, c, hd, hc, rfl⟩
      · exact absurd (hkept a (by simp)) ha
      · have htwice := twice_max_lt hm
        rw [hmax] at hd hc htwice
        obtain ⟨hjoins, hparts⟩ := Draft.joins_or_not_together htwice ha hb hd hc
        have hcount : 2 ≤ (Script.changes [a, ⟨.equal, t⟩, b]).length := by
          rw [Script.changes_cons_of_ne ha]
          simp [Script.changes, hb]
        refine ⟨⟨fun htogether => ?_, fun hshort => (hjoins hshort).together hcount⟩, hjoins⟩
        exact Nat.le_of_not_lt fun hlong => hparts hlong htogether

/-- Equalities of exactly twice the margin, of one character more, and at the end. -/
theorem make?_groups_exact :
    let s : Script :=
      [⟨.delete, ['a']⟩, ⟨.insert, ['b']⟩, ⟨.equal, ['c', 'd']⟩, ⟨.insert, ['x']⟩,
        ⟨.equal, ['e', 'f', 'g']⟩, ⟨.delete, ['h']⟩, ⟨.equal, ['i']⟩]
    let p : Patch :=
      [⟨[⟨.delete, ['a']⟩, ⟨.insert, ['b']⟩, ⟨.equal, ['c', 'd']⟩, ⟨.insert, ['x']⟩,
          ⟨.equal, ['e']⟩], 0, 4, 0, 5⟩,
        ⟨[⟨.equal, ['g']⟩, ⟨.delete, ['h']⟩, ⟨.equal, ['i']⟩], 6, 3, 6, 2⟩]
    (s.Normal ∧ 1 < sizeLimit ∧ s.source.length < sizeLimit ∧ s.target.length < sizeLimit) ∧
      make? s.source s 1 = some p ∧ p.Fits s.source s.target ∧ p.changes = s.changes ∧
      p.Joins [] [⟨.delete, ['a']⟩, ⟨.insert, ['b']⟩] (s.drop 2) ∧
      p.Joins [⟨.delete, ['a']⟩] [⟨.insert, ['b']⟩, ⟨.equal, ['c', 'd']⟩, ⟨.insert, ['x']⟩]
        (s.drop 4) ∧
      p.Together 1 ∧ ¬p.Together 2 ∧ ∀ h ∈ p, ∃ body, h.Holds 1 s body := by
  intro s p
  have hs : s.Normal := by decide
  have hm : 1 < sizeLimit := by decide
  have hsource : s.source.length < sizeLimit := by decide
  have htarget : s.target.length < sizeLimit := by decide
  have hmade : make? s.source s 1 = some p := by decide
  obtain ⟨hexists, hgroups⟩ := make?_groups hs (Nat.le_refl 1) hm
  obtain ⟨q, hq, hfits⟩ := hexists hsource htarget
  obtain rfl := Option.some.inj (hq.symm.trans hmade)
  obtain ⟨hchanges, hnext, hgap, hholds⟩ := hgroups _ hq
  have hfirst := hnext [] _ _ _ rfl EditKind.noConfusion EditKind.noConfusion
  obtain ⟨hshort, hjoins⟩ :=
    hgap [⟨.delete, ['a']⟩] _ _ _ _ rfl EditKind.noConfusion EditKind.noConfusion
  obtain ⟨hlong, -⟩ := hgap [⟨.delete, ['a']⟩, ⟨.insert, ['b']⟩, ⟨.equal, ['c', 'd']⟩] _ _ _ _ rfl
    EditKind.noConfusion EditKind.noConfusion
  exact ⟨⟨hs, hm, hsource, htarget⟩, hq, hfits, hchanges, hfirst, hjoins (by decide),
    hshort.mpr (by decide), mt hlong.mp (by decide), hholds⟩

end Patch

end TextHistory
