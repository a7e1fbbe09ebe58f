import Mathlib.Data.List.DropRight
import TextHistory.Edit.Semantic

/-!
# Stretches of edits

Between its equalities a script consists of *stretches* of edits (`Script.stretches`). A script is a
stretch, or a stretch, an equality and another script (`Script.stretchInduction`).

The edits before an equality and those after it *outweigh* it (`Script.Outweighs`) when it is no
longer than what either side inserts or deletes. A script is *lasting* when that is the case of none
of its equalities. Whether an equality is outweighed is told by the two stretches beside it, so a
script cut at an equality is lasting when both parts are and this equality is not outweighed
(`Script.lasting_cut_iff`).
-/

set_option autoImplicit false

namespace TextHistory

namespace Script

/-! ## Edits without an equality -/

/-- There is no equality in a script. -/
def EditsOnly (s : Script) : Prop := ∀ e ∈ s, e.kind ≠ .equal

instance : DecidablePred EditsOnly :=
  fun s => inferInstanceAs (Decidable (∀ e ∈ s, e.kind ≠ .equal))

@[simp] theorem editsOnly_nil : EditsOnly [] := by simp [EditsOnly]

@[simp] theorem editsOnly_cons {e : Edit} {s : Script} :
    EditsOnly (e :: s) ↔ e.kind ≠ .equal ∧ s.EditsOnly := by
  simp [EditsOnly]

@[simp] theorem editsOnly_append {s r : Script} :
    EditsOnly (s ++ r) ↔ s.EditsOnly ∧ r.EditsOnly := by
  simp [EditsOnly, or_imp, forall_and]

/-- A script is cut at its first equality, and again at the next, until only edits are left. -/
@[elab_as_elim]
theorem stretchInduction {motive : Script → Prop} (edits : ∀ r, EditsOnly r → motive r)
    (cut : ∀ r t s, EditsOnly r → motive s → motive (r ++ ⟨.equal, t⟩ :: s)) (s : Script) :
    motive s := by
  suffices h : ∀ r, EditsOnly r → motive (r ++ s) from h [] editsOnly_nil
  induction s with
  | nil =>
      intro r hr
      rw [List.append_nil]
      exact edits r hr
  | cons e s ih =>
      intro r hr
      by_cases he : e.kind = .equal
      · obtain ⟨kind, t⟩ := e
        cases he
        exact cut r t s hr (ih [] editsOnly_nil)
      · rw [List.append_cons]
        exact ih (r ++ [e]) (by simp [hr, he])

/-! ## The edits at either end -/

/-- The edits before the first equality. -/
def firstEdits (s : Script) : Script := s.takeWhile (·.kind != .equal)

/-- The edits behind the last equality. -/
def lastEdits (s : Script) : Script := s.rtakeWhile (·.kind != .equal)

@[simp] theorem firstEdits_nil : firstEdits [] = [] := rfl

@[simp] theorem lastEdits_nil : lastEdits [] = [] := rfl

theorem firstEdits_append {r : Script} (hr : r.EditsOnly) (s : Script) :
    firstEdits (r ++ s) = r ++ firstEdits s :=
  List.takeWhile_append_of_pos fun e he => by simpa using hr e he

theorem firstEdits_eq_self {r : Script} (hr : r.EditsOnly) : firstEdits r = r := by
  simpa using firstEdits_append hr []

@[simp] theorem firstEdits_cut (s : Script) (t : Text) (r : Script) :
    firstEdits (s ++ ⟨.equal, t⟩ :: r) = firstEdits s := by
  induction s with
  | nil => simp [firstEdits]
  | cons e s ih =>
      by_cases he : e.kind = .equal
      · simp [firstEdits, he]
      · simpa [firstEdits, he] using ih

/-- From behind, a script is read as its mirror image is from the front. -/
theorem lastEdits_eq_reverse (s : Script) : lastEdits s = (firstEdits s.reverse).reverse := by
  rw [lastEdits, firstEdits, ← List.rtakeWhile_reverse, List.reverse_reverse]

theorem lastEdits_append {r : Script} (hr : r.EditsOnly) (s : Script) :
    lastEdits (s ++ r) = lastEdits s ++ r := by
  rw [lastEdits_eq_reverse, List.reverse_append, firstEdits_append (by simpa [EditsOnly] using hr),
    List.reverse_append, List.reverse_reverse, ← lastEdits_eq_reverse]

theorem lastEdits_eq_self {r : Script} (hr : r.EditsOnly) : lastEdits r = r := by
  simpa using lastEdits_append hr []

@[simp] theorem lastEdits_cut (s : Script) (t : Text) (r : Script) :
    lastEdits (s ++ ⟨.equal, t⟩ :: r) = lastEdits r := by
  rw [lastEdits_eq_reverse, List.reverse_append, List.reverse_cons, List.append_assoc,
    List.singleton_append, firstEdits_cut, ← lastEdits_eq_reverse]

/-! ## How much is edited -/

/-- How much a script inserts and deletes. -/
def extent (s : Script) : Extent :=
  ⟨((s.filter (·.kind == .insert)).flatMap (·.text)).length,
    ((s.filter (·.kind == .delete)).flatMap (·.text)).length⟩

@[simp] theorem extent_nil : extent [] = ⟨0, 0⟩ := rfl

/-- One more run of edits counts as a scan counts it. -/
theorem extent_concat (s : Script) (e : Edit) : extent (s ++ [e]) = (extent s).add e := by
  obtain ⟨kind, t⟩ := e
  cases kind <;> simp [extent, Extent.add]

/-- More edits weigh more. -/
theorem size_le_size_append (s r : Script) : (extent s).size ≤ (extent (s ++ r)).size := by
  simp only [extent, Extent.size, List.filter_append, List.flatMap_append, List.length_append]
  omega

/-- Edits delete their source and insert their target. -/
theorem extent_eq_lengths {r : Script} (hr : r.EditsOnly) :
    extent r = ⟨r.target.length, r.source.length⟩ := by
  induction r with
  | nil => rfl
  | cons e r ih =>
      obtain ⟨he, hr⟩ := editsOnly_cons.mp hr
      have hrest := ih hr
      obtain ⟨kind, t⟩ := e
      simp only [extent, Extent.mk.injEq] at hrest ⊢
      cases kind with
      | equal => exact absurd rfl he
      | insert => simpa [source_cons, target_cons] using hrest
      | delete => simpa [source_cons, target_cons] using hrest

/-! ## Equalities that are outweighed -/

/-- The edits on either side of an equality outweigh it: there are some on both sides, and it is
no longer than the larger of what is inserted and what is deleted, on one side and on the other. -/
structure Outweighs (before : Script) (t : Text) (after : Script) : Prop where
  before_ne_nil : before ≠ []
  after_ne_nil : after ≠ []
  le_before : t.length ≤ before.extent.size
  le_after : t.length ≤ after.extent.size

/-- An equality of the script, of text `t`, is outweighed by the edits beside it. -/
def Outweighed (s : Script) (t : Text) : Prop :=
  ∃ pre post : Script, s = pre ++ ⟨.equal, t⟩ :: post ∧
    Outweighs pre.lastEdits t post.firstEdits

/-- No equality of the script is outweighed. -/
def Lasting (s : Script) : Prop := ∀ t, ¬s.Outweighed t

/-- Where a script is cut at an equality, those that are outweighed are in one of the parts, or it
is this one. -/
theorem outweighed_cut_iff {s r : Script} {t u : Text} :
    (s ++ ⟨.equal, t⟩ :: r).Outweighed u ↔
      s.Outweighed u ∨ r.Outweighed u ∨ (u = t ∧ Outweighs s.lastEdits t r.firstEdits) := by
  constructor
  · rintro ⟨pre, post, hcut, h⟩
    rcases List.append_eq_append_iff.mp hcut with ⟨a, rfl, ha⟩ | ⟨a, rfl, ha⟩
    · -- behind the cut, or at it
      cases a with
      | nil =>
          obtain ⟨⟨-, rfl⟩, rfl⟩ : (Edit.mk .equal t = ⟨.equal, u⟩) ∧ r = post := by simpa using ha
          exact Or.inr (Or.inr ⟨rfl, by simpa using h⟩)
      | cons e a =>
          obtain ⟨rfl, rfl⟩ : ⟨.equal, t⟩ = e ∧ r = a ++ ⟨.equal, u⟩ :: post := by simpa using ha
          exact Or.inr (Or.inl ⟨a, post, rfl, by simpa using h⟩)
    · cases a with
      | nil =>
          obtain ⟨⟨-, rfl⟩, rfl⟩ : (Edit.mk .equal u = ⟨.equal, t⟩) ∧ post = r := by simpa using ha
          exact Or.inr (Or.inr ⟨rfl, by simpa using h⟩)
      | cons e a =>
          obtain ⟨rfl, rfl⟩ : ⟨.equal, u⟩ = e ∧ post = a ++ ⟨.equal, t⟩ :: r := by simpa using ha
          exact Or.inl ⟨pre, a, rfl, by simpa using h⟩
  · rintro (⟨pre, post, rfl, h⟩ | ⟨pre, post, rfl, h⟩ | ⟨rfl, h⟩)
    · exact ⟨pre, post ++ ⟨.equal, t⟩ :: r, by simp, by simpa using h⟩
    · exact ⟨s ++ ⟨.equal, t⟩ :: pre, post, by simp, by simpa using h⟩
    · exact ⟨s, r, rfl, h⟩

/-- An equality in front is never outweighed. -/
@[simp] theorem outweighed_equal_cons {t u : Text} {s : Script} :
    Outweighed (⟨.equal, t⟩ :: s) u ↔ s.Outweighed u := by
  constructor
  · intro h
    rcases outweighed_cut_iff.mp (show Outweighed ([] ++ ⟨.equal, t⟩ :: s) u from h) with
      ⟨pre, post, hnil, -⟩ | h | ⟨-, h⟩
    · simp at hnil
    · exact h
    · exact absurd rfl h.before_ne_nil
  · intro h
    exact outweighed_cut_iff (s := []).mpr (Or.inr (Or.inl h))

theorem EditsOnly.lasting {r : Script} (hr : r.EditsOnly) : r.Lasting := by
  rintro t ⟨pre, post, rfl, -⟩
  simp at hr

/-- Where a script is cut at an equality, it is lasting if both parts are and this equality is not
outweighed. -/
theorem lasting_cut_iff {s r : Script} {t : Text} :
    Lasting (s ++ ⟨.equal, t⟩ :: r) ↔
      s.Lasting ∧ r.Lasting ∧ ¬Outweighs s.lastEdits t r.firstEdits := by
  constructor
  · intro h
    refine ⟨fun u hu => ?_, fun u hu => ?_, fun ho => ?_⟩
    · exact h u (outweighed_cut_iff.mpr (Or.inl hu))
    · exact h u (outweighed_cut_iff.mpr (Or.inr (Or.inl hu)))
    · exact h t (outweighed_cut_iff.mpr (Or.inr (Or.inr ⟨rfl, ho⟩)))
  · rintro ⟨hs, hr, ht⟩ u hu
    rcases outweighed_cut_iff.mp hu with hu | hu | ⟨-, ho⟩
    · exact hs u hu
    · exact hr u hu
    · exact ht ho

/-! ## The stretches of a script -/

/-- The stretches of edits that stand between the equalities of a script, or at its ends. -/
def stretches (s : Script) : List Script := (s.splitOnP (·.kind == .equal)).filter (!·.isEmpty)

@[simp] theorem stretches_cut (s : Script) (t : Text) (r : Script) :
    stretches (s ++ ⟨.equal, t⟩ :: r) = stretches s ++ stretches r := by
  rw [stretches, List.splitOnP_append_cons _ _ rfl, List.filter_append]
  rfl

@[simp] theorem stretches_equal_cons (t : Text) (r : Script) :
    stretches (⟨.equal, t⟩ :: r) = stretches r := stretches_cut [] t r

theorem stretches_of_editsOnly {r : Script} (hr : r.EditsOnly) :
    stretches r = if r = [] then [] else [r] := by
  rw [stretches, List.splitOnP_eq_singleton fun e he => by simpa using hr e he]
  cases r <;> rfl

/-- Edits that come before edits make no stretch of their own. -/
theorem length_stretches_append {r s : Script} (hr : r.EditsOnly) (hs : s.firstEdits ≠ []) :
    (stretches (r ++ s)).length = (stretches s).length := by
  induction s using stretchInduction with
  | edits m hm =>
      have hne : m ≠ [] := by rwa [firstEdits_eq_self hm] at hs
      rw [stretches_of_editsOnly (editsOnly_append.mpr ⟨hr, hm⟩), stretches_of_editsOnly hm,
        if_neg hne, if_neg (by simp [hne])]
      rfl
  | cut m t s hm _ =>
      have hne : m ≠ [] := by rwa [firstEdits_cut, firstEdits_eq_self hm] at hs
      rw [← List.append_assoc, stretches_cut, stretches_cut,
        stretches_of_editsOnly (editsOnly_append.mpr ⟨hr, hm⟩), stretches_of_editsOnly hm,
        if_neg hne, if_neg (by simp [hne])]
      rfl

end Script

end TextHistory
