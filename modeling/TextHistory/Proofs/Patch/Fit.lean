import TextHistory.Proofs.Text.Occurrence

/-!
# Patches that fit

A hunk *fits* a text when its source stands there at the very place its heading gives; it then
leads to the text with its target in that place (`Hunk.Fits`). A patch fits when its hunks do, one
after the other (`Patch.Fits`).

More generally a hunk may have moved, and yet its source stands near the place where it is expected
(`Patch.Stands`). A search that goes that far then finds it with its whole context. How much
farther the search may go, and with how much less context, makes no difference
(`Patch.applyStrict_of_stands`). A patch that fits needs no search at all
(`Patch.applyStrict_of_fits`).
-/

set_option autoImplicit false

namespace TextHistory

/-! ## The parts of a hunk -/

namespace Script

theorem source_takeLead (s : Script) : s.source = (takeLead s).1 ++ (takeLead s).2.source := by
  unfold takeLead
  split
  · simp [source_cons]
  · simp

theorem target_takeLead (s : Script) : s.target = (takeLead s).1 ++ (takeLead s).2.target := by
  unfold takeLead
  split
  · simp [target_cons]
  · simp

/-- A script that ends with a kept run, cut before that run. -/
theorem eq_dropLast_append {s : Script} {t : Text} (h : s.getLast? = some ⟨.equal, t⟩) :
    s = s.dropLast ++ [⟨.equal, t⟩] := by
  obtain ⟨s, rfl⟩ := List.getLast?_eq_some_iff.mp h
  rw [List.dropLast_concat]

theorem source_takeTrail (s : Script) : s.source = (takeTrail s).2.source ++ (takeTrail s).1 := by
  unfold takeTrail
  split
  · next t h =>
    conv => lhs; rw [eq_dropLast_append h]
    simp [source_append, source_cons]
  · simp

theorem target_takeTrail (s : Script) : s.target = (takeTrail s).2.target ++ (takeTrail s).1 := by
  unfold takeTrail
  split
  · next t h =>
    conv => lhs; rw [eq_dropLast_append h]
    simp [target_append, target_cons]
  · simp

end Script

namespace Hunk

/-- With all its context, a hunk looks for the whole text it starts from. -/
theorem pattern_core (h : Hunk) : h.core.pattern = h.edits.source := by
  rw [Script.source_takeLead, Script.source_takeTrail, ← List.append_assoc]
  rfl

theorem replacement_core (h : Hunk) : h.core.replacement = h.edits.target := by
  rw [Script.target_takeLead, Script.target_takeTrail, ← List.append_assoc]
  rfl

/-- A hunk stands in a text at the place its heading gives and leads to another text. -/
def Fits (h : Hunk) (old new : Text) : Prop :=
  ∃ pre post, old = pre ++ h.edits.source ++ post ∧ new = pre ++ h.edits.target ++ post ∧
    h.newStart = pre.length

/-- In a longer text the hunk stands as much farther on as comes before. -/
theorem Fits.occursAt {h : Hunk} {old new : Text} (hf : h.Fits old new) (pre post : Text) :
    Text.occursAt (pre ++ old ++ post) h.edits.source (h.newStart + pre.length) = true := by
  obtain ⟨away, beyond, rfl, -, hstart⟩ := hf
  refine Text.occursAt_iff.mpr ⟨pre ++ away, beyond ++ post, by simp, ?_⟩
  rw [List.length_append, hstart, Nat.add_comm]

/-- What stands in a longer text once the hunk is applied there. -/
theorem Fits.splice {h : Hunk} {old new : Text} (hf : h.Fits old new) (pre post : Text) :
    Text.splice (pre ++ old ++ post) (h.newStart + pre.length) h.edits.source.length h.edits.target
      = pre ++ new ++ post := by
  obtain ⟨away, beyond, rfl, rfl, hstart⟩ := hf
  have h := Text.splice_append (pre ++ away) h.edits.source (beyond ++ post) h.edits.target
  rw [List.length_append, ← hstart, Nat.add_comm] at h
  simpa using h

/-! ## Placing a hunk -/

/-- All context comes first. -/
theorem levels_eq_cons (c : Core) (margin : Nat) : ∃ more, c.levels margin = c :: more := by
  unfold Core.levels
  split
  · exact ⟨_, rfl⟩
  · exact ⟨_, rfl⟩

/-- A hunk whose source is found near its expected place is placed there, with all its context. -/
theorem place?_of_found {h : Hunk} {text : Text} {drift : Int} {expected p range : Nat} {o : Reach}
    (hm : moved? h.newStart drift = some expected)
    (hp : Text.nearestOccurrence text h.edits.source expected range = some p)
    (hr : range ≤ o.range) : h.place? text drift o = some (h.core, p, h.newStart) := by
  obtain ⟨more, hmore⟩ := levels_eq_cons h.core o.margin
  have hloc : h.core.locate? h.core text h.newStart drift o.range = some (p, h.newStart) := by
    rw [← pattern_core] at hp
    simp only [Core.locate?, Nat.sub_self, Nat.add_zero, hm, Option.bind_eq_bind,
      Option.bind_some, Text.nearestOccurrence_of_le hr hp]
    rfl
  simp only [place?, hmore, List.findSome?_cons, hloc, Option.map_some]

/-- A position moved on, as far as positions go. -/
theorem moved?_add {n k : Nat} (h : n + k ≤ maxPosition) : moved? n k = some (n + k) := by
  rw [moved?]
  exact if_pos ⟨Nat.le_of_add_right_le h, by exact_mod_cast h⟩

theorem moved?_zero {n : Nat} (h : n ≤ maxPosition) : moved? n 0 = some n := moved?_add (k := 0) h

end Hunk

/-! ## All hunks -/

namespace Patch

/-- The hunks of a patch fit one after the other. -/
inductive Fits : Patch → Text → Text → Prop where
  | nil (t : Text) : Fits [] t t
  | cons {h : Hunk} {p : Patch} {old middle new : Text} :
      h.Fits old middle → Fits p middle new → Fits (h :: p) old new

/-- A hunk more at the end. -/
theorem Fits.snoc {p : Patch} {h : Hunk} {old middle new : Text} (hp : Fits p old middle)
    (hh : h.Fits middle new) : Fits (p ++ [h]) old new := by
  induction hp with
  | nil => exact .cons hh (.nil new)
  | cons hg _ ih => exact .cons hg (ih hh)

/-- The text between two hunks. -/
theorem Fits.split {p q : Patch} {old new : Text} (h : Fits (p ++ q) old new) :
    ∃ middle, Fits p old middle ∧ Fits q middle new := by
  induction p generalizing old with
  | nil => exact ⟨old, .nil old, h⟩
  | cons g p ih =>
      cases h with
      | cons hg hp =>
          obtain ⟨middle, hp, hq⟩ := ih hp
          exact ⟨middle, .cons hg hp, hq⟩

/-- Every hunk stands in the text with its whole context, no farther than `range` from the place
where it is expected after the hunks before it. -/
inductive Stands (range : Nat) : Progress → Patch → Progress → Prop where
  | nil (s : Progress) : Stands range s [] s
  | cons {s s' : Progress} {h : Hunk} {p : Patch} {expected found : Nat} :
      moved? h.newStart s.drift = some expected →
      Text.nearestOccurrence s.text h.edits.source expected range = some found →
      Stands range
        ⟨Text.splice s.text found h.edits.source.length h.edits.target, (found : Int) - h.newStart⟩
        p s' →
      Stands range s (h :: p) s'

/-- Hunks that fit a text stand in any longer text around it, each as much farther on as comes
before, once this is the drift. -/
theorem Fits.stands_between {p : Patch} {old new : Text} (hf : Fits p old new) (range : Nat)
    (pre post : Text) (hs : ∀ h ∈ p, h.newStart + pre.length ≤ maxPosition) :
    Stands range ⟨pre ++ old ++ post, pre.length⟩ p ⟨pre ++ new ++ post, pre.length⟩ := by
  induction hf with
  | nil t => exact .nil _
  | @cons h p old middle new hh _ ih =>
      refine .cons (Hunk.moved?_add (hs h List.mem_cons_self))
        (Text.nearestOccurrence_of_occursAt range (hh.occursAt pre post)) ?_
      have hdrift : ((h.newStart + pre.length : Nat) : Int) - h.newStart = pre.length := by omega
      rw [hdrift, hh.splice pre post]
      exact ih fun g hg => hs g (List.mem_cons_of_mem _ hg)

/-- Hunks that fit stand at their very places and leave no drift. -/
theorem Fits.stands {p : Patch} {old new : Text} (hf : Fits p old new)
    (hs : ∀ h ∈ p, h.newStart ≤ maxPosition) : Stands 0 ⟨old, 0⟩ p ⟨new, 0⟩ := by
  simpa using hf.stands_between 0 [] [] (by simpa using hs)

/-- A search that goes far enough finds every hunk with its whole context. -/
theorem Stands.applyAll {range : Nat} {s s' : Progress} {p : Patch} (hp : Stands range s p s')
    {o : Reach} (hr : range ≤ o.range) :
    Progress.applyAll o s p = (s', p.map fun _ => true) := by
  induction hp with
  | nil s => rfl
  | cons hm hfound _ ih =>
      simp only [Progress.applyAll, Progress.apply, Hunk.place?_of_found hm hfound hr,
        Hunk.pattern_core, Hunk.replacement_core, ih, List.map_cons]

/-- Each hunk that fits is found with its whole context where its heading says, and when its turn
comes there is no drift. -/
theorem Fits.place? {front back : Patch} {h : Hunk} {old new : Text}
    (hf : Fits (front ++ h :: back) old new)
    (hs : ∀ g ∈ front ++ h :: back, g.newStart ≤ maxPosition) (o : Reach) :
    ∃ t, (Progress.applyAll o ⟨old, 0⟩ front).1 = ⟨t, 0⟩ ∧
      h.place? t 0 o = some (h.core, h.newStart, h.newStart) := by
  obtain ⟨t, hfront, hback⟩ := hf.split
  have hrun := (hfront.stands fun g hg => hs g (List.mem_append_left _ hg)).applyAll
    (o := o) (Nat.zero_le _)
  refine ⟨t, by rw [hrun], ?_⟩
  cases hback with
  | cons hh _ =>
      have hocc : Text.occursAt t h.edits.source h.newStart = true := by
        simpa using hh.occursAt [] []
      exact Hunk.place?_of_found (Hunk.moved?_zero (hs h (by simp)))
        (Text.nearestOccurrence_of_occursAt 0 hocc) (Nat.zero_le _)

theorem apply_of_stands {range : Nat} {text : Text} {p : Patch} {s : Progress}
    (hp : Stands range ⟨text, 0⟩ p s) {o : Reach} (hr : range ≤ o.range) :
    p.apply text o = (s.text, p.map fun _ => true) := by
  simp only [apply, hp.applyAll hr]

theorem applyStrict_eq {p : Patch} {text out : Text} {flags : List Bool} {o : Reach}
    (h : p.apply text o = (out, flags)) :
    p.applyStrict text o = match flags.findIdx? (!·) with
      | some i => .error (.rejected i)
      | none => .ok out := by
  have hflags : p.applyStrict text o = match (p.apply text o).2.findIdx? (!·) with
      | some i => .error (.rejected i)
      | none => .ok (p.apply text o).1 := rfl
  rw [hflags, h]

/-- **A patch that stands near its place** is applied in full and alike, whatever the margin,
wherever the search goes that far. -/
theorem applyStrict_of_stands {range : Nat} {text : Text} {p : Patch} {s : Progress}
    (hp : Stands range ⟨text, 0⟩ p s) {o : Reach} (hr : range ≤ o.range) :
    p.applyStrict text o = .ok s.text := by
  have hflags : (p.map fun _ => true).findIdx? (!·) = none := by
    rw [List.findIdx?_eq_none_iff]
    simp
  rw [applyStrict_eq (apply_of_stands hp hr), hflags]

/-- **A patch that fits is applied in full**, whatever the range of the search and the margin. -/
theorem applyStrict_of_fits {p : Patch} {old new : Text} (o : Reach) (hf : Fits p old new)
    (hs : ∀ h ∈ p, h.newStart ≤ maxPosition) : p.applyStrict old o = .ok new :=
  applyStrict_of_stands (hf.stands hs) (Nat.zero_le _)

end Patch

end TextHistory
