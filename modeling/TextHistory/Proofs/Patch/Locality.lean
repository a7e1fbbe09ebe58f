import TextHistory.Proofs.Patch.Placement
import TextHistory.Proofs.Patch.WrittenForm

/-!
# What an application changes

However little of its context a hunk is found with, the context it is found with is put back. So an
accepted hunk replaces one occurrence of what it looks for between its contexts, and every character
before it and behind it stays (`Hunk.Replaces`); a rejected one leaves the whole text as it was.
This holds for each hunk of a patch in the text that the hunks before it have left
(`Patch.apply_replaces_cores`), and so the length of the text is known from the headings of the
hunks that were accepted.
-/

set_option autoImplicit false

namespace TextHistory

/-! ## One hunk -/

namespace Hunk

/-- One occurrence of what the hunk looks for between its contexts is replaced by what it puts
there; all before it and behind it stays. -/
def Replaces (h : Hunk) (old new : Text) : Prop :=
  ∃ pre post, old = pre ++ h.core.source ++ post ∧ new = pre ++ h.core.target ++ post

/-- A place that is found is the one nearest to where the form is expected. -/
theorem of_place? {h : Hunk} {text : Text} {drift : Int} {o : Reach} {c : Core}
    {found nominal : Nat} (hplace : h.place? text drift o = some (c, found, nominal)) :
    c ∈ h.core.levels o.margin ∧ ∃ expected, moved? nominal drift = some expected ∧
      Text.nearestOccurrence text c.pattern expected o.range = some found := by
  obtain ⟨g, hg, hfound⟩ := List.exists_of_findSome?_eq_some hplace
  obtain ⟨p, hlocate, hpair⟩ := Option.map_eq_some_iff.mp hfound
  obtain ⟨rfl, rfl⟩ := Prod.mk.inj hpair
  obtain ⟨expected, hmoved, hlocate⟩ := Option.bind_eq_some_iff.mp hlocate
  obtain ⟨p, hnearest, hpair⟩ := Option.bind_eq_some_iff.mp hlocate
  obtain ⟨rfl, rfl⟩ := Prod.mk.inj (Option.some.inj hpair)
  exact ⟨hg, expected, hmoved, hnearest⟩

/-- A form of the hunk that stands in a text gives its context back when it is replaced. -/
theorem replaces_splice {h : Hunk} {c : Core} {margin : Nat} (hc : c ∈ h.core.levels margin)
    {text : Text} {found : Nat} (hfound : Text.occursAt text c.pattern found = true) :
    h.Replaces text (Text.splice text found c.pattern.length c.replacement) := by
  obtain ⟨hsource, htarget, -⟩ := Core.of_mem_levels hc
  obtain ⟨pre, post, rfl, rfl⟩ := Text.occursAt_iff.mp hfound
  rw [Text.splice_append]
  refine ⟨pre ++ c.lead, c.trail ++ post, ?_, ?_⟩
  · simp [Core.pattern, hsource]
  · simp [Core.replacement, htarget]

/-- The heading of a well-formed hunk tells by how much its core makes a text longer. -/
theorem WellFormed.gain_eq {h : Hunk} (hw : h.WellFormed) :
    h.gain = (h.core.target.length : Int) - h.core.source.length := by
  have hold := congrArg List.length h.pattern_core
  have hnew := congrArg List.length h.replacement_core
  simp only [Core.pattern, Core.replacement, List.length_append] at hold hnew
  rw [gain, hw.oldLength_eq, hw.newLength_eq]
  omega

/-- A text is longer afterwards by what the heading says. -/
theorem Replaces.length_eq {h : Hunk} {old new : Text} (hr : h.Replaces old new)
    (hw : h.WellFormed) : (new.length : Int) = old.length + h.gain := by
  obtain ⟨pre, post, rfl, rfl⟩ := hr
  rw [hw.gain_eq]
  simp only [List.length_append]
  omega

end Hunk

namespace Progress

/-- **What one hunk changes**: nothing if it is rejected, and its core if it is accepted. -/
theorem apply_replaces (s : Progress) (o : Reach) (h : Hunk) :
    ((s.apply o h).2 = false ∧ (s.apply o h).1.text = s.text) ∨
      ((s.apply o h).2 = true ∧ h.Replaces s.text (s.apply o h).1.text) := by
  cases hplace : h.place? s.text s.drift o with
  | none =>
      rw [apply_of_no_place hplace]
      exact Or.inl ⟨rfl, rfl⟩
  | some found =>
      obtain ⟨c, p, nominal⟩ := found
      obtain ⟨hc, expected, -, hnearest⟩ := Hunk.of_place? hplace
      have hp := (Text.nearestOccurrence_eq_some_iff.mp hnearest).1
      rw [apply_of_place hplace]
      exact Or.inr ⟨rfl, Hunk.replaces_splice hc hp⟩

end Progress

/-! ## All hunks -/

/-- By how much the hunks that are flagged make a text longer, as their headings say. -/
def Patch.gained : Patch → List Bool → Int
  | h :: p, true :: flags => h.gain + gained p flags
  | _ :: p, false :: flags => gained p flags
  | _, _ => 0

@[simp] theorem Patch.gained_rejected (h : Hunk) (p : Patch) (flags : List Bool) :
    gained (h :: p) (false :: flags) = gained p flags := rfl

@[simp] theorem Patch.gained_accepted (h : Hunk) (p : Patch) (flags : List Bool) :
    gained (h :: p) (true :: flags) = h.gain + gained p flags := rfl

namespace Progress

/-- The text is longer by what the accepted hunks say. -/
theorem length_text_applyAll {p : Patch} (hw : ∀ h ∈ p, h.WellFormed) (s : Progress) (o : Reach) :
    ((applyAll o s p).1.text.length : Int)
      = s.text.length + Patch.gained p (applyAll o s p).2 := by
  induction p generalizing s with
  | nil => simp [applyAll, Patch.gained]
  | cons h p ih =>
      rw [List.forall_mem_cons] at hw
      have hrest := ih hw.2 (s.apply o h).1
      rw [applyAll_cons]
      rcases s.apply_replaces o h with ⟨hflag, htext⟩ | ⟨hflag, hreplaces⟩
      · rw [hrest, hflag, htext, Patch.gained_rejected]
      · rw [hrest, hflag, hreplaces.length_eq hw.1, Patch.gained_accepted, Int.add_assoc]

/-- Where every hunk is rejected, the text stays as it was. -/
theorem text_applyAll_of_rejected {p : Patch} {s : Progress} {o : Reach}
    (hflags : ∀ flag ∈ (applyAll o s p).2, flag = false) : (applyAll o s p).1.text = s.text := by
  induction p generalizing s with
  | nil => rfl
  | cons h p ih =>
      rw [applyAll_cons, List.forall_mem_cons] at hflags
      rcases s.apply_replaces o h with ⟨-, htext⟩ | ⟨hflag, -⟩
      · rw [applyAll_cons, ih hflags.2, htext]
      · rw [hflag] at hflags
        cases hflags.1

/-- A hunk more at the end is applied to what the others have left. -/
theorem applyAll_snoc (s : Progress) (o : Reach) (front : Patch) (h : Hunk) :
    (applyAll o s (front ++ [h])).1 = ((applyAll o s front).1.apply o h).1 := by
  rw [applyAll_append]
  rfl

/-- The flag of a hunk, whatever comes behind it. -/
theorem flag_applyAll (s : Progress) (o : Reach) (front : Patch) (h : Hunk) (back : Patch) :
    (applyAll o s (front ++ h :: back)).2[front.length]?
      = some ((applyAll o s front).1.apply o h).2 := by
  have hflags := length_applyAll s o front
  rw [applyAll_append, applyAll_cons, List.getElem?_append_right (Nat.le_of_eq hflags), hflags,
    Nat.sub_self]
  rfl

end Progress

namespace Patch

/-- **An application only touches the cores of hunks.** It gives a flag for each hunk. In the text
that the hunks before it have left, a hunk either is rejected and changes nothing, or is accepted
and replaces one occurrence of its core. So the text is longer by what the accepted hunks say in
their headings, and it is the same if there are none. -/
theorem apply_replaces_cores {t : Text} {p : Patch} (hp : parse t = .ok p) (text : Text)
    (o : Reach) :
    (p.apply text o).2.length = p.length ∧
      (∀ front h back, p = front ++ h :: back →
        ((p.apply text o).2[front.length]? = some false ∧
          (apply (front ++ [h]) text o).1 = (apply front text o).1) ∨
        ((p.apply text o).2[front.length]? = some true ∧
          h.Replaces (apply front text o).1 (apply (front ++ [h]) text o).1)) ∧
      ((p.apply text o).1.length : Int) = text.length + p.gained (p.apply text o).2 ∧
      ((∀ flag ∈ (p.apply text o).2, flag = false) → (p.apply text o).1 = text) := by
  refine ⟨Progress.length_applyAll _ o p, ?_, ?_, fun hflags => ?_⟩
  · rintro front h back rfl
    have hflag := Progress.flag_applyAll ⟨text, 0⟩ o front h back
    have htext := congrArg Progress.text (Progress.applyAll_snoc ⟨text, 0⟩ o front h)
    rcases (Progress.applyAll o ⟨text, 0⟩ front).1.apply_replaces o h with hstep | hstep
    · exact Or.inl ⟨hflag.trans (congrArg some hstep.1), htext.trans hstep.2⟩
    · refine Or.inr ⟨hflag.trans (congrArg some hstep.1), ?_⟩
      show h.Replaces _ (Progress.applyAll o ⟨text, 0⟩ (front ++ [h])).1.text
      rw [htext]
      exact hstep.2
  · exact Progress.length_text_applyAll (wellFormed_of_parse hp) ⟨text, 0⟩ o
  · exact Progress.text_applyAll_of_rejected hflags

/-- Of three hunks the first is found in a text with other context, which stays; the second is
rejected, and the third only inserts. -/
theorem apply_replaces_cores_three :
    let first : Hunk :=
      ⟨[⟨.equal, "ab".toList⟩, ⟨.delete, ['c']⟩, ⟨.insert, ['C', 'C']⟩, ⟨.equal, "de".toList⟩],
        0, 5, 0, 6⟩
    let second : Hunk := ⟨[⟨.delete, ['Q']⟩], 3, 1, 3, 0⟩
    let third : Hunk := ⟨[⟨.equal, [',']⟩, ⟨.insert, ['!']⟩, ⟨.equal, ['e']⟩], 6, 2, 6, 3⟩
    let p : Patch := [first, second, third]
    parse p.print = .ok p ∧
      p.apply "xbcdx,end".toList ⟨1, 1⟩ = ("xbCCdx,!end".toList, [true, false, true]) ∧
      first.Replaces "xbcdx,end".toList "xbCCdx,end".toList ∧
      third.Replaces "xbCCdx,end".toList "xbCCdx,!end".toList ∧
      p.gained [true, false, true] = 2 := by
  intro first second third p
  have hw : ∀ g ∈ p, g.WellFormed := by
    simp only [p, List.forall_mem_cons]
    exact ⟨⟨by decide, by decide, rfl, rfl, by decide, by decide⟩,
      ⟨by decide, by decide, rfl, rfl, by decide, by decide⟩,
      ⟨by decide, by decide, rfl, rfl, by decide, by decide⟩, by simp⟩
  have hp : parse p.print = .ok p := parse_print hw
  have happly : p.apply "xbcdx,end".toList ⟨1, 1⟩
      = ("xbCCdx,!end".toList, [true, false, true]) := by decide
  obtain ⟨-, hhunks, hlength, -⟩ := apply_replaces_cores hp "xbcdx,end".toList ⟨1, 1⟩
  have hfirst := hhunks [] first [second, third] rfl
  have hthird := hhunks [first, second] third [] rfl
  rw [happly] at hfirst hthird hlength
  have hone : (apply [first] "xbcdx,end".toList ⟨1, 1⟩).1 = "xbCCdx,end".toList := by decide
  have htwo : (apply [first, second] "xbcdx,end".toList ⟨1, 1⟩).1 = "xbCCdx,end".toList := by decide
  have hall : (apply ([first, second] ++ [third]) "xbcdx,end".toList ⟨1, 1⟩).1
      = "xbCCdx,!end".toList := by decide
  refine ⟨hp, happly, ?_, ?_, ?_⟩
  · obtain ⟨hflag, -⟩ | ⟨-, hreplaces⟩ := hfirst
    · cases hflag
    · exact hone ▸ hreplaces
  · obtain ⟨hflag, -⟩ | ⟨-, hreplaces⟩ := hthird
    · cases hflag
    · rwa [htwo, hall] at hreplaces
  · simp at hlength
    omega

end Patch

end TextHistory
