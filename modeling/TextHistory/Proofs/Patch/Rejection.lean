import TextHistory.Proofs.Patch.Gathering

/-!
# Hunks that find no place

A hunk that finds no place is left out, and the drift is corrected by what the hunk would have
added to the text. The hunks after it are then looked for exactly where they would be looked for in
a patch that never had it, with their places moved back by as much
(`Patch.apply_without_rejected`).

A hunk is looked for by the sum of its place and the drift alone (`Hunk.place?_eq`). So two
applications go the same way when the drift in one of them is ahead by `d` and its hunks are placed
`d` earlier (`Progress.apply_earlier`, `Progress.applyAll_earlier`). Places and drifts have to be
far enough from the ends of the signed words for neither application to meet them.
-/

set_option autoImplicit false

namespace TextHistory

/-! ## Patches with one hunk less -/

/-- By how much a hunk makes a text longer, as its heading says. -/
def Hunk.gain (h : Hunk) : Int := (h.newLength : Int) - h.oldLength

/-- A hunk with its place moved back. -/
def Hunk.earlier (d : Int) (h : Hunk) : Hunk :=
  { h with newStart := ((h.newStart : Int) - d).toNat }

/-- A patch without one of its hunks: the places of the hunks after it are moved back by what it
would have added. -/
def Patch.without (p : Patch) (i : Nat) : Patch :=
  match p[i]? with
  | none => p
  | some h => p.take i ++ (p.drop (i + 1)).map (Hunk.earlier h.gain)

/-- A hunk that can be moved back by `d`: its place before and after is a position, far from the end
of the signed words, and so is the length of the context before its edits. -/
structure Hunk.Movable (d : Int) (h : Hunk) : Prop where
  start_lt : h.newStart < sizeLimit
  moved_nonneg : 0 ≤ (h.newStart : Int) - d
  moved_lt : (h.newStart : Int) - d < sizeLimit
  lead_lt : h.core.lead.length < sizeLimit

/-! ## Where a hunk is looked for -/

/-- Looks for one form of a hunk by the place of the whole hunk, drift included: where it was found,
and how far the form begins behind the hunk. -/
def Core.search? (c full : Core) (text : Text) (place : Int) (range : Nat) : Option (Nat × Nat) :=
  let behind := full.lead.length - c.lead.length
  if place + behind ≤ maxPosition then
    (Text.nearestOccurrence text c.pattern (place + behind).toNat range).map fun p => (p, behind)
  else none

/-- Looks for a hunk by its place, drift included. -/
def Hunk.search? (text : Text) (h : Hunk) (place : Int) (o : Reach) : Option (Core × Nat × Nat) :=
  (h.core.levels o.margin).findSome? fun c =>
    (c.search? h.core text place o.range).map fun p => (c, p)

theorem Core.locate?_eq {full : Core} {start : Nat} (hroom : start + full.lead.length ≤ maxPosition)
    (c : Core) (text : Text) (drift : Int) (range : Nat) :
    c.locate? full text start drift range
      = (c.search? full text (start + drift) range).map fun p => (p.1, start + p.2) := by
  have hnominal : start + (full.lead.length - c.lead.length) ≤ maxPosition := by omega
  have hsum : ((start + (full.lead.length - c.lead.length) : Nat) : Int) + drift
      = start + drift + (full.lead.length - c.lead.length : Nat) := by omega
  simp only [locate?, search?, moved?, hnominal, true_and, hsum, Option.bind_eq_bind]
  split
  · simp only [Option.bind_some]
    cases Text.nearestOccurrence text c.pattern _ range <;> rfl
  · rfl

/-- **Only the sum of the place and the drift counts** for where a hunk is found. -/
theorem Hunk.place?_eq {h : Hunk} (hroom : h.newStart + h.core.lead.length ≤ maxPosition)
    (text : Text) (drift : Int) (o : Reach) :
    h.place? text drift o
      = (h.search? text (h.newStart + drift) o).map fun p => (p.1, p.2.1, h.newStart + p.2.2) := by
  simp only [place?, search?, List.map_findSome?, Core.locate?_eq hroom, Function.comp_def,
    Option.map_map]

/-! ## Two applications side by side -/

theorem clampDrift_eq {x : Int} (hx : (clampDrift x).natAbs < sizeLimit) : clampDrift x = x := by
  rw [sizeLimit_eq] at hx
  simp only [clampDrift, maxPosition_eq] at hx ⊢
  omega

/-- A number that is well within the signed words stays within them when as much is added. -/
theorem clampDrift_add {x d : Int} (hx : (clampDrift x).natAbs < sizeLimit)
    (hd : d.natAbs < sizeLimit) : clampDrift (x + d) = clampDrift x + d := by
  rw [sizeLimit_eq] at hx hd
  simp only [clampDrift, maxPosition_eq] at hx ⊢
  omega

namespace Progress

/-- The same text, with the drift ahead by `d`. -/
def ahead (s : Progress) (d : Int) : Progress := ⟨s.text, s.drift + d⟩

variable {s : Progress} {o : Reach} {d : Int}

theorem apply_of_place {h : Hunk} {c : Core} {found nominal : Nat}
    (hplace : h.place? s.text s.drift o = some (c, found, nominal)) :
    s.apply o h = (⟨Text.splice s.text found c.pattern.length c.replacement,
      (found : Int) - nominal⟩, true) := by
  simp only [apply, hplace]

theorem apply_of_no_place {h : Hunk} (hplace : h.place? s.text s.drift o = none) :
    s.apply o h = (⟨s.text, clampDrift (s.drift - h.gain)⟩, false) := by
  simp only [apply, hplace, Hunk.gain]

/-- A rejected hunk leaves the text as it was, and the drift behind by what it would have added. -/
theorem ahead_of_rejected {h : Hunk} (hrejected : (s.apply o h).2 = false)
    (hdrift : (s.apply o h).1.drift.natAbs < sizeLimit) : (s.apply o h).1.ahead h.gain = s := by
  cases hplace : h.place? s.text s.drift o with
  | none =>
      rw [apply_of_no_place hplace] at hdrift ⊢
      simp only [ahead, clampDrift_eq hdrift, Int.sub_add_cancel]
  | some found =>
      rw [apply_of_place hplace] at hrejected
      cases hrejected

/-- A hunk that is placed `d` earlier does the same where the drift is ahead by `d`. -/
theorem apply_earlier {h : Hunk} (hh : h.Movable d) (hd : d.natAbs < sizeLimit)
    (hdrift : (s.apply o h).1.drift.natAbs < sizeLimit) :
    (s.ahead d).apply o (h.earlier d) = ((s.apply o h).1.ahead d, (s.apply o h).2) := by
  obtain ⟨hlt, hnonneg, hlt', hlead⟩ := hh
  rw [sizeLimit_eq] at hlt hlt' hlead
  have hstart : ((h.earlier d).newStart : Int) = h.newStart - d := Int.toNat_of_nonneg hnonneg
  have hplace := Hunk.place?_eq (h := h) (by rw [maxPosition_eq]; omega) s.text s.drift o
  have hplace' := Hunk.place?_eq (h := h.earlier d)
    (by rw [maxPosition_eq]; show _ + h.core.lead.length ≤ _; omega) s.text (s.drift + d) o
  -- both applications look for the hunk at the same place
  have hsum : ((h.earlier d).newStart : Int) + (s.drift + d) = h.newStart + s.drift := by omega
  rw [hsum] at hplace'
  change _ = Option.map _ (h.search? s.text (h.newStart + s.drift) o) at hplace'
  cases hsearch : h.search? s.text (h.newStart + s.drift) o with
  | none =>
      rw [hsearch, Option.map_none] at hplace hplace'
      have happly := apply_of_no_place hplace
      have happly' : (s.ahead d).apply o (h.earlier d)
          = (⟨s.text, clampDrift (s.drift + d - h.gain)⟩, false) := apply_of_no_place hplace'
      have hcomm : s.drift + d - h.gain = s.drift - h.gain + d := by omega
      rw [happly] at hdrift
      rw [happly', happly, hcomm, clampDrift_add hdrift hd]
      rfl
  | some found =>
      rw [hsearch, Option.map_some] at hplace hplace'
      have hbehind : ((found.2.1 : Int) - ((h.earlier d).newStart + found.2.2 : Nat))
          = (found.2.1 : Int) - (h.newStart + found.2.2 : Nat) + d := by omega
      have happly' := apply_of_place (s := s.ahead d) hplace'
      rw [happly', apply_of_place hplace, hbehind]
      rfl

theorem applyAll_cons (s : Progress) (o : Reach) (h : Hunk) (p : Patch) :
    applyAll o s (h :: p) = ((applyAll o (s.apply o h).1 p).1,
      (s.apply o h).2 :: (applyAll o (s.apply o h).1 p).2) := rfl

theorem applyAll_append (s : Progress) (o : Reach) (p q : Patch) :
    applyAll o s (p ++ q) = ((applyAll o (applyAll o s p).1 q).1,
      (applyAll o s p).2 ++ (applyAll o (applyAll o s p).1 q).2) := by
  induction p generalizing s with
  | nil => rfl
  | cons h p ih => simp only [List.cons_append, applyAll_cons, ih]

theorem length_applyAll (s : Progress) (o : Reach) (p : Patch) :
    (applyAll o s p).2.length = p.length := by
  induction p generalizing s with
  | nil => rfl
  | cons h p ih => simp only [applyAll_cons, List.length_cons, ih]

/-- **Two applications that go the same way**: one with the drift ahead by `d` and the hunks placed
`d` earlier, as long as no drift comes near the ends of the signed words. -/
theorem applyAll_earlier {p : Patch} (hp : ∀ h ∈ p, h.Movable d) (hd : d.natAbs < sizeLimit)
    (hdrifts : ∀ k ≤ p.length, (applyAll o s (p.take k)).1.drift.natAbs < sizeLimit) :
    applyAll o (s.ahead d) (p.map (Hunk.earlier d))
      = ((applyAll o s p).1.ahead d, (applyAll o s p).2) := by
  induction p generalizing s with
  | nil => rfl
  | cons h p ih =>
      rw [List.forall_mem_cons] at hp
      have hdrift : (s.apply o h).1.drift.natAbs < sizeLimit := hdrifts 1 (by simp)
      have hrest : ∀ k ≤ p.length,
          (applyAll o (s.apply o h).1 (p.take k)).1.drift.natAbs < sizeLimit :=
        fun k hk => hdrifts (k + 1) (by simpa using hk)
      rw [List.map_cons, applyAll_cons, apply_earlier hp.1 hd hdrift, ih hp.2 hrest, applyAll_cons]

/-- The rest of a patch goes on after a rejected hunk as it would without it. -/
theorem applyAll_without {front back : Patch} {h : Hunk}
    (hrejected : ((applyAll o s front).1.apply o h).2 = false)
    (hback : ∀ g ∈ back, g.Movable h.gain) (hgain : h.gain.natAbs < sizeLimit)
    (hdrifts : ∀ k ≤ (front ++ h :: back).length,
      (applyAll o s ((front ++ h :: back).take k)).1.drift.natAbs < sizeLimit) :
    applyAll o s (front ++ back.map (Hunk.earlier h.gain))
      = ((applyAll o s (front ++ h :: back)).1.ahead h.gain,
        (applyAll o s (front ++ h :: back)).2.eraseIdx front.length) := by
  have hlater : ∀ k ≤ back.length, (applyAll o ((applyAll o s front).1.apply o h).1
      (back.take k)).1.drift.natAbs < sizeLimit := by
    intro k hk
    have hbound := hdrifts (front.length + (k + 1)) (by simp; omega)
    rwa [List.take_length_add_append, List.take_succ_cons, applyAll_append, applyAll_cons] at hbound
  have hbehind := ahead_of_rejected hrejected (hlater 0 (Nat.zero_le _))
  have hrest := applyAll_earlier hback hgain hlater
  rw [hbehind] at hrest
  have hflags := length_applyAll s o front
  rw [applyAll_append, applyAll_append, applyAll_cons, hrest, ← hflags,
    List.eraseIdx_append_of_length_le (Nat.le_refl _), Nat.sub_self, List.eraseIdx_cons_zero]

end Progress

namespace Patch

/-- **A rejected hunk counts as absent.** Take out of a patch a hunk that found no place, and move
the hunks after it back by what it would have added to the text. The new patch makes the same text,
and all other hunks are placed or rejected as before. -/
theorem apply_without_rejected {p : Patch} {text : Text} {o : Reach} {i : Nat} {h : Hunk}
    (hi : p[i]? = some h) (hrejected : (p.apply text o).2[i]? = some false)
    (hmovable : ∀ g ∈ p.drop (i + 1), g.Movable h.gain) (hgain : h.gain.natAbs < sizeLimit)
    (hdrifts : ∀ k ≤ p.length,
      (Progress.applyAll o ⟨text, 0⟩ (p.take k)).1.drift.natAbs < sizeLimit) :
    (p.without i).apply text o = ((p.apply text o).1, (p.apply text o).2.eraseIdx i) := by
  obtain ⟨hlt, hget⟩ := List.getElem?_eq_some_iff.mp hi
  have hcut : p = p.take i ++ h :: p.drop (i + 1) := by
    rw [← hget, ← List.drop_eq_getElem_cons hlt, List.take_append_drop]
  have hwithout : p.without i = p.take i ++ (p.drop (i + 1)).map (Hunk.earlier h.gain) := by
    rw [without, hi]
  have hfront : (p.take i).length = i := by
    rw [List.length_take]
    omega
  have hfalse : ((Progress.applyAll o ⟨text, 0⟩ (p.take i)).1.apply o h).2 = false := by
    have hflags := Progress.length_applyAll ⟨text, 0⟩ o (p.take i)
    change (Progress.applyAll o ⟨text, 0⟩ p).2[i]? = some false at hrejected
    rw [hcut, Progress.applyAll_append, Progress.applyAll_cons,
      List.getElem?_append_right (by omega), hflags, hfront, Nat.sub_self] at hrejected
    exact Option.some.inj hrejected
  rw [hcut] at hdrifts
  have hrun := Progress.applyAll_without hfalse hmovable hgain hdrifts
  rw [← hcut, hfront] at hrun
  rw [hwithout]
  show ((Progress.applyAll o ⟨text, 0⟩ _).1.text, (Progress.applyAll o ⟨text, 0⟩ _).2) = _
  rw [hrun]
  rfl

/-- The second of five hunks is rejected, in a text that has drifted; of those after it one is found
without its context and one is rejected too. -/
theorem apply_without_rejected_second :
    let first : Hunk := ⟨[⟨.equal, ['a']⟩, ⟨.insert, ['X']⟩, ⟨.equal, ['b']⟩], 0, 2, 0, 3⟩
    let second : Hunk := ⟨[⟨.delete, ['Q', 'Q']⟩, ⟨.insert, "QQQQ!".toList⟩], 3, 2, 3, 5⟩
    let third (n : Nat) : Hunk :=
      ⟨[⟨.equal, ['Z']⟩, ⟨.delete, ['e']⟩, ⟨.insert, ['E', 'E']⟩, ⟨.equal, ['f']⟩], 7, 3, n, 4⟩
    let fourth (n : Nat) : Hunk := ⟨[⟨.delete, ['q']⟩], 12, 1, n, 0⟩
    let fifth (n : Nat) : Hunk := ⟨[⟨.delete, ['j']⟩], 13, 1, n, 0⟩
    let p : Patch := [first, second, third 7, fourth 12, fifth 13]
    let text := "..abcdefghij".toList
    (∀ g ∈ p.drop 2, g.Movable second.gain) ∧
      (∀ k ≤ p.length, (Progress.applyAll ⟨0, 3⟩ ⟨text, 0⟩ (p.take k)).1.drift.natAbs < sizeLimit) ∧
      p.apply text ⟨0, 3⟩ = ("..aXbcdEEfghi".toList, [true, false, true, false, true]) ∧
      p.without 1 = [first, third 4, fourth 9, fifth 10] ∧
      (p.without 1).apply text ⟨0, 3⟩ = ("..aXbcdEEfghi".toList, [true, true, false, true]) := by
  intro first second third fourth fifth p text
  have hmovable : ∀ g ∈ p.drop 2, g.Movable second.gain := by
    simp only [p, List.drop_succ_cons, List.drop_zero, List.forall_mem_cons]
    exact ⟨⟨by decide, by decide, by decide, by decide⟩,
      ⟨by decide, by decide, by decide, by decide⟩,
      ⟨by decide, by decide, by decide, by decide⟩, by simp⟩
  have hdrifts : ∀ k ≤ p.length,
      (Progress.applyAll ⟨0, 3⟩ ⟨text, 0⟩ (p.take k)).1.drift.natAbs < sizeLimit := by decide
  have happly : p.apply text ⟨0, 3⟩
      = ("..aXbcdEEfghi".toList, [true, false, true, false, true]) := by decide
  have hrejected : (p.apply text ⟨0, 3⟩).2[1]? = some false := by rw [happly]; rfl
  have habsent := apply_without_rejected (i := 1) (h := second) rfl hrejected hmovable (by decide)
    hdrifts
  rw [happly] at habsent
  exact ⟨hmovable, hdrifts, happly, rfl, habsent⟩

end Patch

end TextHistory
