import TextHistory.Proofs.Patch.Rejection

/-!
# Where a hunk is placed

Context decides where a hunk is placed, never whether it is. A hunk that looks for something
between its contexts finds a place exactly if this stands near the place where it is expected,
whatever the contexts and the margin are; one that looks for nothing finds a place exactly if its
two contexts stand near, one after the other (`Progress.accepted_iff`). Of the three forms in which
a hunk is looked for, with all of its context, with the margin's worth of it and with none, the
first one that stands near is taken, where it stands nearest (`Progress.placed_by_context`).

Dropping context moves the place where a form is expected just as far as it moves the form
(`Text.StandsNear.of_lead`), so that no form can stand near unless the barest one does.
-/

set_option autoImplicit false

namespace TextHistory

/-! ## Near a place -/

namespace Text

/-- A pattern stands in a text no farther than `range` from a place. -/
def StandsNear (text pattern : Text) (place : Int) (range : Nat) : Prop :=
  ∃ p : Nat, occursAt text pattern p = true ∧ ((p : Int) - place).natAbs ≤ range

/-- A pattern stands in a text at a position no farther than `range` from a place; it stands nowhere
nearer to the place, and nowhere as near at a smaller position. -/
structure StandsNearest (text pattern : Text) (place : Int) (range p : Nat) : Prop where
  occurs : occursAt text pattern p = true
  near : ((p : Int) - place).natAbs ≤ range
  nearest : ∀ q : Nat, occursAt text pattern q = true →
    ((p : Int) - place).natAbs < ((q : Int) - place).natAbs ∨
      (((p : Int) - place).natAbs = ((q : Int) - place).natAbs ∧ p ≤ q)

theorem distance_toNat {place : Int} (h : 0 ≤ place) (p : Nat) :
    distance p place.toNat = ((p : Int) - place).natAbs := by
  simp only [distance]
  omega

variable {text pattern : Text} {place : Int} {range : Nat}

/-- What a search for a place takes, in terms of the place. -/
theorem nearestOccurrence_toNat_eq_some_iff (h : 0 ≤ place) {p : Nat} :
    nearestOccurrence text pattern place.toNat range = some p ↔
      StandsNearest text pattern place range p := by
  simp only [nearestOccurrence_eq_some_iff, distance_toNat h]
  exact ⟨fun ⟨ho, hr, hn⟩ => ⟨ho, hr, hn⟩, fun ⟨ho, hr, hn⟩ => ⟨ho, hr, hn⟩⟩

theorem nearestOccurrence_toNat_eq_none_iff (h : 0 ≤ place) :
    nearestOccurrence text pattern place.toNat range = none ↔
      ¬StandsNear text pattern place range := by
  simp only [nearestOccurrence_eq_none_iff, distance_toNat h, StandsNear, not_exists, not_and,
    Nat.not_le]

/-- What stands in a pattern after a beginning and before an end stands as much farther on as the
beginning is long. -/
theorem StandsNear.of_lead {lead trail : Text}
    (h : StandsNear text (lead ++ pattern ++ trail) place range) :
    StandsNear text pattern (place + lead.length) range := by
  obtain ⟨p, hp, hnear⟩ := h
  exact ⟨p + lead.length, occursAt_inner hp, by omega⟩

end Text

/-! ## One form of a hunk -/

/-- Where a form of a hunk is expected, drift included: behind the place of the hunk by as much
as it lacks of the context before the edits. -/
def Hunk.expected (h : Hunk) (drift : Int) (c : Core) : Int :=
  h.newStart + drift + (h.core.lead.length - c.lead.length : Nat)

namespace Core

variable {c full : Core} {text : Text} {place : Int} {range : Nat}

theorem search?_eq (hroom : place + full.lead.length ≤ maxPosition) :
    c.search? full text place range
      = (Text.nearestOccurrence text c.pattern
          (place + (full.lead.length - c.lead.length : Nat)).toNat range).map
        fun p => (p, full.lead.length - c.lead.length) :=
  if_pos (by omega)

theorem search?_eq_some_iff (hnonneg : 0 ≤ place) (hroom : place + full.lead.length ≤ maxPosition)
    {p behind : Nat} : c.search? full text place range = some (p, behind) ↔
      behind = full.lead.length - c.lead.length ∧
        Text.StandsNearest text c.pattern (place + behind) range p := by
  rw [search?_eq hroom, Option.map_eq_some_iff]
  constructor
  · rintro ⟨q, hq, hpair⟩
    obtain ⟨rfl, rfl⟩ := Prod.mk.inj hpair
    exact ⟨rfl, (Text.nearestOccurrence_toNat_eq_some_iff (by omega)).mp hq⟩
  · rintro ⟨rfl, hp⟩
    exact ⟨p, (Text.nearestOccurrence_toNat_eq_some_iff (by omega)).mpr hp, rfl⟩

theorem search?_eq_none_iff (hnonneg : 0 ≤ place) (hroom : place + full.lead.length ≤ maxPosition) :
    c.search? full text place range = none ↔
      ¬Text.StandsNear text c.pattern (place + (full.lead.length - c.lead.length : Nat)) range := by
  rw [search?_eq hroom, Option.map_eq_none_iff,
    Text.nearestOccurrence_toNat_eq_none_iff (by omega)]

/-! ### The forms -/

theorem levels_of_source (h : c.source ≠ []) (margin : Nat) :
    c.levels margin = [c, c.trim margin, c.trim 0] :=
  if_neg (by simpa using h)

theorem levels_of_no_source (h : c.source = []) (margin : Nat) : c.levels margin = [c] :=
  if_pos (by simp [h])

/-- Whichever forms are tried, they are tried in the order in which context is dropped. -/
theorem levels_sublist (c : Core) (margin : Nat) :
    ∃ more, [c, c.trim margin, c.trim 0] = c.levels margin ++ more := by
  by_cases h : c.source = []
  · exact ⟨[c.trim margin, c.trim 0], by rw [levels_of_no_source h]; rfl⟩
  · exact ⟨[], by rw [levels_of_source h, List.append_nil]⟩

/-- Every form looks for the same between its contexts and puts the same there. -/
theorem of_mem_levels {margin : Nat} (h : c ∈ full.levels margin) :
    c.source = full.source ∧ c.target = full.target ∧ c.lead.length ≤ full.lead.length := by
  have htrim : ∀ kept, (full.trim kept).lead.length ≤ full.lead.length := by
    intro kept
    simp only [trim, List.length_drop]
    omega
  obtain ⟨more, hmore⟩ := full.levels_sublist margin
  have hmem : c ∈ [full, full.trim margin, full.trim 0] := hmore ▸ List.mem_append_left more h
  simp only [List.mem_cons, List.not_mem_nil, or_false] at hmem
  rcases hmem with rfl | rfl | rfl
  · exact ⟨rfl, rfl, Nat.le_refl _⟩
  · exact ⟨rfl, rfl, htrim margin⟩
  · exact ⟨rfl, rfl, htrim 0⟩

theorem pattern_trim_zero (c : Core) : (c.trim 0).pattern = c.source := by
  simp [trim, pattern]

theorem lead_trim_zero (c : Core) : (c.trim 0).lead = [] := by
  simp [trim]

end Core

/-! ## All forms of a hunk -/

namespace Progress

variable {s : Progress} {o : Reach} {h : Hunk}

/-- A place that is found: the form, the position, and the forms that were tried before. -/
theorem apply_of_accepted (hroom : h.newStart + h.core.lead.length ≤ maxPosition)
    (hdrifted : h.newStart + h.core.lead.length + s.drift ≤ maxPosition)
    (hnonneg : 0 ≤ h.newStart + s.drift) (haccepted : (s.apply o h).2 = true) :
    ∃ passed c rest p, h.core.levels o.margin = passed ++ c :: rest ∧
      (∀ g ∈ passed, ¬Text.StandsNear s.text g.pattern (h.expected s.drift g) o.range) ∧
      Text.StandsNearest s.text c.pattern (h.expected s.drift c) o.range p ∧
      s.apply o h = (⟨Text.splice s.text p c.pattern.length c.replacement,
        s.drift + (p - h.expected s.drift c)⟩, true) := by
  have hplace := Hunk.place?_eq hroom s.text s.drift o
  have hdrifted' : h.newStart + s.drift + h.core.lead.length ≤ maxPosition := by omega
  cases hsearch : h.search? s.text (h.newStart + s.drift) o with
  | none =>
      rw [hsearch, Option.map_none] at hplace
      rw [apply_of_no_place hplace] at haccepted
      cases haccepted
  | some found =>
      obtain ⟨c, p, behind⟩ := found
      rw [hsearch, Option.map_some] at hplace
      obtain ⟨passed, g, rest, hlevels, hg, hpassed⟩ := List.findSome?_eq_some_iff.mp hsearch
      obtain ⟨at_, hat, hpair⟩ := Option.map_eq_some_iff.mp hg
      obtain ⟨rfl, rfl⟩ := Prod.mk.inj hpair
      obtain ⟨rfl, hnearest⟩ := (Core.search?_eq_some_iff hnonneg hdrifted').mp hat
      refine ⟨passed, g, rest, p, hlevels, fun f hf => ?_, hnearest, ?_⟩
      · have hnone := Option.map_eq_none_iff.mp (hpassed f hf)
        exact (Core.search?_eq_none_iff hnonneg hdrifted').mp hnone
      · rw [apply_of_place hplace]
        have hdrift : (p : Int) - (h.newStart + (h.core.lead.length - g.lead.length) : Nat)
            = s.drift + (p - h.expected s.drift g) := by
          simp only [Hunk.expected]
          omega
        rw [hdrift]

/-- A hunk is accepted when one of its forms stands near the place where it is expected. -/
theorem accepted_iff_form (hroom : h.newStart + h.core.lead.length ≤ maxPosition)
    (hdrifted : h.newStart + h.core.lead.length + s.drift ≤ maxPosition)
    (hnonneg : 0 ≤ h.newStart + s.drift) :
    (s.apply o h).2 = true ↔ ∃ c ∈ h.core.levels o.margin,
      Text.StandsNear s.text c.pattern (h.expected s.drift c) o.range := by
  constructor
  · intro haccepted
    obtain ⟨passed, c, rest, p, hlevels, -, hnearest, -⟩ :=
      apply_of_accepted hroom hdrifted hnonneg haccepted
    exact ⟨c, by simp [hlevels], p, hnearest.occurs, hnearest.near⟩
  · rintro ⟨c, hc, hnear⟩
    cases hplace : h.place? s.text s.drift o with
    | some found => rw [apply_of_place hplace]
    | none =>
        -- a hunk without a place has no form that stands near
        rw [Hunk.place?_eq hroom, Option.map_eq_none_iff] at hplace
        have hnone := List.findSome?_eq_none_iff.mp hplace c hc
        rw [Option.map_eq_none_iff, Core.search?_eq_none_iff hnonneg (by omega)] at hnone
        exact absurd hnear hnone

/-- **Whether a hunk is accepted** does not hang on its contexts, as long as it looks for anything
between them. -/
theorem accepted_iff (hroom : h.newStart + h.core.lead.length ≤ maxPosition)
    (hdrifted : h.newStart + h.core.lead.length + s.drift ≤ maxPosition)
    (hnonneg : 0 ≤ h.newStart + s.drift) :
    (s.apply o h).2 = true ↔
      if h.core.source = [] then
        Text.StandsNear s.text (h.core.lead ++ h.core.trail) (h.newStart + s.drift) o.range
      else
        Text.StandsNear s.text h.core.source (h.newStart + h.core.lead.length + s.drift)
          o.range := by
  rw [accepted_iff_form hroom hdrifted hnonneg]
  split
  · next hempty =>
    have hpattern : h.core.pattern = h.core.lead ++ h.core.trail := by simp [Core.pattern, hempty]
    simp [Core.levels_of_no_source hempty, Hunk.expected, hpattern]
  · next hsource =>
    have hplace : h.expected s.drift (h.core.trim 0)
        = h.newStart + h.core.lead.length + s.drift := by
      simp only [Hunk.expected, Core.lead_trim_zero, List.length_nil]
      omega
    constructor
    · rintro ⟨c, hc, hnear⟩
      obtain ⟨hsrc, -, hlead⟩ := Core.of_mem_levels hc
      have hbare := Text.StandsNear.of_lead hnear
      have hsum : h.expected s.drift c + c.lead.length
          = h.newStart + h.core.lead.length + s.drift := by
        simp only [Hunk.expected]
        omega
      rwa [hsrc, hsum] at hbare
    · intro hnear
      refine ⟨h.core.trim 0, by simp [Core.levels_of_source hsource], ?_⟩
      rwa [Core.pattern_trim_zero, hplace]

/-- **Context decides where, never whether.** Let the place of a hunk, with the context before its
edits and with the drift, be no position below zero and none that is too large. What the hunk looks
for between its contexts alone decides whether it is accepted, or else, if that is nothing, its two
contexts do. An accepted hunk takes the first of its three forms that stands near the place where
it is expected, and the position nearest to that place, the smaller one of two that are as near. -/
theorem placed_by_context (s : Progress) (o : Reach) (h : Hunk)
    (hroom : h.newStart + h.core.lead.length ≤ maxPosition)
    (hdrifted : h.newStart + h.core.lead.length + s.drift ≤ maxPosition)
    (hnonneg : 0 ≤ h.newStart + s.drift) :
    ((s.apply o h).2 = true ↔
      if h.core.source = [] then
        Text.StandsNear s.text (h.core.lead ++ h.core.trail) (h.newStart + s.drift) o.range
      else
        Text.StandsNear s.text h.core.source (h.newStart + h.core.lead.length + s.drift)
          o.range) ∧
      ((s.apply o h).2 = true → ∃ passed c rest p,
        [h.core, h.core.trim o.margin, h.core.trim 0] = passed ++ c :: rest ∧
        (∀ g ∈ passed, ¬Text.StandsNear s.text g.pattern (h.expected s.drift g) o.range) ∧
        Text.StandsNearest s.text c.pattern (h.expected s.drift c) o.range p ∧
        s.apply o h = (⟨Text.splice s.text p c.pattern.length c.replacement,
          s.drift + (p - h.expected s.drift c)⟩, true)) := by
  refine ⟨accepted_iff hroom hdrifted hnonneg, fun haccepted => ?_⟩
  obtain ⟨passed, c, rest, p, hlevels, hpassed, hnearest, happly⟩ :=
    apply_of_accepted hroom hdrifted hnonneg haccepted
  obtain ⟨more, hmore⟩ := h.core.levels_sublist o.margin
  exact ⟨passed, c, rest ++ more, p, by simp [hmore, hlevels], hpassed, hnearest, happly⟩

/-- The whole context stands nowhere. With one character of it on each side the hunk stands twice,
as far before the place where it is expected as behind. -/
theorem placed_by_context_tie :
    let h : Hunk :=
      ⟨[⟨.equal, "ab".toList⟩, ⟨.delete, ['c']⟩, ⟨.insert, ['C', 'C']⟩, ⟨.equal, "de".toList⟩],
        0, 5, 4, 6⟩
    let s : Progress := ⟨"c...bcd.bcd".toList, 1⟩
    let forms : List Core :=
      [⟨"ab".toList, ['c'], ['C', 'C'], "de".toList⟩, ⟨['b'], ['c'], ['C', 'C'], ['d']⟩,
        ⟨[], ['c'], ['C', 'C'], []⟩]
    (h.newStart + h.core.lead.length ≤ maxPosition ∧
      (h.newStart : Int) + h.core.lead.length + s.drift ≤ maxPosition ∧ 0 ≤ h.newStart + s.drift) ∧
      s.apply ⟨1, 2⟩ h = (⟨"c...bCCd.bcd".toList, -1⟩, true) ∧
      Text.StandsNear s.text ['c'] 7 2 ∧
      ∃ passed c rest p, forms = passed ++ c :: rest ∧
        (∀ g ∈ passed, ¬Text.StandsNear s.text g.pattern (h.expected 1 g) 2) ∧
        Text.StandsNearest s.text c.pattern (h.expected 1 c) 2 p ∧
        (p : Int) = h.expected 1 c - 2 := by
  intro h s forms
  have hroom : h.newStart + h.core.lead.length ≤ maxPosition := by decide
  have hdrifted : (h.newStart : Int) + h.core.lead.length + s.drift ≤ maxPosition := by decide
  have hnonneg : 0 ≤ h.newStart + s.drift := by decide
  have happly : s.apply ⟨1, 2⟩ h = (⟨"c...bCCd.bcd".toList, -1⟩, true) := by decide
  have haccepted : (s.apply ⟨1, 2⟩ h).2 = true := by rw [happly]
  obtain ⟨hiff, hform⟩ := placed_by_context s ⟨1, 2⟩ h hroom hdrifted hnonneg
  obtain ⟨passed, c, rest, p, hforms, hpassed, hnearest, htaken⟩ := hform haccepted
  refine ⟨⟨hroom, hdrifted, hnonneg⟩, happly, hiff.mp haccepted, passed, c, rest, p, hforms,
    hpassed, hnearest, ?_⟩
  rw [happly] at htaken
  have hdrift : (-1 : Int) = 1 + (p - h.expected 1 c) := congrArg (·.1.drift) htaken
  omega

end Progress

end TextHistory
