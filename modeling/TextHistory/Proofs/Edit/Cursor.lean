import TextHistory.Edit.Checked
import TextHistory.Proofs.Edit.Soundness
import TextHistory.Proofs.Edit.Stretch
import TextHistory.Proofs.Outcome

/-!
# The scan for equalities as a cursor

A scan stands at a position of a script and keeps the positions of the equalities it has passed.
Here it is read as a cursor: the equalities passed, innermost first, each with the stretch of edits
before it, the edits since the innermost one, and the rest of the script. All that a scan counts and
keeps is read off the cursor (`Cursor.scan`), and every scan that begins at the front of a script
goes from one cursor to another (`Cursor.Step`, `Cursor.exists_step`). A step leaves the script as
it is, or turns one equality of it into edits (`Cursor.Step.script_cases`).

So the positions on the stack are those of the equalities passed, whatever was absorbed; a scan
that checks them finds no fault, and it ends (`Script.absorb_faultless`).
-/

set_option autoImplicit false

namespace TextHistory

namespace Scan

theorem step_of_edit {s : Scan} {e : Edit} (hget : s.edits[s.position]? = some e)
    (he : e.kind ≠ .equal) :
    s.step = match s.absorbable e with
      | some (i, t, outer) => some (s.absorb i t outer)
      | none => some (s.advance e) := by
  obtain ⟨kind, t⟩ := e
  unfold step
  generalize s.edits[s.position]? = found at hget ⊢
  subst hget
  cases kind with
  | equal => exact absurd rfl he
  | delete => rfl
  | insert => rfl

theorem stepChecked_of_edit {s : Scan} {e : Edit} (hget : s.edits[s.position]? = some e)
    (he : e.kind ≠ .equal) :
    s.stepChecked = match s.last, s.equalities with
      | some length, i :: outer =>
        if length ≤ s.before.size ∧ length ≤ (s.after.add e).size then
          (s.absorbChecked i outer).map fun next => some (next, 1)
        else .ok (some (s.advance e, 0))
      | _, _ => .ok (some (s.advance e, 0)) := by
  obtain ⟨kind, t⟩ := e
  unfold stepChecked
  generalize s.edits[s.position]? = found at hget ⊢
  subst hget
  cases kind with
  | equal => exact absurd rfl he
  | delete => rfl
  | insert => rfl

end Scan

/-- An equality that a scan has passed, with the edits between it and the equality before it. -/
structure Passed where
  edits : Script
  kept : Text
  editsOnly : edits.EditsOnly

namespace Passed

/-- The script up to the innermost equality passed. -/
def script : List Passed → Script
  | [] => []
  | p :: outer => script outer ++ p.edits ++ [⟨.equal, p.kept⟩]

/-- The positions of the equalities passed. -/
def positions : List Passed → List Nat
  | [] => []
  | p :: outer => (script outer ++ p.edits).length :: positions outer

/-- At the position of an equality passed is an equality, whatever follows. -/
theorem getElem?_of_mem_positions {passed : List Passed} {i : Nat} (h : i ∈ positions passed)
    (s : Script) : ∃ t, (script passed ++ s)[i]? = some ⟨.equal, t⟩ := by
  induction passed generalizing s with
  | nil => simp [positions] at h
  | cons p outer ih =>
      rcases List.mem_cons.mp h with rfl | h
      · refine ⟨p.kept, ?_⟩
        rw [script, List.append_assoc, List.getElem?_append_right (le_refl _)]
        simp
      · rw [script, List.append_assoc, List.append_assoc]
        exact ih h _

end Passed

/-- A place in a script, as a scan sees it. -/
structure Cursor where
  /-- The equalities passed, innermost first. -/
  passed : List Passed
  /-- The edits since the innermost equality. -/
  edits : Script
  editsOnly : edits.EditsOnly
  /-- What has not been looked at yet. -/
  rest : Script
  /-- Whether the innermost equality may still be absorbed. -/
  live : Bool
  changed : Bool

namespace Cursor

/-- The whole script. -/
def script (c : Cursor) : Script := Passed.script c.passed ++ c.edits ++ c.rest

/-- The innermost equality, while it may still be absorbed. -/
def innermost (c : Cursor) : Option Passed := if c.live then c.passed.head? else none

/-- The scan that stands at the cursor. -/
def scan (c : Cursor) : Scan where
  edits := c.script
  position := (Passed.script c.passed ++ c.edits).length
  equalities := Passed.positions c.passed
  before := (c.innermost.map (·.edits.extent)).getD ⟨0, 0⟩
  after := c.edits.extent
  last := c.innermost.map (·.kept.length)
  changed := c.changed

/-- The cursor before a script. -/
def start (s : Script) : Cursor := ⟨[], [], Script.editsOnly_nil, s, false, false⟩

@[simp] theorem scan_start (s : Script) : (start s).scan = { edits := s } := by
  simp [scan, start, script, innermost, Passed.script, Passed.positions]

/-! ## The moves of a cursor -/

/-- Passes an equality. -/
def pass (c : Cursor) (t : Text) (rest : Script) : Cursor :=
  ⟨⟨c.edits, t, c.editsOnly⟩ :: c.passed, [], Script.editsOnly_nil, rest, true, c.changed⟩

/-- Goes over a run of edits. -/
def advance (c : Cursor) (e : Edit) (he : e.kind ≠ .equal) (rest : Script) : Cursor :=
  { c with edits := c.edits ++ [e], editsOnly := by simp [c.editsOnly, he], rest := rest }

/-- Turns the innermost equality into edits and goes back behind the second equality before it, or
to the front of the script. -/
def absorb (c : Cursor) (p : Passed) (outer : List Passed) : Cursor :=
  let tail := p.edits ++ ⟨.delete, p.kept⟩ :: ⟨.insert, p.kept⟩ :: (c.edits ++ c.rest)
  match outer with
  | [] => ⟨[], [], Script.editsOnly_nil, tail, false, true⟩
  | q :: outer =>
    ⟨outer, [], Script.editsOnly_nil, q.edits ++ ⟨.equal, q.kept⟩ :: tail, false, true⟩

/-- With one more run of edits, the innermost equality is no longer than the edits on both sides. -/
def Overtakes (c : Cursor) (e : Edit) (p : Passed) : Prop :=
  p.kept.length ≤ p.edits.extent.size ∧ p.kept.length ≤ (c.edits ++ [e]).extent.size

/-- What a step can do, and how many equalities it absorbs. -/
inductive Step (c : Cursor) : Cursor → Nat → Prop
  | pass {t : Text} {rest : Script} (hrest : c.rest = ⟨.equal, t⟩ :: rest) :
      Step c (c.pass t rest) 0
  | advance {e : Edit} {rest : Script} (hrest : c.rest = e :: rest) (he : e.kind ≠ .equal)
      (h : ∀ p ∈ c.innermost, ¬c.Overtakes e p) : Step c (c.advance e he rest) 0
  | absorb {e : Edit} {rest : Script} {p : Passed} {outer : List Passed}
      (hrest : c.rest = e :: rest) (he : e.kind ≠ .equal) (hlive : c.live = true)
      (hpassed : c.passed = p :: outer) (h : c.Overtakes e p) : Step c (c.absorb p outer) 1

/-! ## The moves of a scan -/

theorem getElem?_position (c : Cursor) : c.scan.edits[c.scan.position]? = c.rest.head? := by
  rw [List.head?_eq_getElem?]
  simp only [scan, script]
  rw [List.getElem?_append_right (le_refl _), Nat.sub_self]

theorem scan_pass {c : Cursor} {t : Text} {rest : Script} (hrest : c.rest = ⟨.equal, t⟩ :: rest) :
    c.scan.pass t.length = (c.pass t rest).scan := by
  simp [Scan.pass, scan, pass, script, innermost, Passed.script, Passed.positions, hrest,
    Nat.add_assoc]

@[simp] theorem innermost_advance (c : Cursor) (e : Edit) (he : e.kind ≠ .equal) (rest : Script) :
    (c.advance e he rest).innermost = c.innermost := rfl

theorem scan_advance {c : Cursor} {e : Edit} {rest : Script} (hrest : c.rest = e :: rest)
    (he : e.kind ≠ .equal) : c.scan.advance e = (c.advance e he rest).scan := by
  simp only [Scan.advance, scan, innermost_advance]
  simp [advance, script, Script.extent_concat, hrest, Nat.add_assoc]

/-- Only an absorption changes the script. -/
theorem script_pass {c : Cursor} {t : Text} {rest : Script} (hrest : c.rest = ⟨.equal, t⟩ :: rest) :
    (c.pass t rest).script = c.script := by
  simp [pass, script, Passed.script, hrest]

theorem script_advance {c : Cursor} {e : Edit} {rest : Script} (hrest : c.rest = e :: rest)
    (he : e.kind ≠ .equal) : (c.advance e he rest).script = c.script := by
  simp [advance, script, hrest]

/-- The equality absorbed is the last one of what was passed. -/
theorem script_of_passed {c : Cursor} {p : Passed} {outer : List Passed}
    (hpassed : c.passed = p :: outer) :
    c.script = (Passed.script outer ++ p.edits) ++ ⟨.equal, p.kept⟩ :: (c.edits ++ c.rest) := by
  simp [script, hpassed, Passed.script]

theorem script_absorb (c : Cursor) (p : Passed) (outer : List Passed) :
    (c.absorb p outer).script = (Passed.script outer ++ p.edits)
      ++ ⟨.delete, p.kept⟩ :: ⟨.insert, p.kept⟩ :: (c.edits ++ c.rest) := by
  cases outer with
  | nil => simp [absorb, script, Passed.script]
  | cons q outer => simp [absorb, script, Passed.script]

theorem scan_absorb {c : Cursor} {p : Passed} {outer : List Passed}
    (hpassed : c.passed = p :: outer) :
    c.scan.absorb (Passed.script outer ++ p.edits).length p.kept (Passed.positions outer)
      = (c.absorb p outer).scan := by
  have hsplit : Scan.split c.script (Passed.script outer ++ p.edits).length p.kept
      = (c.absorb p outer).script := by
    rw [script_absorb, script_of_passed hpassed, Scan.split, List.take_left, List.drop_append]
    simp
  simp only [Scan.absorb, scan, hsplit]
  cases outer with
  | nil => simp [absorb, innermost, Passed.script, Passed.positions]
  | cons q outer =>
      cases outer with
      | nil => simp [absorb, innermost, Passed.script, Passed.positions]
      | cons o outer => simp [absorb, innermost, Passed.script, Passed.positions, Nat.add_assoc]

/-! ## What a step does -/

theorem innermost_eq_some_iff {c : Cursor} {p : Passed} :
    c.innermost = some p ↔ c.live = true ∧ ∃ outer, c.passed = p :: outer := by
  simp [innermost, List.head?_eq_some_iff]

theorem after_add (c : Cursor) (e : Edit) : c.scan.after.add e = (c.edits ++ [e]).extent :=
  (Script.extent_concat c.edits e).symm

/-- What a scan has at hand of the innermost equality, while it may be absorbed. -/
theorem scan_of_innermost {c : Cursor} {p : Passed} {outer : List Passed} (hlive : c.live = true)
    (hpassed : c.passed = p :: outer) :
    c.scan.last = some p.kept.length ∧ c.scan.before = p.edits.extent ∧
      c.scan.equalities
        = (Passed.script outer ++ p.edits).length :: Passed.positions outer := by
  have hinner := innermost_eq_some_iff.mpr ⟨hlive, outer, hpassed⟩
  exact ⟨by simp [scan, hinner], by simp [scan, hinner], by simp [scan, hpassed, Passed.positions]⟩

theorem getElem?_of_passed {c : Cursor} {p : Passed} {outer : List Passed}
    (hpassed : c.passed = p :: outer) :
    c.scan.edits[(Passed.script outer ++ p.edits).length]? = some ⟨.equal, p.kept⟩ := by
  show c.script[_]? = _
  rw [script_of_passed hpassed, List.getElem?_append_right (le_refl _), Nat.sub_self]
  rfl

theorem equalityAt_of_getElem? {edits : Script} {i : Nat} {t : Text}
    (h : edits[i]? = some ⟨.equal, t⟩) : Scan.equalityAt edits i = .ok t := by
  simp only [Scan.equalityAt, h]

/-- The position of the innermost equality, and then those of two more in the script that has
changed, are positions of equalities. -/
theorem absorbChecked_scan {c : Cursor} {p : Passed} {outer : List Passed}
    (hpassed : c.passed = p :: outer) :
    c.scan.absorbChecked (Passed.script outer ++ p.edits).length (Passed.positions outer)
      = .ok (c.absorb p outer).scan := by
  obtain ⟨texts, htexts⟩ : ∃ texts, ((Passed.positions outer).take 2).mapM
      (Scan.equalityAt (c.absorb p outer).scan.edits) = .ok texts := by
    -- the positions farther out lie before the place of the absorption
    refine Outcome.mapM_ok fun i hi => ?_
    obtain ⟨t, ht⟩ := Passed.getElem?_of_mem_positions (List.mem_of_mem_take hi)
      (p.edits ++ ⟨.delete, p.kept⟩ :: ⟨.insert, p.kept⟩ :: (c.edits ++ c.rest))
    refine ⟨t, equalityAt_of_getElem? ?_⟩
    rw [← List.append_assoc, ← script_absorb] at ht
    exact ht
  have hget := equalityAt_of_getElem? (getElem?_of_passed hpassed)
  simp only [Scan.absorbChecked, hget, Outcome.ok_bind, scan_absorb hpassed, htexts]
  rfl

/-- A step of a cursor is a step of the scan that stands there, and no position that it takes from
its stack is a fault. -/
theorem Step.scan_step {c d : Cursor} {n : Nat} (h : Step c d n) :
    c.scan.step = some d.scan ∧ c.scan.stepChecked = .ok (some (d.scan, n)) := by
  have hget := c.getElem?_position
  cases h with
  | @pass t rest hrest =>
      rw [hrest, List.head?_cons] at hget
      constructor
      · simp only [Scan.step, hget, scan_pass hrest]
      · simp only [Scan.stepChecked, hget, scan_pass hrest]
  | @advance e rest hrest he hnot =>
      rw [hrest, List.head?_cons] at hget
      rw [Scan.step_of_edit hget he, Scan.stepChecked_of_edit hget he, scan_advance hrest he]
      cases hinner : c.innermost with
      | none =>
          have hlast : c.scan.last = none := by simp [scan, hinner]
          simp only [Scan.absorbable, hlast, and_self]
      | some p =>
          obtain ⟨hlive, outer, hpassed⟩ := innermost_eq_some_iff.mp hinner
          obtain ⟨hlast, hbefore, hstack⟩ := scan_of_innermost hlive hpassed
          have htest := hnot p hinner
          unfold Overtakes at htest
          simp only [Scan.absorbable, hlast, hstack, hbefore, after_add, if_neg htest, and_self]
  | @absorb e rest p outer hrest he hlive hpassed h =>
      rw [hrest, List.head?_cons] at hget
      rw [Scan.step_of_edit hget he, Scan.stepChecked_of_edit hget he]
      obtain ⟨hlast, hbefore, hstack⟩ := scan_of_innermost hlive hpassed
      unfold Overtakes at h
      constructor
      · simp only [Scan.absorbable, hlast, hstack, hbefore, after_add, if_pos h,
          getElem?_of_passed hpassed, scan_absorb hpassed]
      · simp only [hlast, hstack, hbefore, after_add, if_pos h, absorbChecked_scan hpassed]
        rfl

/-- There is a step from everywhere but the end. -/
theorem exists_step {c : Cursor} (hrest : c.rest ≠ []) : ∃ d n, Step c d n := by
  obtain ⟨e, rest, hrest⟩ := List.exists_cons_of_ne_nil hrest
  by_cases he : e.kind = .equal
  · obtain ⟨kind, t⟩ := e
    cases he
    exact ⟨_, 0, .pass hrest⟩
  · by_cases h : ∃ p ∈ c.innermost, c.Overtakes e p
    · obtain ⟨p, hp, hover⟩ := h
      obtain ⟨hlive, outer, hpassed⟩ := innermost_eq_some_iff.mp hp
      exact ⟨_, 1, .absorb hrest he hlive hpassed hover⟩
    · exact ⟨_, 0, .advance hrest he fun p hp hover => h ⟨p, hp, hover⟩⟩

/-- At the end there is no step. -/
theorem step_of_end {c : Cursor} (hrest : c.rest = []) :
    c.scan.step = none ∧ c.scan.stepChecked = .ok none := by
  have hget : c.scan.edits[c.scan.position]? = none := by rw [getElem?_position, hrest]; rfl
  exact ⟨by simp only [Scan.step, hget], by simp only [Scan.stepChecked, hget]⟩

/-! ## What a step does to the script -/

theorem changed_absorb (c : Cursor) (p : Passed) (outer : List Passed) :
    (c.absorb p outer).changed = true := by
  cases outer with
  | nil => rfl
  | cons q outer => rfl

/-- An equality that is there and overtaken is outweighed. -/
theorem outweighs_of_overtakes {c : Cursor} {e : Edit} {rest : Script} {p : Passed}
    (hrest : c.rest = e :: rest) (he : e.kind ≠ .equal) (hp : p.kept ≠ []) (h : c.Overtakes e p) :
    Script.Outweighs p.edits p.kept (Script.firstEdits (c.edits ++ c.rest)) := by
  have hfirst : Script.firstEdits (c.edits ++ c.rest)
      = (c.edits ++ [e]) ++ Script.firstEdits rest := by
    rw [hrest, Script.firstEdits_append c.editsOnly, List.append_assoc, List.singleton_append]
    simp [Script.firstEdits, he]
  rw [hfirst]
  refine ⟨?_, by simp, h.1, le_trans h.2 (Script.size_le_size_append _ _)⟩
  -- no edits weigh nothing, and the equality does weigh something
  intro hnil
  have hzero : p.kept.length ≤ 0 := by simpa [hnil, Extent.size] using h.1
  exact hp (List.eq_nil_of_length_eq_zero (Nat.le_zero.mp hzero))

/-- A step leaves the script as it is, or it turns an equality into edits, which was outweighed
unless it is empty. -/
theorem Step.script_cases {c d : Cursor} {n : Nat} (h : Step c d n) :
    (n = 0 ∧ d.script = c.script ∧ d.changed = c.changed ∧ d.rest.length < c.rest.length) ∨
      ∃ (outer : List Passed) (p : Passed) (post : Script), n = 1 ∧ d.changed = true ∧
        c.script = (Passed.script outer ++ p.edits) ++ ⟨.equal, p.kept⟩ :: post ∧
        d.script = (Passed.script outer ++ p.edits)
          ++ ⟨.delete, p.kept⟩ :: ⟨.insert, p.kept⟩ :: post ∧
        (p.kept ≠ [] → Script.Outweighs p.edits p.kept post.firstEdits) := by
  cases h with
  | pass hrest =>
      exact Or.inl ⟨rfl, script_pass hrest, rfl, by rw [hrest]; exact Nat.lt_succ_self _⟩
  | advance hrest he _ =>
      exact Or.inl ⟨rfl, script_advance hrest he, rfl, by rw [hrest]; exact Nat.lt_succ_self _⟩
  | @absorb e rest p outer hrest he hlive hpassed hover =>
      exact Or.inr ⟨outer, p, c.edits ++ c.rest, rfl, changed_absorb c p outer,
        script_of_passed hpassed, script_absorb c p outer,
        fun hkept => outweighs_of_overtakes hrest he hkept hover⟩

/-! ## Runs -/

/-- A scan that begins at a cursor ends at one, and what every step keeps holds there. -/
theorem exists_run {motive : Cursor → Prop} (hstep : ∀ c d n, motive c → Step c d n → motive d)
    (c : Cursor) (hc : motive c) : ∃ d, d.rest = [] ∧ motive d ∧ c.scan.run = d.scan := by
  -- by the recursion of the run, with the cursor at which it has arrived
  generalize hs : c.scan = s
  fun_induction Scan.run s generalizing c with
  | case1 s h =>
      subst hs
      by_cases hrest : c.rest = []
      · exact ⟨c, hrest, hc, rfl⟩
      · obtain ⟨d, n, hd⟩ := exists_step hrest
        rw [hd.scan_step.1] at h
        cases h
  | case2 s s' h ih =>
      subst hs
      by_cases hrest : c.rest = []
      · rw [(step_of_end hrest).1] at h
        cases h
      · obtain ⟨d, n, hd⟩ := exists_step hrest
        rw [hd.scan_step.1] at h
        cases h
        exact ih d (hstep c d n hc hd) rfl

/-! ## The scan ends -/

/-- A step leaves as many equalities as it does not absorb, and a run more for each that it does. If
it absorbs none, there is less to go. -/
theorem Step.counts {c d : Cursor} {n : Nat} (h : Step c d n) :
    Scan.equalityCount d.script + n = Scan.equalityCount c.script ∧
      d.script.length = c.script.length + n ∧ (n = 0 → d.rest.length < c.rest.length) := by
  rcases h.script_cases with ⟨rfl, hsame, -, hrest⟩ | ⟨outer, p, post, rfl, -, hold, hnew, -⟩
  · rw [hsame]
    exact ⟨rfl, rfl, fun _ => hrest⟩
  · rw [hold, hnew]
    refine ⟨?_, ?_, by simp⟩
    · simp [Scan.equalityCount, Nat.add_assoc]
    · simp only [List.length_append, List.length_cons]
      omega

/-- A bound on the steps that are left: a whole script for every equality, and the rest of this
one. -/
def potential (c : Cursor) : Nat :=
  Scan.equalityCount c.script * (c.script.length + Scan.equalityCount c.script + 1) + c.rest.length

theorem Step.potential_lt {c d : Cursor} {n : Nat} (h : Step c d n) :
    d.potential < c.potential := by
  obtain ⟨hcount, hlength, hrest⟩ := h.counts
  have hle : d.rest.length ≤ d.script.length := by
    rw [script, List.length_append]
    exact Nat.le_add_left _ _
  cases n with
  | zero =>
      have := hrest rfl
      simp only [potential, ← hcount, hlength, Nat.add_zero]
      omega
  | succ n =>
      -- the script and its equalities are as many as before, and one of these counts for more
      have hsum : d.script.length + Scan.equalityCount d.script
          = c.script.length + Scan.equalityCount c.script := by omega
      have hmul : Scan.equalityCount d.script + 1 ≤ Scan.equalityCount c.script := by omega
      have := Nat.mul_le_mul_right (c.script.length + Scan.equalityCount c.script + 1) hmul
      rw [Nat.add_one_mul] at this
      simp only [potential, hsum]
      omega

end Cursor

/-! ## Scans from the front of a script -/

namespace Scan

theorem run_of_step {s s' : Scan} (h : s.step = some s') : s.run = s'.run := by
  rw [run]
  split
  · next h' => simp [h] at h'
  · next t h' =>
    rw [h] at h'
    cases h'
    rfl

theorem run_of_end {s : Scan} (h : s.step = none) : s.run = s := by
  rw [run]
  split
  · rfl
  · next t h' => simp [h] at h'

/-- A scan that stands at a cursor finds no fault in its stack, and it ends. -/
theorem runChecked_cursor {steps : Nat} {c : Cursor} (h : c.potential < steps) :
    ∃ n ≤ equalityCount c.script, runChecked steps c.scan = .ok (c.scan.run, n) := by
  -- each step is paid for by the potential, and its absorptions by the equalities that are left
  induction steps generalizing c with
  | zero => omega
  | succ steps ih =>
      by_cases hrest : c.rest = []
      · obtain ⟨hend, hchecked⟩ := Cursor.step_of_end hrest
        refine ⟨0, Nat.zero_le _, ?_⟩
        rw [run_of_end hend, runChecked, hchecked]
        rfl
      · obtain ⟨d, n, hd⟩ := Cursor.exists_step hrest
        obtain ⟨hstep, hchecked⟩ := hd.scan_step
        obtain ⟨m, hm, hrun⟩ := ih (Nat.lt_of_lt_of_le hd.potential_lt (Nat.le_of_lt_succ h))
        refine ⟨n + m, by have := hd.counts.1; omega, ?_⟩
        rw [run_of_step hstep, runChecked, hchecked, Outcome.ok_bind]
        simp only [hrun]
        rfl

theorem runChecked_start (s : Script) :
    ∃ n ≤ equalityCount s,
      runChecked (stepLimit s) { edits := s } = .ok (run { edits := s }, n) := by
  have hlimit : (Cursor.start s).potential < stepLimit s := Nat.lt_succ_of_le (le_of_eq rfl)
  have h := runChecked_cursor hlimit
  rwa [Cursor.scan_start] at h

end Scan

/-- Absorption gives what the scan that checks its stack gives. -/
theorem Script.absorb_checked (s : Script) :
    (Scan.runChecked (Scan.stepLimit s) { edits := s }).map
        (fun r => if r.1.changed then merge r.1.edits else r.1.edits) = .ok (absorb s) := by
  obtain ⟨n, -, hrun⟩ := Scan.runChecked_start s
  rw [hrun]
  rfl

/-- **Absorption takes its stack at its word, and rightly so.** The scan ends, within
`Scan.stepLimit` steps and with no more absorptions than the script has equalities, and every
position that it takes from its stack is that of an equality at that moment. The script that comes
of it leads from the same text to the same text. -/
theorem Script.absorb_faultless (s : Script) :
    (∃ n ≤ Scan.equalityCount s,
      Scan.runChecked (Scan.stepLimit s) { edits := s } = .ok (Scan.run { edits := s }, n)) ∧
    (absorb s).Spells s.source s.target :=
  ⟨Scan.runChecked_start s, (spells_self s).absorb⟩

/-- Both equalities are absorbed, the first one when it is looked at again. -/
example :
    let s : Script := [⟨.delete, ['a', 'b']⟩, ⟨.equal, ['c', 'd']⟩, ⟨.delete, ['e']⟩,
      ⟨.equal, ['f']⟩, ⟨.insert, ['g']⟩]
    (Scan.runChecked (Scan.stepLimit s) { edits := s }).map (·.2) = .ok 2 := rfl

/-- A stack with the position of an edit on it is found out. -/
example :
    Scan.stepChecked
        { edits := [⟨.delete, ['a']⟩, ⟨.equal, ['b']⟩, ⟨.insert, ['c']⟩], position := 2,
          equalities := [0], before := ⟨0, 1⟩, last := some 1 }
      = .error .noEquality := rfl

end TextHistory
