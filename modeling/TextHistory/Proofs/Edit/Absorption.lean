import Mathlib.Logic.Function.Iterate
import TextHistory.Proofs.Edit.Cursor
import TextHistory.Proofs.Edit.Merging

/-!
# What absorbing equalities comes to

A scan leaves nothing outweighed behind it (`Cursor.Firm`): an equality that it has passed is not
outweighed by what is before and after it, and when the edits after an equality grow, because the
next one is absorbed, the scan looks at it again. So the script at its end is lasting, and a script
in normal form is left alone exactly when it is lasting already (`Script.absorb_eq_self_iff`). Each
absorption makes two stretches into one (`Cursor.Step.length_stretches`).

What is merged at the end is not scanned again. Where a stretch has come to delete what it inserts,
merging joins the equalities on both sides of it, and the one that comes of them may be outweighed
by edits that outweighed neither (`Script.outweighed_absorb`, `Script.absorb_misses_joined`).
Absorbing once more, as often as there are stretches, leaves a lasting script.
-/

set_option autoImplicit false

namespace TextHistory

open Script

/-! ## What a scan leaves behind -/

theorem Passed.lastEdits_script (passed : List Passed) : lastEdits (script passed) = [] := by
  cases passed with
  | nil => rfl
  | cons p outer =>
      rw [script, lastEdits_cut]
      rfl

theorem Passed.stretches_append (passed : List Passed) (r : Script) :
    stretches (script passed ++ r) = stretches (script passed) ++ stretches r := by
  cases passed with
  | nil => rfl
  | cons p outer =>
      rw [script, List.append_assoc, List.singleton_append, stretches_cut, stretches_cut,
        show stretches [] = [] from rfl, List.append_nil]

/-- An equality passed is not outweighed by the edits before it and those up to the next one. -/
def Passed.Holds (p : Passed) (after : Script) : Prop := ¬Outweighs p.edits p.kept after

/-- When no equality passed is outweighed, the script up to the last edits is lasting. -/
theorem Passed.lasting {passed : List Passed} {r : Script} (hr : r.EditsOnly)
    (hchain : passed.IsChain fun p q => q.Holds p.edits) (hlast : ∀ p ∈ passed.head?, p.Holds r) :
    Lasting (script passed ++ r) := by
  induction passed generalizing r with
  | nil => exact hr.lasting
  | cons p outer ih =>
      obtain ⟨hnext, hchain⟩ := List.isChain_cons.mp hchain
      rw [script, List.append_assoc, List.singleton_append, lasting_cut_iff]
      refine ⟨ih p.editsOnly hchain hnext, hr.lasting, ?_⟩
      rw [lastEdits_append p.editsOnly, lastEdits_script, firstEdits_eq_self hr]
      exact hlast p rfl

namespace Cursor

/-- No equality that was passed is outweighed, as far as the scan has looked: the innermost one, as
long as it may be absorbed, by the edits since, and later by all that come before the next. -/
structure Firm (c : Cursor) : Prop where
  passed : c.passed.IsChain fun p q => q.Holds p.edits
  innermost : ∀ p ∈ c.passed.head?,
    p.Holds (if c.live then c.edits else c.edits ++ firstEdits c.rest)

theorem firm_start (s : Script) : (start s).Firm := ⟨.nil, by simp [start]⟩

theorem Step.firm {c d : Cursor} {n : Nat} (hc : c.Firm) (h : Step c d n) : d.Firm := by
  cases h with
  | @pass t rest hrest =>
      refine ⟨List.isChain_cons.mpr ⟨fun p hp => ?_, hc.passed⟩, ?_⟩
      · -- the edits of the one before are complete
        have := hc.innermost p hp
        rw [hrest] at this
        simpa [firstEdits] using this
      · rintro p hp ⟨-, hafter, -, -⟩
        exact hafter rfl
  | @advance e rest hrest he hnot =>
      refine ⟨hc.passed, fun p hp => ?_⟩
      have hold := hc.innermost p hp
      show p.Holds (if c.live then c.edits ++ [e] else c.edits ++ [e] ++ firstEdits rest)
      cases hlive : c.live with
      | true =>
          have hhead : c.passed.head? = some p := hp
          have hinner : c.innermost = some p := by simp [Cursor.innermost, hlive, hhead]
          exact fun ho => hnot p hinner ⟨ho.le_before, ho.le_after⟩
      | false =>
          rw [hlive, hrest] at hold
          simpa [firstEdits, he] using hold
  | @absorb e rest p outer hrest he hlive hpassed hover =>
      have hchain := hc.passed
      rw [hpassed] at hchain
      cases outer with
      | nil => exact ⟨.nil, by simp [Cursor.absorb]⟩
      | cons q outer =>
          -- the scan goes back behind the second equality: what follows on that is as it was
          obtain ⟨-, hchain⟩ := List.isChain_cons.mp hchain
          obtain ⟨hnext, hchain⟩ := List.isChain_cons.mp hchain
          refine ⟨hchain, fun o ho => ?_⟩
          have hold := hnext o ho
          simpa [Cursor.absorb, firstEdits_eq_self q.editsOnly] using hold

/-! ## What an absorption does to the script -/

/-- An absorption makes two stretches into one, if the equality is not empty. -/
theorem Step.length_stretches {c d : Cursor} {n : Nat} (hc : ∀ e ∈ c.script, e.text ≠ [])
    (h : Step c d n) : d.script.stretches.length + n = c.script.stretches.length := by
  rcases h.script_cases with ⟨rfl, hsame, -, -⟩ | ⟨outer, p, post, rfl, -, hold, hnew, hout⟩
  · rw [hsame, Nat.add_zero]
  · have ho := hout (hc ⟨.equal, p.kept⟩ (by simp [hold]))
    have hbefore : p.edits.stretches = [p.edits] := by
      rw [stretches_of_editsOnly p.editsOnly, if_neg ho.before_ne_nil]
    -- with the equality turned into edits, the stretch before it runs on into the one after
    have hjoin := length_stretches_append (r := p.edits ++ [⟨.delete, p.kept⟩, ⟨.insert, p.kept⟩])
      (by simp [p.editsOnly]) ho.after_ne_nil
    have hold' : c.script.stretches = stretches (Passed.script outer) ++
        ([p.edits] ++ stretches post) := by
      rw [hold, List.append_assoc, Passed.stretches_append, stretches_cut, hbefore]
    have hnew' : d.script.stretches = stretches (Passed.script outer) ++
        stretches (p.edits ++ [⟨.delete, p.kept⟩, ⟨.insert, p.kept⟩] ++ post) := by
      rw [hnew, List.append_assoc, Passed.stretches_append]
      simp
    rw [hold', hnew', List.length_append, List.length_append, List.length_append, hjoin]
    simp only [List.length_singleton]
    omega

/-- An absorption makes no equalities into neighbours: it puts edits in the place of one. -/
theorem Step.spaced {c d : Cursor} {n : Nat} (hc : Spaced c.script) (h : Step c d n) :
    Spaced d.script := by
  rcases h.script_cases with ⟨-, hsame, -, -⟩ | ⟨outer, p, post, -, -, hold, hnew, -⟩
  · rwa [hsame]
  · rw [hold, Spaced, List.isChain_append] at hc
    rw [hnew, Spaced, List.isChain_append]
    refine ⟨hc.1, ?_, ?_⟩
    · exact (hc.2.1.tail.cons fun _ _ h => absurd h (by simp)).cons (by simp)
    · rintro a - b hb -
      cases hb
      simp

/-- What is known of a cursor in a scan of a script without empty runs. -/
structure Scans (s : Script) (c : Cursor) : Prop where
  firm : c.Firm
  texts : ∀ e ∈ c.script, e.text ≠ []
  spaced : Spaced c.script
  unchanged : c.changed = false → c.script = s
  fewer : c.changed = true → c.script.stretches.length < s.stretches.length

theorem scans_start {s : Script} (hs : s.Normal) : Scans s (start s) where
  firm := firm_start s
  texts := hs.nonempty
  spaced := hs.alternates.imp fun _ _ hab ha hb => hab (ha.trans hb.symm)
  unchanged := fun _ => rfl
  fewer := fun h => Bool.noConfusion h

theorem Step.scans {s : Script} {c d : Cursor} {n : Nat} (hc : Scans s c) (h : Step c d n) :
    Scans s d := by
  obtain ⟨htexts, hsame⟩ := Scan.step_nonempty h.scan_step.1 hc.texts
  refine ⟨h.firm hc.firm, htexts, h.spaced hc.spaced, fun hd => ?_, fun hd => ?_⟩
  · obtain ⟨hchanged, hscript⟩ := hsame hd
    exact hscript.trans (hc.unchanged hchanged)
  · have hle : c.script.stretches.length ≤ s.stretches.length := by
      cases hchanged : c.changed with
      | true => exact Nat.le_of_lt (hc.fewer hchanged)
      | false => rw [hc.unchanged hchanged]
    have hstretches := h.length_stretches hc.texts
    rcases h.script_cases with ⟨rfl, -, hchanged, -⟩ | ⟨outer, p, post, rfl, -, -, -, -⟩
    · have := hc.fewer (hchanged.symm.trans hd)
      omega
    · omega

end Cursor

/-! ## Absorbing -/

namespace Script

/-- The script at the end of a scan, before it is merged. -/
structure Scanned (s : Script) (done : Scan) : Prop where
  lasting : done.edits.Lasting
  texts : ∀ e ∈ done.edits, e.text ≠ []
  spaced : Spaced done.edits
  unchanged : done.changed = false → done.edits = s
  fewer : done.changed = true → done.edits.stretches.length < s.stretches.length

/-- A scan ends with a lasting script, and with fewer stretches if it has absorbed anything. -/
theorem scanned {s : Script} (hs : s.Normal) : Scanned s (Scan.run { edits := s }) := by
  obtain ⟨d, hrest, hd, hrun⟩ := Cursor.exists_run (motive := Cursor.Scans s)
    (fun c d n hc h => h.scans hc) (Cursor.start s) (Cursor.scans_start hs)
  rw [Cursor.scan_start] at hrun
  rw [hrun]
  refine ⟨?_, hd.texts, hd.spaced, hd.unchanged, hd.fewer⟩
  show Lasting (Passed.script d.passed ++ d.edits ++ d.rest)
  rw [hrest, List.append_nil]
  refine Passed.lasting d.editsOnly hd.firm.passed fun p hp => ?_
  have hlast := hd.firm.innermost p hp
  simpa [hrest] using hlast

/-- A scan of a lasting script absorbs nothing. -/
theorem unchanged_of_lasting {s : Script} (hs : s.Normal) (h : s.Lasting) :
    (Scan.run { edits := s }).changed = false := by
  -- as long as the script is what it was, a step has nothing to absorb
  have hkeep : ∀ c d n, (c.script = s ∧ c.changed = false) → Cursor.Step c d n →
      (d.script = s ∧ d.changed = false) := by
    rintro c d n ⟨hscript, hchanged⟩ hstep
    rcases hstep.script_cases with ⟨-, hsame, hkept, -⟩ | ⟨outer, p, post, -, -, hold, -, hout⟩
    · exact ⟨hsame.trans hscript, hkept.trans hchanged⟩
    · -- what is absorbed was outweighed
      have hcut := hscript.symm.trans hold
      have ho := hout (hs.nonempty ⟨.equal, p.kept⟩ (by simp [hcut]))
      rw [hcut, lasting_cut_iff, lastEdits_append p.editsOnly, Passed.lastEdits_script] at h
      exact absurd ho h.2.2
  obtain ⟨d, -, hd, hrun⟩ := Cursor.exists_run hkeep (Cursor.start s) ⟨rfl, rfl⟩
  rw [← Cursor.scan_start, hrun]
  exact hd.2

theorem absorb_of_lasting {s : Script} (hs : s.Normal) (h : s.Lasting) : absorb s = s := by
  have hchanged := unchanged_of_lasting hs h
  simp only [absorb, hchanged, Bool.false_eq_true, if_false]
  exact (scanned hs).unchanged hchanged

/-- Absorbing leaves a script with fewer stretches, unless it is lasting. -/
theorem length_stretches_absorb_lt {s : Script} (hs : s.Normal) (h : ¬s.Lasting) :
    (absorb s).stretches.length < s.stretches.length := by
  have hscan := scanned hs
  cases hchanged : (Scan.run { edits := s }).changed with
  | false => exact absurd (hscan.unchanged hchanged ▸ hscan.lasting) h
  | true =>
      simp only [absorb, hchanged, if_true]
      exact lt_of_le_of_lt (length_stretches_merge_le fun e he _ => hscan.texts e he)
        (hscan.fewer hchanged)

theorem absorb_eq_self {s : Script} (hs : s.Normal) : absorb s = s ↔ s.Lasting := by
  refine ⟨fun h => ?_, absorb_of_lasting hs⟩
  by_contra hlasting
  have := length_stretches_absorb_lt hs hlasting
  rw [h] at this
  exact lt_irrefl _ this

/-- **Absorption acts exactly when there is something to absorb.** A script in normal form is left
as it is exactly when no equality is outweighed by the edits beside it; whenever it is changed,
there are fewer stretches of edits afterwards. -/
theorem absorb_eq_self_iff {s : Script} (hs : s.Normal) :
    (absorb s = s ↔ s.Lasting) ∧
      (absorb s ≠ s → (absorb s).stretches.length < s.stretches.length) :=
  ⟨absorb_eq_self hs, fun h => length_stretches_absorb_lt hs (mt (absorb_eq_self hs).mpr h)⟩

/-- Absorbing the second equality makes the edits after the first one outweigh it. -/
theorem absorb_eq_self_iff_second_first :
    let s : Script := [⟨.delete, ['a', 'b']⟩, ⟨.equal, ['c', 'd']⟩, ⟨.delete, ['e']⟩,
      ⟨.equal, ['f']⟩, ⟨.insert, ['g']⟩]
    s.Normal ∧ ¬s.Lasting ∧ (absorb s).stretches.length < s.stretches.length := by
  intro s
  have hnormal : s.Normal := by decide
  have hchanged : absorb s ≠ s := by
    rw [show absorb s = [⟨.delete, "abcdef".toList⟩, ⟨.insert, "cdfg".toList⟩] from
      Except.ok.inj ((absorb_checked s).symm.trans rfl)]
    decide
  obtain ⟨hiff, hfewer⟩ := absorb_eq_self_iff hnormal
  exact ⟨hnormal, mt hiff.mpr hchanged, hfewer hchanged⟩

/-- Absorbing as often as there are stretches leaves a lasting script. -/
theorem lasting_iterate {s : Script} (hs : s.Normal) {n : Nat} (hn : s.stretches.length ≤ n) :
    (absorb^[n] s).Lasting := by
  -- each time that the script is not lasting yet, it loses a stretch
  induction n generalizing s with
  | zero =>
      by_contra h
      have := length_stretches_absorb_lt hs h
      omega
  | succ n ih =>
      by_cases h : s.Lasting
      · rw [Function.iterate_fixed (absorb_of_lasting hs h)]
        exact h
      · have := length_stretches_absorb_lt hs h
        rw [Function.iterate_succ_apply]
        exact ih (normal_absorb hs) (by omega)

theorem normal_iterate {s : Script} (hs : s.Normal) (n : Nat) : (absorb^[n] s).Normal := by
  induction n with
  | zero => exact hs
  | succ n ih =>
      rw [Function.iterate_succ_apply']
      exact normal_absorb ih

/-! ## What absorption leaves behind -/

/-- **What is outweighed after absorption was joined across an idle stretch**, and absorbing once
more would change it. The scan itself leaves nothing outweighed. Merging, which comes after it,
drops the stretches that have come to delete what they insert, and joins the equalities on both
sides; only an equality that spans such a stretch with both its neighbours can be outweighed again.
Absorption as often as there are stretches leaves a script that it does not change any more. -/
theorem outweighed_absorb {s : Script} (hs : s.Normal) :
    (absorb (absorb s) = absorb s ↔ (absorb s).Lasting) ∧
      (Scan.run { edits := s }).edits.Lasting ∧
      (∀ u, (absorb s).Outweighed u → ∃ v, Idle (Scan.run { edits := s }).edits v ∧ v <:+: u) ∧
      ∀ n, s.stretches.length ≤ n → absorb (absorb^[n] s) = absorb^[n] s := by
  have hscan := scanned hs
  refine ⟨absorb_eq_self (normal_absorb hs), hscan.lasting, fun u hu => ?_, fun n hn => ?_⟩
  · cases hchanged : (Scan.run { edits := s }).changed with
    | false =>
        simp only [absorb, hchanged, Bool.false_eq_true, if_false] at hu
        exact absurd hu (hscan.lasting u)
    | true =>
        simp only [absorb, hchanged, if_true] at hu
        exact idle_of_outweighed_merge hscan.lasting (fun e he _ => hscan.texts e he)
          hscan.spaced hu
  · exact absorb_of_lasting (normal_iterate hs n) (lasting_iterate hs hn)

/-- Two equalities of three characters, between edits of eight, with a deletion and an insertion of
one character between them that an equality keeps apart. -/
def keptApart : Script :=
  [⟨.delete, "pqrstuvw".toList⟩, ⟨.equal, "ccc".toList⟩, ⟨.delete, ['a']⟩, ⟨.equal, ['a']⟩,
    ⟨.insert, ['a']⟩, ⟨.equal, "ddd".toList⟩, ⟨.delete, "ghijklmn".toList⟩]

theorem absorb_keptApart : absorb keptApart =
    [⟨.delete, "pqrstuvw".toList⟩, ⟨.equal, "cccaaddd".toList⟩, ⟨.delete, "ghijklmn".toList⟩] :=
  Except.ok.inj ((absorb_checked keptApart).symm.trans rfl)

theorem outweighed_absorb_keptApart : (absorb keptApart).Outweighed "cccaaddd".toList := by
  rw [absorb_keptApart]
  exact ⟨[⟨.delete, "pqrstuvw".toList⟩], [⟨.delete, "ghijklmn".toList⟩], rfl,
    by decide, by decide, by decide, by decide⟩

/-- The edits between the two equalities come to nothing, and the equality that is left, of eight
characters, is absorbed only the next time. -/
theorem outweighed_absorb_joined :
    keptApart.Normal ∧
      (∃ v, Idle (Scan.run { edits := keptApart }).edits v ∧ v <:+: "cccaaddd".toList) ∧
      absorb (absorb^[4] keptApart) = absorb^[4] keptApart := by
  have hnormal : keptApart.Normal := by decide
  obtain ⟨-, -, hjoined, hrepeated⟩ := outweighed_absorb hnormal
  exact ⟨hnormal, hjoined _ outweighed_absorb_keptApart, hrepeated 4 (by decide)⟩

/-- Absorption can leave an equality outweighed, and then absorbs more when it is repeated. -/
theorem absorb_misses_joined :
    keptApart.Normal ∧ ¬(absorb keptApart).Lasting ∧
      absorb (absorb keptApart) ≠ absorb keptApart := by
  have hnormal : keptApart.Normal := by decide
  have hleft : ¬(absorb keptApart).Lasting := fun h => h _ outweighed_absorb_keptApart
  exact ⟨hnormal, hleft, mt (absorb_eq_self (normal_absorb hnormal)).mp hleft⟩

end Script

end TextHistory
