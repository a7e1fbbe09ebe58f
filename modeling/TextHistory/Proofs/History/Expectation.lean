import TextHistory.Proofs.History.Effects
import TextHistory.Proofs.History.Snapshots

/-!
# Writes that expect a length

A caller reads the latest text of a file together with the length of its chain, and hands that
length in with its next write. If the write is accepted, the chain is as long as it was
(`History.length_of_accepted`), and since chains only grow (`Store.retains_run`), it is the chain
that the caller has read. So what the caller read is still the latest text when the write is made
(`History.latest_of_expected`).

There is one exception. A file that is not tracked is read as an empty text with an empty chain,
and a file that has just been begun has an empty chain as well: between the two the length makes
no difference (`History.expected_misses_beginning`).

Nothing is asked of the store or the clock here, so chains may be such as cannot be replayed.
-/

set_option autoImplicit false

namespace TextHistory

namespace Store

/-! ## What stays under a name -/

/-- The base of a file stays, and the rows of its chain are the beginning of those there. -/
structure Retains (name : Text) (s s' : Store) : Prop where
  base : ∀ row, s.row? name = some row → ∃ row', s'.row? name = some row' ∧ row'.base = row.base
  rows : s.rows name <+: s'.rows name

variable {name : Text} {s s' s'' : Store}

theorem Retains.refl (name : Text) (s : Store) : Retains name s s where
  base := fun row h => ⟨row, h, rfl⟩
  rows := List.prefix_rfl

theorem Retains.trans (h : Retains name s s') (h' : Retains name s' s'') :
    Retains name s s'' where
  base := by
    intro row hrow
    obtain ⟨row', hrow', hbase⟩ := h.base row hrow
    obtain ⟨row'', hrow'', hbase'⟩ := h'.base row' hrow'
    exact ⟨row'', hrow'', hbase'.trans hbase⟩
  rows := h.rows.trans h'.rows

theorem Retains.tracks (h : Retains name s s') (htracks : s.tracks name = true) :
    s'.tracks name = true := by
  rw [tracks_eq] at htracks ⊢
  obtain ⟨row, hrow⟩ := Option.isSome_iff_exists.mp htracks
  obtain ⟨row', hrow', -⟩ := h.base row hrow
  rw [hrow']
  rfl

theorem retains_withFile (name : Text) (s : Store) (now : Instant) (other base : Text) :
    Retains name s (s.withFile now other base) where
  base := by
    intro row hrow
    refine ⟨row, ?_, rfl⟩
    rw [row?] at hrow
    rw [row?, withFile, List.find?_append, hrow]
    rfl
  rows := List.prefix_rfl

theorem retains_withEntry (name : Text) (s : Store) (now : Instant) (other : Text) (e : Entry) :
    Retains name s (s.withEntry now other e) where
  base := by
    intro row hrow
    refine ⟨_, by rw [row?_withEntry, hrow]; rfl, ?_⟩
    split <;> rfl
  rows := by
    rw [rows_withEntry]
    exact List.prefix_append _ _

theorem retains_save (name : Text) (o : Tuning) (s : Store) (now : Clock) (w : Write) :
    Retains name s (w.save o s now).1 := by
  have h := w.outcome_save o s now
  generalize (w.save o s now).1 = s' at h ⊢
  generalize (w.save o s now).2 = answer at h
  cases h with
  | refused e => exact .refl name s
  | unchanged hfind hlen => exact .refl name s
  | created hfind hbase hlen => exact retains_withFile name s now.stored _ _
  | appended hfind hlen hhead hp => exact retains_withEntry name s now.stored _ _

/-- **Nothing is taken away** by any writes, in whatever store. -/
theorem retains_run (name : Text) (o : Tuning) (s : Store) (calls : List (Clock × Write)) :
    Retains name s (s.run o calls).1 := by
  induction calls generalizing s with
  | nil => exact .refl name s
  | cons c calls ih => exact (retains_save name o s c.1 c.2).trans (ih _)

/-- A chain that is as long as before is the chain it was before. -/
theorem Retains.eq_of_length (h : Retains name s s') {f g : TrackedFile}
    (hf : s.find name = .ok (some f)) (hg : s'.find name = .ok (some g))
    (hlen : g.entries.length = f.entries.length) :
    g.name = f.name ∧ g.base = f.base ∧ g.entries = f.entries := by
  obtain ⟨row, hrow, hname, hbase, hentries⟩ := row?_of_find hf
  obtain ⟨row', hrow', hname', hbase', hentries'⟩ := row?_of_find hg
  obtain ⟨row'', hrow'', hsame⟩ := h.base row hrow
  obtain rfl : row' = row'' := Option.some.inj (hrow'.symm.trans hrow'')
  have hrows : s.rows name = s'.rows name :=
    h.rows.eq_of_length (by
      rw [← count_eq, ← count_eq, count_of_find hf, count_of_find hg, hlen])
  have hchain : s'.chain name = s.chain name := by
    unfold chain
    rw [← Store.rows, ← Store.rows, hrows]
  rw [hchain, hentries] at hentries'
  exact ⟨hname'.trans hname.symm, hbase'.trans (hsame.trans hbase.symm),
    (Except.ok.inj hentries').symm⟩

end Store

/-! ## Reading -/

/-- What is read of a file are its name, its base and its entries. -/
theorem TrackedFile.versionAt_congr (o : Tuning) {f g : TrackedFile} (hname : g.name = f.name)
    (hbase : g.base = f.base) (hentries : g.entries = f.entries) (which : VersionName) :
    g.versionAt o which = f.versionAt o which := by
  simp only [versionAt, hname, hbase, hentries]

theorem TrackedFile.totalVersions_of_versionAt {o : Tuning} {f : TrackedFile} {which : VersionName}
    {v : VersionText} (h : f.versionAt o which = .ok v) : v.totalVersions = f.entries.length := by
  unfold versionAt at h
  dsimp only at h
  split at h
  · cases h
    rfl
  · cases h

namespace History

variable {o : Tuning} {s : Store} {name : Text} {l : Latest}

theorem latest_of_untracked (h : s.find name = .ok none) :
    latest o s name = .ok ⟨name, [], 0⟩ := by
  simp only [latest, h, bind, Except.bind]

theorem latest_of_found {f : TrackedFile} (h : s.find name = .ok (some f)) :
    latest o s name
      = (f.versionAt o .latest).map fun v => ⟨f.name, v.content, v.totalVersions⟩ := by
  simp only [latest, h, bind, Except.bind]
  cases f.versionAt o .latest <;> rfl

/-- The length that is told with the latest text is that of the chain. -/
theorem versionCount_of_latest {f : TrackedFile} (hfind : s.find name = .ok (some f))
    (h : latest o s name = .ok l) : l.versionCount = f.entries.length := by
  rw [latest_of_found hfind] at h
  cases hv : f.versionAt o .latest with
  | error e =>
      rw [hv] at h
      cases h
  | ok v =>
      rw [hv] at h
      cases h
      exact TrackedFile.totalVersions_of_versionAt hv

/-- A file with an empty chain reads as its base. -/
theorem latest_of_empty {f : TrackedFile} (hfind : s.find name = .ok (some f))
    (hempty : f.entries = []) : latest o s name = .ok ⟨f.name, f.base, 0⟩ := by
  rw [latest_of_found hfind, TrackedFile.versionAt, hempty]
  rfl

/-! ## Accepted writes -/

theorem checkLength_eq_ok {expected actual : Nat}
    (h : checkLength name (some expected) actual = .ok ()) : expected = actual := by
  unfold checkLength at h
  dsimp only at h
  split at h
  · assumption
  · cases h

/-- **An expectation that is accepted is met**: by the chain of the file, or by there being none. -/
theorem length_of_accepted {w : Write} {now : Clock} {n : Nat} {receipt : Receipt}
    (hexpected : w.expected = some n) (h : (w.save o s now).2 = .ok receipt) :
    s.find w.name = .ok none ∨ ∃ f, s.find w.name = .ok (some f) ∧ n = f.entries.length := by
  have hout := w.outcome_save o s now
  rw [h] at hout
  generalize (w.save o s now).1 = s' at hout
  generalize hanswer : Except.ok receipt = answer at hout
  cases hout with
  | refused e => cases hanswer
  | unchanged hfind hlen =>
      rw [hexpected] at hlen
      exact Or.inr ⟨_, hfind, checkLength_eq_ok hlen⟩
  | created hfind hbase hlen => exact Or.inl hfind
  | appended hfind hlen hhead hp =>
      rw [hexpected] at hlen
      exact Or.inr ⟨_, hfind, checkLength_eq_ok hlen⟩

/-- **What was read is what is superseded.** A caller has read the latest text of a file and the
length of its chain. Whatever is written in between, when a write with that length as its
expectation is accepted, the same text would have been read again just before it. Only a file that
was not tracked at the reading may have been begun meanwhile; then it still has its base only. -/
theorem latest_of_expected (o : Tuning) (s : Store) (calls : List (Clock × Write))
    (w : Write) (now : Clock) (l : Latest) (receipt : Receipt)
    (hread : latest o s w.name = .ok l) (hexpected : w.expected = some l.versionCount)
    (haccepted : (w.save o (s.run o calls).1 now).2 = .ok receipt) :
    latest o (s.run o calls).1 w.name = .ok l ∨
      s.tracks w.name = false ∧ l = ⟨w.name, [], 0⟩ ∧
        ∃ f, (s.run o calls).1.find w.name = .ok (some f) ∧ f.entries = [] ∧
          latest o (s.run o calls).1 w.name = .ok ⟨w.name, f.base, 0⟩ := by
  have hretains := Store.retains_run w.name o s calls
  generalize (s.run o calls).1 = s' at haccepted hretains ⊢
  cases hfind : s.find w.name with
  | error e =>
      simp only [latest, hfind, bind, Except.bind] at hread
      cases hread
  | ok found =>
      cases found with
      | none =>
          have hl := hread
          rw [latest_of_untracked hfind] at hl
          cases hl
          rcases length_of_accepted hexpected haccepted with hnone | ⟨g, hg, hlen⟩
          · exact Or.inl (latest_of_untracked hnone)
          · -- the file has been begun, and nothing was added to it
            have hempty : g.entries = [] := List.eq_nil_of_length_eq_zero hlen.symm
            have hname := Store.name_of_find hg
            refine Or.inr ⟨Store.find_eq_none_iff.mp hfind, rfl, g, hg, hempty, ?_⟩
            rw [latest_of_empty hg hempty, hname]
      | some f =>
          have hcount := versionCount_of_latest hfind hread
          rcases length_of_accepted hexpected haccepted with hnone | ⟨g, hg, hlen⟩
          · -- a file that was tracked is tracked for good
            have hlost := hretains.tracks (Store.tracks_of_find hfind)
            rw [Store.find_eq_none_iff.mp hnone] at hlost
            cases hlost
          · obtain ⟨hname, hbase, hentries⟩ :=
              hretains.eq_of_length hfind hg (hlen.symm.trans hcount)
            refine Or.inl ?_
            rw [← hread, latest_of_found hfind, latest_of_found hg,
              TrackedFile.versionAt_congr o hname hbase hentries, hname]

/-- A file of two texts is read, another one is begun, and the reader writes its own text. -/
theorem latest_of_expected_second_text :
    let before : List (Clock × Write) :=
      [(.newYear, .text { name := ['a'], content := ['x'] }),
        (.newYear, .text { name := ['a'], content := ['y'] })]
    let s := (({} : Store).run {} before).1
    let between : List (Clock × Write) := [(.newYear, .text { name := ['b'], content := [] })]
    let w : Write := .text { name := ['a'], content := ['z'], expected := some 1 }
    latest {} s ['a'] = .ok ⟨['a'], ['y'], 1⟩ ∧
      (w.save {} (s.run {} between).1 .newYear).2 = .ok ⟨.patchAppended, 2, some 1⟩ ∧
      latest {} (s.run {} between).1 ['a'] = .ok ⟨['a'], ['y'], 1⟩ := by
  intro before s between w
  have hclock := Clock.storable_newYear
  -- the texts that are there at the reading, before the write and after it
  have hshort₁ := (Snapshots.short_empty.set ['a'] (r := ⟨['x'], []⟩) (by decide)).set ['a']
    (r := ⟨['x'], [['y']]⟩) (by decide)
  have hshort₂ := hshort₁.set ['b'] (r := ⟨[], []⟩) (by decide)
  have hshort₃ := hshort₂.set ['a'] (r := ⟨['x'], [['y'], ['z']]⟩) (by decide)
  obtain ⟨h₁, -⟩ := (Snapshots.refines_empty {}).run (by decide) before
    (by simpa [before] using hclock) hshort₁
  obtain ⟨h₂, -⟩ := h₁.run (by decide) between (by simpa [between] using hclock) hshort₂
  obtain ⟨-, hanswer⟩ := h₂.write (by decide) hclock w hshort₃
  have hlatest : latest {} s ['a'] = .ok ⟨['a'], ['y'], 1⟩ := h₁.latest ['a']
  refine ⟨hlatest, hanswer, ?_⟩
  rcases latest_of_expected {} s between w .newYear _ _ hlatest rfl hanswer with h | ⟨-, h, -⟩
  · exact h
  · cases h

/-- **A file that was begun in between is not noticed**: it is read as an empty text while it is
not tracked, and the length that goes with that text is still the right one when the file has been
given its base. -/
theorem expected_misses_beginning :
    let begun : List (Clock × Write) := [(.newYear, .text { name := ['a'], content := ['x'] })]
    let s := (({} : Store).run {} begun).1
    let w : Write := .text { name := ['a'], content := ['y'], expected := some 0 }
    latest {} {} ['a'] = .ok ⟨['a'], [], 0⟩ ∧
      (w.save {} s .newYear).2 = .ok ⟨.patchAppended, 1, some 0⟩ ∧
      latest {} s ['a'] = .ok ⟨['a'], ['x'], 0⟩ := by
  intro begun s w
  have hclock := Clock.storable_newYear
  have hshort₁ := Snapshots.short_empty.set ['a'] (r := ⟨['x'], []⟩) (by decide)
  have hshort₂ := hshort₁.set ['a'] (r := ⟨['x'], [['y']]⟩) (by decide)
  obtain ⟨h, -⟩ := (Snapshots.refines_empty {}).run (by decide) begun
    (by simpa [begun] using hclock) hshort₁
  obtain ⟨-, hanswer⟩ := h.write (by decide) hclock w hshort₂
  exact ⟨rfl, hanswer, h.latest ['a']⟩

end History

end TextHistory
