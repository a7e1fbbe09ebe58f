import TextHistory.Proofs.Time
import TextHistory.Proofs.Version

/-!
# Corrupt chains

An entry of a chain *fails* when the entries before it lead to some text, and it cannot be read or
cannot be applied to that text (`FailsAt`). At most one entry of a chain does. A replay that stops
before it succeeds, and any other one reports it (`replay_eq_ok_iff`, `replay_eq_error_iff`).

What comes behind the last entry that is needed is never looked at. So a corrupt chain still has
all versions before the entry that fails, and these stay what they are when the chain grows
(`TrackedFile.versionAt_corrupt`).
-/

set_option autoImplicit false

namespace TextHistory

variable {o : Tuning} {t u : Text} {es : List Entry} {us : List Text} {i n index : Nat}
  {cause : PatchFault}

/-- The entry with the number `i` is the first one of a chain that fails, and `cause` is its fault:
the entries before it lead through some texts, and it makes nothing of the last of these. -/
def FailsAt (o : Tuning) (t : Text) (es : List Entry) (i : Nat) (cause : PatchFault) : Prop :=
  ∃ us e, Leads o t (es.take i) us ∧ es[i]? = some e ∧ e.apply o (us.getLastD t) = .error cause

/-! ## Replays -/

/-- A replay succeeds when the entries lead somewhere, and it gives the last text on the way. -/
theorem replay_eq_ok_iff :
    replay o index t es = .ok u ↔ ∃ us, Leads o t es us ∧ us.getLastD t = u := by
  constructor
  · intro h
    induction es generalizing index t with
    | nil =>
        cases h
        exact ⟨[], .nil _, rfl⟩
    | cons e es ih =>
        simp only [replay] at h
        cases he : e.apply o t with
        | error cause =>
            rw [he] at h
            cases h
        | ok v =>
            rw [he] at h
            obtain ⟨us, hus, hlast⟩ := ih h
            exact ⟨v :: us, .cons he hus, by rw [List.getLastD_cons, hlast]⟩
  · rintro ⟨us, hus, rfl⟩
    exact hus.replay index

/-- An entry that fails behind entries that do not is reported with its number. -/
theorem Leads.replay_of_error {e : Entry} (h : Leads o t es us)
    (he : e.apply o (us.getLastD t) = .error cause) (index : Nat) (rest : List Entry) :
    TextHistory.replay o index t (es ++ e :: rest) = .error (index + es.length, cause) := by
  induction h generalizing index with
  | nil t =>
      have he : e.apply o t = .error cause := he
      simp only [List.nil_append, TextHistory.replay, he]
      rfl
  | @cons f t u es us hf _ ih =>
      rw [List.getLastD_cons] at he
      simp only [List.cons_append, TextHistory.replay, hf, ih he, List.length_cons]
      rw [show index + 1 + es.length = index + (es.length + 1) by omega]

/-- What fails in the rest of a chain fails in the chain. -/
theorem FailsAt.cons {e : Entry} (he : e.apply o t = .ok u) (h : FailsAt o u es i cause) :
    FailsAt o t (e :: es) (i + 1) cause := by
  obtain ⟨us, f, hus, hf, hfails⟩ := h
  refine ⟨u :: us, f, .cons he hus, hf, ?_⟩
  rwa [List.getLastD_cons]

/-- A replay fails when an entry does, and it is this one that is reported. -/
theorem replay_eq_error_iff {j : Nat} :
    replay o index t es = .error (j, cause) ↔ ∃ i, j = index + i ∧ FailsAt o t es i cause := by
  constructor
  · intro h
    induction es generalizing index t with
    | nil => cases h
    | cons e es ih =>
        simp only [replay] at h
        cases he : e.apply o t with
        | error fault =>
            rw [he] at h
            cases h
            exact ⟨0, rfl, [], e, .nil t, rfl, he⟩
        | ok v =>
            rw [he] at h
            obtain ⟨i, rfl, hi⟩ := ih h
            exact ⟨i + 1, by omega, hi.cons he⟩
  · rintro ⟨i, rfl, us, e, hus, he, hfails⟩
    obtain ⟨hi, he⟩ := List.getElem?_eq_some_iff.mp he
    have hchain : es = es.take i ++ e :: es.drop (i + 1) := by
      rw [← he, List.getElem_cons_drop, List.take_append_drop]
    have hreplay := hus.replay_of_error hfails index (es.drop (i + 1))
    rwa [← hchain, List.length_take, Nat.min_eq_left (Nat.le_of_lt hi)] at hreplay

/-! ## The entry that fails -/

namespace FailsAt

theorem lt_length (h : FailsAt o t es i cause) : i < es.length := by
  obtain ⟨us, e, -, he, -⟩ := h
  exact (List.getElem?_eq_some_iff.mp he).1

/-- No two entries are the first one that fails, and it has one fault. -/
theorem unique {j : Nat} {fault : PatchFault} (h : FailsAt o t es i cause)
    (h' : FailsAt o t es j fault) : i = j ∧ cause = fault := by
  have hi := replay_eq_error_iff.mpr ⟨i, (Nat.zero_add i).symm, h⟩
  have hj := replay_eq_error_iff.mpr ⟨j, (Nat.zero_add j).symm, h'⟩
  rw [hi] at hj
  cases hj
  exact ⟨rfl, rfl⟩

/-- A beginning of a chain fails where the chain does, if it is long enough. -/
theorem take_iff : FailsAt o t (es.take n) i cause ↔ i < n ∧ FailsAt o t es i cause := by
  constructor
  · intro h
    have hi : i < n := Nat.lt_of_lt_of_le h.lt_length (List.length_take_le n es)
    obtain ⟨us, e, hus, he, hfails⟩ := h
    rw [List.take_take, Nat.min_eq_left (Nat.le_of_lt hi)] at hus
    rw [List.getElem?_take_of_lt hi] at he
    exact ⟨hi, us, e, hus, he, hfails⟩
  · rintro ⟨hi, us, e, hus, he, hfails⟩
    refine ⟨us, e, ?_, ?_, hfails⟩
    · rwa [List.take_take, Nat.min_eq_left (Nat.le_of_lt hi)]
    · rwa [List.getElem?_take_of_lt hi]

/-- Up to the entry that fails, a chain leads somewhere. -/
theorem leads_take (h : FailsAt o t es i cause) (hn : n ≤ i) :
    ∃ us, Leads o t (es.take n) us := by
  obtain ⟨us, e, hus, -, -⟩ := h
  have htake := hus.take n
  rw [List.take_take, Nat.min_eq_left hn] at htake
  exact ⟨us.take n, htake⟩

end FailsAt

/-! ## Versions -/

/-- A number that is in no chain of this length means the latest version. -/
theorem VersionName.resolve_index_of_le {k length : Nat} (h : length ≤ k) :
    (VersionName.index k).resolve length = VersionName.latest.resolve length := by
  unfold resolve
  split
  · rfl
  · show some (min k (length - 1)) = some (length - 1)
    rw [Nat.min_eq_right (by omega)]

namespace TrackedFile

variable {f : TrackedFile} {which : VersionName}

/-- A version can be read when the entries up to it lead somewhere. -/
theorem versionAt_eq_ok_iff {v : VersionText} :
    f.versionAt o which = .ok v ↔
      ∃ us, Leads o f.base (f.entries.take (entriesUpTo (which.resolve f.entries.length))) us ∧
        v = ⟨us.getLastD f.base, which.resolve f.entries.length, f.entries.length⟩ := by
  unfold versionAt
  dsimp only
  split
  · next content hreplay =>
    obtain ⟨us, hus, rfl⟩ := replay_eq_ok_iff.mp hreplay
    constructor
    · intro h
      cases h
      exact ⟨us, hus, rfl⟩
    · rintro ⟨us', hus', rfl⟩
      rw [hus.unique hus']
  · next index cause hreplay =>
    constructor
    · intro h
      cases h
    · rintro ⟨us, hus, -⟩
      rw [hus.replay 0] at hreplay
      cases hreplay

/-- A version cannot be read when one of the entries up to it fails, and this is what is said. -/
theorem versionAt_eq_error_iff {error : Error} :
    f.versionAt o which = .error error ↔
      ∃ i cause, i < entriesUpTo (which.resolve f.entries.length) ∧
        FailsAt o f.base f.entries i cause ∧ error = .patchApplication f.name i cause := by
  unfold versionAt
  dsimp only
  split
  · next content hreplay =>
    constructor
    · intro h
      cases h
    · rintro ⟨i, cause, hi, hfails, -⟩
      have herror := replay_eq_error_iff.mpr
        ⟨i, (Nat.zero_add i).symm, FailsAt.take_iff.mpr ⟨hi, hfails⟩⟩
      rw [hreplay] at herror
      cases herror
  · next index cause hreplay =>
    obtain ⟨i, hindex, hfails⟩ := replay_eq_error_iff.mp hreplay
    obtain rfl : index = i := hindex.trans (Nat.zero_add i)
    constructor
    · intro h
      cases h
      obtain ⟨hi, hfails⟩ := FailsAt.take_iff.mp hfails
      exact ⟨index, cause, hi, hfails, rfl⟩
    · rintro ⟨j, fault, hj, hfails', rfl⟩
      obtain ⟨rfl, rfl⟩ := hfails.unique (FailsAt.take_iff.mpr ⟨hj, hfails'⟩)
      rfl

/-- The versions of a chain stay what they are when it grows; only its length is told with them. -/
theorem versionAt_of_isPrefix {g : TrackedFile} (hname : g.name = f.name) (hbase : g.base = f.base)
    (hentries : f.entries <+: g.entries) {k : Nat} (hk : k < f.entries.length) :
    g.versionAt o (.index k)
      = (f.versionAt o (.index k)).map fun v => { v with totalVersions := g.entries.length } := by
  have hlength := hentries.length_le
  obtain ⟨more, hmore⟩ := hentries
  have htake : g.entries.take (k + 1) = f.entries.take (k + 1) := by
    rw [← hmore, List.take_append_of_le_length hk]
  simp only [versionAt, VersionName.resolve_index hk,
    VersionName.resolve_index (Nat.lt_of_lt_of_le hk hlength), entriesUpTo, htake, hname, hbase]
  cases replay o 0 f.base (f.entries.take (k + 1)) with
  | ok content => rfl
  | error fault => rfl

/-- **A version takes no more than the entries up to it, and the first one that fails is blamed.**
A version within the chain can be read exactly when these entries lead somewhere, and it is the
last text on the way; otherwise one of them is the first that fails, and the error gives its number
and its fault. Where an entry fails, every version from it on and the latest one have that error,
and every version before it can be read, as the base always can. A number past the chain means the
latest version. A file with a longer chain has the same versions and the same errors as far as the
shorter chain goes; only the length of the chain is told with them. -/
theorem versionAt_corrupt (o : Tuning) (f : TrackedFile) :
    (∀ k < f.entries.length,
      (∀ v, f.versionAt o (.index k) = .ok v ↔
        ∃ us, Leads o f.base (f.entries.take (k + 1)) us ∧
          v = ⟨us.getLastD f.base, some k, f.entries.length⟩) ∧
      ∀ error, f.versionAt o (.index k) = .error error ↔
        ∃ i cause, i ≤ k ∧ FailsAt o f.base f.entries i cause ∧
          error = .patchApplication f.name i cause) ∧
    (∀ i cause, FailsAt o f.base f.entries i cause →
      (∀ k, i ≤ k → f.versionAt o (.index k) = .error (.patchApplication f.name i cause)) ∧
      f.versionAt o .latest = .error (.patchApplication f.name i cause) ∧
      ∀ k < i, ∃ content,
        f.versionAt o (.index k) = .ok ⟨content, some k, f.entries.length⟩) ∧
    f.versionAt o .base = .ok ⟨f.base, none, f.entries.length⟩ ∧
    (∀ k, f.entries.length ≤ k → f.versionAt o (.index k) = f.versionAt o .latest) ∧
    ∀ g : TrackedFile, g.name = f.name → g.base = f.base → f.entries <+: g.entries →
      ∀ k < f.entries.length, g.versionAt o (.index k)
        = (f.versionAt o (.index k)).map fun v => { v with totalVersions := g.entries.length } := by
  have hpast : ∀ k, f.entries.length ≤ k → f.versionAt o (.index k) = f.versionAt o .latest := by
    intro k hk
    simp only [versionAt, VersionName.resolve_index_of_le hk]
  have hlatest : ∀ i cause, FailsAt o f.base f.entries i cause →
      f.versionAt o .latest = .error (.patchApplication f.name i cause) := by
    intro i cause hfails
    have hi := hfails.lt_length
    rw [← VersionName.entriesUpTo_resolve_latest f.entries.length] at hi
    exact versionAt_eq_error_iff.mpr ⟨i, cause, hi, hfails, rfl⟩
  refine ⟨fun k hk => ?_, fun i cause hfails => ⟨fun k hk => ?_, hlatest i cause hfails, ?_⟩, ?_,
    hpast, fun g hname hbase hentries k hk => versionAt_of_isPrefix hname hbase hentries hk⟩
  · have hresolve := VersionName.resolve_index hk
    constructor
    · intro v
      rw [versionAt_eq_ok_iff, hresolve]
      rfl
    · intro error
      rw [versionAt_eq_error_iff, hresolve]
      simp only [entriesUpTo, Nat.lt_succ_iff]
  · -- a number in the chain means its own entry, any other one the latest version
    by_cases hin : k < f.entries.length
    · refine versionAt_eq_error_iff.mpr ⟨i, cause, ?_, hfails, rfl⟩
      rw [VersionName.resolve_index hin]
      exact Nat.lt_succ_of_le hk
    · rw [hpast k (Nat.le_of_not_lt hin)]
      exact hlatest i cause hfails
  · intro k hk
    obtain ⟨us, hus⟩ := hfails.leads_take (n := k + 1) hk
    have hresolve := VersionName.resolve_index (Nat.lt_trans hk hfails.lt_length)
    refine ⟨us.getLastD f.base, versionAt_eq_ok_iff.mpr ⟨us, ?_, ?_⟩⟩
    · rwa [hresolve]
    · rw [hresolve]
  · have hresolve : VersionName.base.resolve f.entries.length = none := by
      unfold VersionName.resolve
      split <;> rfl
    refine versionAt_eq_ok_iff.mpr ⟨[], ?_, ?_⟩
    · rw [hresolve]
      exact .nil f.base
    · rw [hresolve]
      rfl

/-- The second of three entries deletes what is not there, and the third is no patch. The first
version can be read, the second entry is blamed for all others, and a longer chain has the same. -/
theorem versionAt_corrupt_second :
    let p : Patch := [⟨[⟨.insert, ['x']⟩], 0, 0, 0, 1⟩]
    let q : Patch := [⟨[⟨.delete, ['y']⟩], 0, 1, 0, 0⟩]
    let f : TrackedFile :=
      ⟨['a'], [], [⟨.newYear, p.print, none⟩, ⟨.newYear, q.print, none⟩, ⟨.newYear, ['?'], none⟩],
        .newYear, .newYear⟩
    let g : TrackedFile := { f with entries := f.entries ++ f.entries }
    (FailsAt {} f.base f.entries 1 (.rejected 0) ∧ f.entries <+: g.entries) ∧
      f.versionAt {} (.index 0) = .ok ⟨['x'], some 0, 3⟩ ∧
      f.versionAt {} (.index 2) = .error (.patchApplication ['a'] 1 (.rejected 0)) ∧
      f.versionAt {} (.index 7) = f.versionAt {} .latest ∧
      g.versionAt {} (.index 0) = .ok ⟨['x'], some 0, 6⟩ ∧
      g.versionAt {} (.index 2) = .error (.patchApplication ['a'] 1 (.rejected 0)) := by
  intro p q f g
  have hp : ∀ h ∈ p, h.WellFormed := by
    simp only [p, List.mem_singleton, forall_eq]
    constructor <;> decide
  have hq : ∀ h ∈ q, h.WellFormed := by
    simp only [q, List.mem_singleton, forall_eq]
    constructor <;> decide
  have hfirst : Leads {} f.base (f.entries.take 1) [['x']] := by
    refine .cons ?_ (.nil ['x'])
    rw [Entry.apply_print {} hp]
    rfl
  have hfails : FailsAt {} f.base f.entries 1 (.rejected 0) := by
    refine ⟨[['x']], _, hfirst, rfl, ?_⟩
    rw [Entry.apply_print {} hq]
    rfl
  have hprefix : f.entries <+: g.entries := List.prefix_append _ _
  obtain ⟨hreads, hblames, -, hpast, hgrown⟩ := versionAt_corrupt {} f
  have hzero : f.versionAt {} (.index 0) = .ok ⟨['x'], some 0, 3⟩ :=
    ((hreads 0 (by decide)).1 _).mpr ⟨[['x']], hfirst, rfl⟩
  have htwo := (hblames 1 (.rejected 0) hfails).1 2 (by decide)
  refine ⟨⟨hfails, hprefix⟩, hzero, htwo, hpast 7 (by decide), ?_, ?_⟩
  · rw [hgrown g rfl rfl hprefix 0 (by decide), hzero]
    rfl
  · rw [hgrown g rfl rfl hprefix 2 (by decide), htwo]
    rfl

end TrackedFile

end TextHistory
