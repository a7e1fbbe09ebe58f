import TextHistory.Proofs.Outcome
import TextHistory.Proofs.Time
import TextHistory.Store.Basic

/-!
# What the store holds

In a sound store the entries of every chain stand in the order of their places, which count from
zero without a gap, every entry belongs to a tracked file, and every time can be read back
(`Store.Sound`). A store that is written to only by its own operations stays sound, and then
reading never fails.

Of the two operations, one makes a file with an empty chain out of none (`Store.find_create`) and
the other adds one entry at the end of one chain (`Store.find_insert`); both leave every other file
as it is. So a chain only grows, and one that is as long as before is the chain it was before.
-/

set_option autoImplicit false

namespace TextHistory

/-! ## Rows -/

theorem readTime_print {t : Instant} (h : t.Storable) : readTime t.print = .ok t := by
  rw [readTime, Instant.read_print h]

namespace EntryRow

theorem author_ofEntry (file : Text) (index : Nat) (e : Entry) :
    (ofEntry file index e).author = e.author := by
  obtain ⟨timestamp, patch, author⟩ := e
  cases author <;> rfl

/-- An entry is read back from its row. -/
theorem entry_ofEntry (file : Text) (index : Nat) {e : Entry} (h : e.timestamp.Storable) :
    (ofEntry file index e).entry = .ok e := by
  have htime : readTime (ofEntry file index e).timestamp = .ok e.timestamp := readTime_print h
  rw [entry, htime, author_ofEntry]
  rfl

end EntryRow

namespace Store

/-- The rows of a chain in the order in which they were added. -/
def rows (s : Store) (name : Text) : List EntryRow := s.entries.filter (·.file == name)

/-- The rows of the tables belong together and can be read. -/
structure Sound (s : Store) : Prop where
  /-- The places in every chain count from zero, in the order of the rows. -/
  places : ∀ name, (s.rows name).map EntryRow.index = List.range (s.rows name).length
  /-- There are no entries of files that are not tracked. -/
  owned : ∀ r ∈ s.entries, s.tracks r.file = true
  fileTimes : ∀ r ∈ s.files,
    (∃ t, readTime r.createdAt = .ok t) ∧ ∃ t, readTime r.updatedAt = .ok t
  entryTimes : ∀ r ∈ s.entries, ∃ t, readTime r.timestamp = .ok t

theorem sound_empty : ({} : Store).Sound where
  places := fun _ => rfl
  owned := by simp
  fileTimes := by simp
  entryTimes := by simp

/-! ## Looking up -/

theorem count_eq (s : Store) (name : Text) : s.count name = (s.rows name).length :=
  List.countP_eq_length_filter

theorem tracks_eq (s : Store) (name : Text) : s.tracks name = (s.row? name).isSome := by
  rw [Bool.eq_iff_iff, tracks, row?, List.find?_isSome, List.any_eq_true]

theorem name_of_row? {s : Store} {name : Text} {row : FileRow} (h : s.row? name = some row) :
    row.name = name := by
  simpa using List.find?_some h

theorem rows_eq_nil {s : Store} (hs : s.Sound) {name : Text} (h : s.tracks name = false) :
    s.rows name = [] := by
  rw [rows, List.filter_eq_nil_iff]
  intro r hr hfile
  rw [← beq_iff_eq.mp hfile, hs.owned r hr] at h
  cases h

/-- In a sound store a chain is in order already. -/
theorem chain_eq {s : Store} (hs : s.Sound) (name : Text) : s.chain name = s.rows name := by
  -- the places count upwards, so sorting by them changes nothing
  have hsorted : ((s.rows name).map EntryRow.index).Pairwise (· ≤ ·) := by
    rw [hs.places]
    exact List.pairwise_lt_range.imp Nat.le_of_lt
  refine List.mergeSort_of_pairwise ?_
  exact (List.pairwise_map.mp hsorted).imp fun h => by simpa using h

/-! ## Finding -/

/-- What is found depends on the row of the file and on the rows of its chain alone. -/
theorem find_congr {s s' : Store} {name : Text} (hrow : s'.row? name = s.row? name)
    (hrows : s'.rows name = s.rows name) : s'.find name = s.find name := by
  have hchain : s'.chain name = s.chain name := by
    unfold chain
    rw [← rows, ← rows, hrows]
  simp only [find, hrow, hchain]

theorem find_eq_none_iff {s : Store} {name : Text} :
    s.find name = .ok none ↔ s.tracks name = false := by
  rw [tracks_eq]
  unfold find
  cases hrow : s.row? name with
  | none => simp
  | some row =>
      simp only [Option.isSome_some, Bool.true_eq_false, iff_false]
      intro h
      obtain ⟨entries, -, h⟩ := Outcome.bind_eq_ok_iff.mp h
      obtain ⟨createdAt, -, h⟩ := Outcome.bind_eq_ok_iff.mp h
      obtain ⟨updatedAt, -, h⟩ := Outcome.bind_eq_ok_iff.mp h
      cases h

/-- What a file that was found consists of. -/
theorem find_eq_some_iff {s : Store} (hs : s.Sound) {name : Text} {f : TrackedFile} :
    s.find name = .ok (some f) ↔
      ∃ row, s.row? name = some row ∧ f.name = name ∧ f.base = row.base ∧
        (s.rows name).mapM EntryRow.entry = .ok f.entries ∧
        readTime row.createdAt = .ok f.createdAt ∧ readTime row.updatedAt = .ok f.updatedAt := by
  unfold find
  rw [chain_eq hs]
  cases hrow : s.row? name with
  | none => simp
  | some row =>
      constructor
      · intro h
        obtain ⟨entries, hentries, h⟩ := Outcome.bind_eq_ok_iff.mp h
        obtain ⟨createdAt, hcreated, h⟩ := Outcome.bind_eq_ok_iff.mp h
        obtain ⟨updatedAt, hupdated, h⟩ := Outcome.bind_eq_ok_iff.mp h
        cases h
        exact ⟨row, rfl, name_of_row? hrow, rfl, hentries, hcreated, hupdated⟩
      · rintro ⟨row', hrow', hname, hbase, hentries, hcreated, hupdated⟩
        cases hrow'
        obtain ⟨fname, fbase, fentries, fcreated, fupdated⟩ := f
        cases hname
        cases hbase
        rw [← name_of_row? hrow]
        simp only [name_of_row? hrow, hentries, hcreated, hupdated]
        rfl

/-- Reading a sound store never fails. -/
theorem find_ok {s : Store} (hs : s.Sound) (name : Text) : ∃ found, s.find name = .ok found := by
  cases hrow : s.row? name with
  | none => exact ⟨none, by rw [find, hrow]⟩
  | some row =>
      have hentry : ∀ r ∈ s.rows name, ∃ e, r.entry = .ok e := by
        intro r hr
        obtain ⟨t, ht⟩ := hs.entryTimes r (List.mem_filter.mp hr).1
        exact ⟨_, by rw [EntryRow.entry, ht]; rfl⟩
      obtain ⟨entries, hentries⟩ := Outcome.mapM_ok hentry
      obtain ⟨⟨created, hcreated⟩, updated, hupdated⟩ :=
        hs.fileTimes row (List.mem_of_find?_eq_some hrow)
      exact ⟨some ⟨name, row.base, entries, created, updated⟩,
        (find_eq_some_iff hs).mpr ⟨row, hrow, rfl, rfl, hentries, hcreated, hupdated⟩⟩

theorem find_of_tracks {s : Store} (hs : s.Sound) {name : Text} (h : s.tracks name = true) :
    ∃ f, s.find name = .ok (some f) := by
  obtain ⟨found, hfound⟩ := find_ok hs name
  cases found with
  | none =>
      rw [find_eq_none_iff.mp hfound] at h
      cases h
  | some f => exact ⟨f, hfound⟩

/-- What a file that was found was made from, in whatever store. -/
theorem row?_of_find {s : Store} {name : Text} {f : TrackedFile}
    (h : s.find name = .ok (some f)) :
    ∃ row, s.row? name = some row ∧ f.name = name ∧ f.base = row.base ∧
      (s.chain name).mapM EntryRow.entry = .ok f.entries := by
  unfold find at h
  split at h
  · cases h
  · next row hrow =>
    obtain ⟨entries, hentries, h⟩ := Outcome.bind_eq_ok_iff.mp h
    obtain ⟨_, -, h⟩ := Outcome.bind_eq_ok_iff.mp h
    obtain ⟨_, -, h⟩ := Outcome.bind_eq_ok_iff.mp h
    cases h
    exact ⟨row, hrow, name_of_row? hrow, rfl, hentries⟩

/-- A chain has as many rows as entries are found. -/
theorem count_of_find {s : Store} {name : Text} {f : TrackedFile}
    (h : s.find name = .ok (some f)) : s.count name = f.entries.length := by
  obtain ⟨row, -, -, -, hentries⟩ := row?_of_find h
  rw [Outcome.length_of_mapM hentries, chain, List.length_mergeSort, ← rows, count_eq]

theorem name_of_find {s : Store} {name : Text} {f : TrackedFile}
    (h : s.find name = .ok (some f)) : f.name = name := by
  obtain ⟨row, -, hname, -⟩ := row?_of_find h
  exact hname

theorem tracks_of_find {s : Store} {name : Text} {f : TrackedFile}
    (h : s.find name = .ok (some f)) : s.tracks name = true := by
  obtain ⟨row, hrow, -⟩ := row?_of_find h
  rw [tracks_eq, hrow]
  rfl

/-! ## Beginning to track a file -/

/-- The store after a file has been added to it. -/
def withFile (s : Store) (now : Instant) (name base : Text) : Store :=
  { s with files := s.files ++ [⟨name, base, now.print, now.print⟩] }

theorem create_of_tracked {s : Store} {now : Instant} {name base : Text}
    (h : s.tracks name = true) :
    s.create now name base = (s, .error (.alreadyExists name)) := if_pos h

theorem create_of_untracked {s : Store} {now : Instant} {name base : Text}
    (h : s.tracks name = false) :
    s.create now name base = (s.withFile now name base, .ok ⟨name, base, [], now, now⟩) :=
  if_neg (by simp [h])

section Create

variable {s : Store} (hs : s.Sound) {now : Instant} (hnow : now.Storable) {name : Text}
  (base : Text)
include hs hnow

theorem sound_withFile : (s.withFile now name base).Sound where
  places := hs.places
  owned := by
    intro r hr
    have h := hs.owned r hr
    simp only [tracks, withFile, List.any_append, Bool.or_eq_true] at h ⊢
    exact Or.inl h
  fileTimes := by
    intro r hr
    rcases List.mem_append.mp hr with hr | hr
    · exact hs.fileTimes r hr
    · obtain rfl := List.mem_singleton.mp hr
      exact ⟨⟨now, readTime_print hnow⟩, now, readTime_print hnow⟩
  entryTimes := hs.entryTimes

/-- **A new file** is found with its base and an empty chain, and all others as before. -/
theorem find_create (h : s.find name = .ok none) (other : Text) :
    (s.withFile now name base).find other
      = if other = name then .ok (some ⟨name, base, [], now, now⟩) else s.find other := by
  have htracks := find_eq_none_iff.mp h
  have hrow : s.row? name = none := by
    rw [tracks_eq] at htracks
    simpa using htracks
  by_cases hother : other = name
  · subst hother
    rw [if_pos rfl, find_eq_some_iff (sound_withFile hs hnow base)]
    refine ⟨⟨other, base, now.print, now.print⟩, ?_, rfl, rfl, ?_, readTime_print hnow,
      readTime_print hnow⟩
    · rw [row?] at hrow
      rw [row?, withFile, List.find?_append, hrow]
      simp
    · -- a file that was not tracked has left no rows behind
      show (s.rows other).mapM EntryRow.entry = .ok []
      rw [rows_eq_nil hs htracks]
      rfl
  · rw [if_neg hother]
    refine find_congr ?_ rfl
    rw [row?, row?, withFile, List.find?_append]
    have hne : (name == other) = false := beq_false_of_ne (Ne.symm hother)
    simp [hne]

end Create

/-! ## Adding an entry -/

/-- The store after an entry has been added to a chain. -/
def withEntry (s : Store) (now : Instant) (name : Text) (e : Entry) : Store :=
  { files := touch now name s.files, entries := s.entries ++ [.ofEntry name (s.count name) e] }

theorem insert_of_untracked {s : Store} (now : Instant) {name : Text} (e : Entry)
    (expected : Option Nat) (h : s.find name = .ok none) :
    s.insert now name e expected = .error (.notFound name) := by
  rw [insert, find_eq_none_iff.mp h]
  rfl

/-- An entry is added exactly when the chain is as long as expected. -/
theorem insert_of_found {s : Store} (now : Instant) {name : Text} (e : Entry)
    {f : TrackedFile} (h : s.find name = .ok (some f)) (n : Nat) :
    s.insert now name e (some n)
      = if n = f.entries.length then .ok (s.withEntry now name e)
        else .error (.conflict name n f.entries.length) := by
  rw [insert, tracks_of_find h, count_of_find h]
  by_cases hn : n = f.entries.length
  · simp [hn, withEntry, count_of_find h]
  · simp [hn]

section Insert

variable (s : Store) (now : Instant) (name : Text) (e : Entry)

theorem name_touched (r : FileRow) :
    (if r.name == name then { r with updatedAt := now.print } else r).name = r.name := by
  split <;> rfl

theorem tracks_withEntry (other : Text) :
    (s.withEntry now name e).tracks other = s.tracks other := by
  simp only [tracks, withEntry, touch, List.any_map]
  congr 1
  funext r
  simp only [Function.comp_apply, name_touched]

theorem row?_withEntry (other : Text) :
    (s.withEntry now name e).row? other = (s.row? other).map fun r =>
      if other = name then { r with updatedAt := now.print } else r := by
  have hcomp : ((fun r : FileRow => r.name == other) ∘ fun r : FileRow =>
      if r.name == name then { r with updatedAt := now.print } else r)
      = fun r => r.name == other := by
    funext r
    simp only [Function.comp_apply, name_touched]
  rw [row?, withEntry, touch, List.find?_map, hcomp, ← row?]
  cases hrow : s.row? other with
  | none => rfl
  | some row =>
      rw [Option.map_some, Option.map_some, name_of_row? hrow]
      simp only [beq_iff_eq]

theorem rows_withEntry (other : Text) :
    (s.withEntry now name e).rows other
      = s.rows other ++ if other = name then [.ofEntry name (s.count name) e] else [] := by
  rw [rows, withEntry, List.filter_append, ← rows]
  congr 1
  by_cases h : other = name
  · simp [h, EntryRow.ofEntry]
  · have hne : (name == other) = false := beq_false_of_ne (Ne.symm h)
    simp [h, hne, EntryRow.ofEntry]

variable {s now name e}

theorem sound_withEntry (hs : s.Sound) (hnow : now.Storable) (he : e.timestamp.Storable)
    (htracks : s.tracks name = true) : (s.withEntry now name e).Sound where
  places := by
    intro other
    rw [rows_withEntry]
    by_cases h : other = name
    · subst h
      rw [if_pos rfl, List.map_append, hs.places, List.length_append, List.length_singleton,
        List.range_succ, ← count_eq]
      rfl
    · rw [if_neg h, List.append_nil, hs.places]
  owned := by
    intro r hr
    rw [tracks_withEntry]
    rcases List.mem_append.mp hr with hr | hr
    · exact hs.owned r hr
    · rw [List.mem_singleton.mp hr]
      exact htracks
  fileTimes := by
    intro r hr
    obtain ⟨r', hr', rfl⟩ := List.mem_map.mp hr
    obtain ⟨hcreated, hupdated⟩ := hs.fileTimes r' hr'
    by_cases h : (r'.name == name) = true
    · rw [if_pos h]
      exact ⟨hcreated, now, readTime_print hnow⟩
    · rw [if_neg h]
      exact ⟨hcreated, hupdated⟩
  entryTimes := by
    intro r hr
    rcases List.mem_append.mp hr with hr | hr
    · exact hs.entryTimes r hr
    · rw [List.mem_singleton.mp hr]
      exact ⟨e.timestamp, readTime_print he⟩

/-- **A new entry** is found at the end of its chain, and every other file as before. -/
theorem find_insert (hs : s.Sound) (hnow : now.Storable) (he : e.timestamp.Storable)
    {f : TrackedFile} (h : s.find name = .ok (some f)) (other : Text) :
    (s.withEntry now name e).find other
      = if other = name then .ok (some { f with entries := f.entries ++ [e], updatedAt := now })
        else s.find other := by
  have hrow' := row?_withEntry s now name e other
  have hrows' := rows_withEntry s now name e other
  by_cases hother : other = name
  · subst hother
    rw [if_pos rfl] at hrows' ⊢
    obtain ⟨row, hrow, hname, hbase, hentries, hcreated, -⟩ := (find_eq_some_iff hs).mp h
    rw [hrow, Option.map_some, if_pos rfl] at hrow'
    rw [find_eq_some_iff (sound_withEntry hs hnow he (tracks_of_find h))]
    refine ⟨_, hrow', hname, hbase, ?_, hcreated, readTime_print hnow⟩
    rw [hrows', List.mapM_append, hentries]
    simp [EntryRow.entry_ofEntry _ _ he]
    rfl
  · simp only [if_neg hother, List.append_nil] at hrow' hrows' ⊢
    exact find_congr (by simpa using hrow') hrows'

end Insert

/-! ## Growth -/

/-- Every file of one store is in the other with the same base, and its chain is the beginning of
the chain there. -/
def Extends (s s' : Store) : Prop :=
  ∀ name f, s.find name = .ok (some f) →
    ∃ g, s'.find name = .ok (some g) ∧ g.base = f.base ∧ f.entries <+: g.entries

theorem Extends.refl (s : Store) : s.Extends s :=
  fun _ f h => ⟨f, h, rfl, List.prefix_rfl⟩

theorem Extends.trans {s s' s'' : Store} (h : s.Extends s') (h' : s'.Extends s'') :
    s.Extends s'' := by
  intro name f hf
  obtain ⟨g, hg, hbase, hentries⟩ := h name f hf
  obtain ⟨g', hg', hbase', hentries'⟩ := h' name g hg
  exact ⟨g', hg', hbase'.trans hbase, hentries.trans hentries'⟩

theorem extends_withFile {s : Store} (hs : s.Sound) {now : Instant} (hnow : now.Storable)
    {name : Text} (base : Text) (h : s.find name = .ok none) :
    s.Extends (s.withFile now name base) := by
  intro other f hf
  have hne : other ≠ name := by
    rintro rfl
    rw [h] at hf
    cases hf
  exact ⟨f, by rw [find_create hs hnow base h, if_neg hne, hf], rfl, List.prefix_rfl⟩

theorem extends_withEntry {s : Store} (hs : s.Sound) {now : Instant} (hnow : now.Storable)
    {name : Text} {e : Entry} (he : e.timestamp.Storable) {f : TrackedFile}
    (h : s.find name = .ok (some f)) : s.Extends (s.withEntry now name e) := by
  intro other g hg
  rw [find_insert hs hnow he h]
  by_cases hother : other = name
  · subst hother
    obtain rfl : f = g := by simpa [h] using hg
    exact ⟨_, if_pos rfl, rfl, List.prefix_append _ _⟩
  · exact ⟨g, by rw [if_neg hother, hg], rfl, List.prefix_rfl⟩

end Store

/-! ## Stores that calls make -/

/-- A call that may write, with the instant of the clock at which it is made. -/
inductive StoreCall where
  | create (now : Instant) (name base : Text)
  | append (now : Instant) (name : Text) (e : Entry) (expected : Option Nat)
  deriving DecidableEq, Repr

namespace StoreCall

/-- Every instant in the call can be stored. -/
def Storable : StoreCall → Prop
  | .create now _ _ => now.Storable
  | .append now _ e _ => now.Storable ∧ e.timestamp.Storable

/-- The store after a call, whether or not it succeeded. -/
def perform (s : Store) : StoreCall → Store
  | .create now name base => (s.create now name base).1
  | .append now name e expected => (s.append now name e expected).1

end StoreCall

namespace Store

/-- The store that some calls have made. -/
def after (calls : List StoreCall) : Store := calls.foldl StoreCall.perform {}

/-- Where an entry can be added, nothing else happens. -/
theorem insert_eq_ok {s s' : Store} {now : Instant} {name : Text} {e : Entry}
    {expected : Option Nat} (h : s.insert now name e expected = .ok s') :
    s.tracks name = true ∧ s' = s.withEntry now name e := by
  unfold insert at h
  split at h
  · cases h
  · next htracks =>
    dsimp only at h
    split at h
    · cases h
    · cases h
      exact ⟨by simpa using htracks, rfl⟩

theorem sound_perform {s : Store} (hs : s.Sound) {c : StoreCall} (hc : c.Storable) :
    (c.perform s).Sound := by
  cases c with
  | create now name base =>
      cases htracks : s.tracks name with
      | true =>
          rw [StoreCall.perform, create_of_tracked htracks]
          exact hs
      | false =>
          rw [StoreCall.perform, create_of_untracked htracks]
          exact sound_withFile hs hc base
  | append now name e expected =>
      cases hinsert : s.insert now name e expected with
      | error e =>
          simp only [StoreCall.perform, append, hinsert]
          exact hs
      | ok s' =>
          obtain ⟨htracks, rfl⟩ := insert_eq_ok hinsert
          simp only [StoreCall.perform, append, hinsert]
          exact sound_withEntry hs hc.1 hc.2 htracks

/-- **Calls keep the store sound**, whatever is in the patches they add. -/
theorem sound_after {calls : List StoreCall} (h : ∀ c ∈ calls, c.Storable) :
    (after calls).Sound :=
  List.foldlRecOn calls StoreCall.perform sound_empty fun _ hs c hc => sound_perform hs (h c hc)

end Store

end TextHistory
