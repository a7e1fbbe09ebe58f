import TextHistory.Proofs.Store

/-!
# Failed calls of the store

Adding an entry can fail in two ways before anything is written: the file is not tracked, or its
chain does not have the expected length. It can also fail afterwards, for the file is read again
once the entry is there, and then every time that is stored for the file is looked at
(`Store.times`). A time is written in any year and read only in the years 0 to 9999
(`readTime_print_iff`). So an entry of another year is added, and the call fails all the same, as
does every later reading of the file (`Store.append_failed`). No other failure leaves a trace.
-/

set_option autoImplicit false

namespace TextHistory

/-! ## Times -/

/-- A stored time can be read exactly when its year is written without a sign. -/
theorem readTime_print_iff {t : Instant} (h : t.Valid) :
    (∃ u, readTime t.print = .ok u) ↔ t.FourDigit := by
  constructor
  · rintro ⟨u, hu⟩
    refine Decidable.of_not_not fun hyear => ?_
    rw [readTime, Instant.read_print_of_not_fourDigit hyear] at hu
    cases hu
  · intro hyear
    obtain ⟨u, hu, hprint⟩ := Instant.print_eq_of_valid h hyear
    exact ⟨u, by rw [← hprint, readTime, Instant.read_print hu]⟩

theorem readTime_print_of_not_fourDigit {t : Instant} (h : ¬t.FourDigit) :
    readTime t.print = .error (.persistence .invalid) := by
  rw [readTime, Instant.read_print_of_not_fourDigit h]

/-- The first instant whose year has five digits. -/
def Instant.fiveDigits : Instant := ⟨10000, 1, 1, 0, 0, 0, 0⟩

theorem Instant.valid_fiveDigits : fiveDigits.Valid := by
  constructor <;> decide

/-- A stored time is read, or it is refused in one way. -/
theorem readTime_print_cases {t : Instant} (h : t.Valid) :
    (∃ u, readTime t.print = .ok u) ∨ readTime t.print = .error (.persistence .invalid) := by
  by_cases hyear : t.FourDigit
  · exact .inl ((readTime_print_iff h).mpr hyear)
  · exact .inr (readTime_print_of_not_fourDigit hyear)

namespace StoreCall

/-- The instants that a call may store. -/
def instants : StoreCall → List Instant
  | .create now _ _ => [now]
  | .append now _ e _ => [now, e.timestamp]

end StoreCall

namespace Store

/-- All times that are looked at when a file is read. -/
def times (s : Store) (name : Text) : List Text :=
  ((s.row? name).elim [] fun r => [r.createdAt, r.updatedAt])
    ++ (s.rows name).map EntryRow.timestamp

/-- Every time in the store is the text of an instant of some kind. -/
structure Written (P : Instant → Prop) (s : Store) : Prop where
  files : ∀ r ∈ s.files,
    (∃ t, P t ∧ r.createdAt = t.print) ∧ ∃ t, P t ∧ r.updatedAt = t.print
  entries : ∀ r ∈ s.entries, ∃ t, P t ∧ r.timestamp = t.print

section Written

variable {P : Instant → Prop} {s : Store} (h : s.Written P) {now : Instant} (hnow : P now)
  {name : Text}

theorem written_empty (P : Instant → Prop) : ({} : Store).Written P where
  files := by simp
  entries := by simp

include h

theorem Written.imp {Q : Instant → Prop} (hPQ : ∀ t, P t → Q t) : s.Written Q where
  files := fun r hr =>
    ⟨(h.files r hr).1.imp fun _ ht => ⟨hPQ _ ht.1, ht.2⟩,
      (h.files r hr).2.imp fun _ ht => ⟨hPQ _ ht.1, ht.2⟩⟩
  entries := fun r hr => (h.entries r hr).imp fun _ ht => ⟨hPQ _ ht.1, ht.2⟩

theorem Written.of_mem_times {text : Text} (ht : text ∈ s.times name) :
    ∃ t, P t ∧ text = t.print := by
  rcases List.mem_append.mp ht with ht | ht
  · cases hrow : s.row? name with
    | none => simp [hrow] at ht
    | some row =>
        obtain ⟨hcreated, hupdated⟩ := h.files row (List.mem_of_find?_eq_some hrow)
        simp only [hrow, Option.elim_some, List.mem_cons, List.not_mem_nil, or_false] at ht
        rcases ht with rfl | rfl
        · exact hcreated
        · exact hupdated
  · obtain ⟨r, hr, rfl⟩ := List.mem_map.mp ht
    exact h.entries r (List.mem_filter.mp hr).1

include hnow

theorem written_withFile (base : Text) : (s.withFile now name base).Written P where
  files := by
    intro r hr
    rcases List.mem_append.mp hr with hr | hr
    · exact h.files r hr
    · obtain rfl := List.mem_singleton.mp hr
      exact ⟨⟨now, hnow, rfl⟩, now, hnow, rfl⟩
  entries := h.entries

theorem written_withEntry {e : Entry} (he : P e.timestamp) :
    (s.withEntry now name e).Written P where
  files := by
    intro r hr
    obtain ⟨r', hr', rfl⟩ := List.mem_map.mp hr
    obtain ⟨hcreated, hupdated⟩ := h.files r' hr'
    by_cases hname : (r'.name == name) = true
    · rw [if_pos hname]
      exact ⟨hcreated, now, hnow, rfl⟩
    · rw [if_neg hname]
      exact ⟨hcreated, hupdated⟩
  entries := by
    intro r hr
    rcases List.mem_append.mp hr with hr | hr
    · exact h.entries r hr
    · rw [List.mem_singleton.mp hr]
      exact ⟨e.timestamp, he, rfl⟩

end Written

/-! ## Accepted entries -/

/-- An entry may be added: the file is tracked, and its chain is as long as expected. -/
def Accepts (s : Store) (name : Text) (expected : Option Nat) : Prop :=
  s.tracks name = true ∧ ∀ n, expected = some n → n = s.count name

theorem append_of_accepts {s : Store} (now : Instant) {name : Text} (e : Entry)
    {expected : Option Nat} (h : s.Accepts name expected) :
    s.append now name e expected
      = (s.withEntry now name e, (s.withEntry now name e).reread name) := by
  have hinsert : s.insert now name e expected = .ok (s.withEntry now name e) := by
    rw [insert, h.1]
    cases expected with
    | none => rfl
    | some n => simp [h.2 n rfl, withEntry]
  rw [append, hinsert]

/-- An entry that may not be added is refused, for one of two causes. -/
theorem append_of_not_accepts {s : Store} (now : Instant) {name : Text} (e : Entry)
    {expected : Option Nat} (h : ¬s.Accepts name expected) :
    (s.append now name e expected).1 = s ∧
      ((s.tracks name = false ∧ (s.append now name e expected).2 = .error (.notFound name)) ∨
        ∃ n, expected = some n ∧ n ≠ s.count name ∧
          (s.append now name e expected).2 = .error (.conflict name n (s.count name))) := by
  cases htracks : s.tracks name with
  | false =>
      simp [append, insert, htracks]
  | true =>
      cases expected with
      | none => exact absurd ⟨htracks, by simp⟩ h
      | some n =>
          have hn : n ≠ s.count name := by
            rintro rfl
            exact h ⟨htracks, by simp⟩
          simp [append, insert, htracks, hn]

theorem withEntry_ne (s : Store) (now : Instant) (name : Text) (e : Entry) :
    s.withEntry now name e ≠ s := by
  intro heq
  have hlen := congrArg (fun s => s.entries.length) heq
  simp [withEntry] at hlen

theorem written_perform {P : Instant → Prop} {s : Store} (h : s.Written P) {c : StoreCall}
    (hc : ∀ t ∈ c.instants, P t) : (c.perform s).Written P := by
  cases c with
  | create now name base =>
      cases htracks : s.tracks name with
      | true =>
          rw [StoreCall.perform, create_of_tracked htracks]
          exact h
      | false =>
          rw [StoreCall.perform, create_of_untracked htracks]
          exact written_withFile h (hc now (by simp [StoreCall.instants])) base
  | append now name e expected =>
      by_cases haccepts : s.Accepts name expected
      · rw [StoreCall.perform, append_of_accepts now e haccepts]
        exact written_withEntry h (hc now (by simp [StoreCall.instants]))
          (hc e.timestamp (by simp [StoreCall.instants]))
      · rw [StoreCall.perform, (append_of_not_accepts now e haccepts).1]
        exact h

/-- Calls write the times of their instants. -/
theorem written_after {P : Instant → Prop} {calls : List StoreCall}
    (h : ∀ c ∈ calls, ∀ t ∈ c.instants, P t) : (after calls).Written P :=
  List.foldlRecOn calls StoreCall.perform (written_empty P) fun _ hs c hc =>
    written_perform hs (h c hc)

/-! ## Files that cannot be read -/

theorem entry_eq (r : EntryRow) :
    r.entry = (readTime r.timestamp).map fun t => ⟨t, r.patch, r.author⟩ := by
  rw [EntryRow.entry]
  cases readTime r.timestamp <;> rfl

theorem entry_eq_ok_iff {r : EntryRow} :
    (∃ e, r.entry = .ok e) ↔ ∃ u, readTime r.timestamp = .ok u := by
  rw [entry_eq]
  cases readTime r.timestamp with
  | error e => simp [Except.map]
  | ok u => simp [Except.map]

theorem entry_eq_error_iff {r : EntryRow} {error : Error} :
    r.entry = .error error ↔ readTime r.timestamp = .error error := by
  rw [entry_eq]
  cases readTime r.timestamp with
  | error e => simp [Except.map]
  | ok u => simp [Except.map]

/-- A tracked file is read, or one of its times cannot be. -/
theorem find_cases {s : Store} (h : s.Written Instant.Valid) {name : Text}
    (htracks : s.tracks name = true) :
    ((∃ f, s.find name = .ok (some f)) ∧ ∀ text ∈ s.times name, ∃ u, readTime text = .ok u) ∨
      (s.find name = .error (.persistence .invalid) ∧
        ∃ text ∈ s.times name, readTime text = .error (.persistence .invalid)) := by
  have hcases : ∀ text ∈ s.times name,
      (∃ u, readTime text = .ok u) ∨ readTime text = .error (.persistence .invalid) := by
    intro text ht
    obtain ⟨t, hvalid, rfl⟩ := h.of_mem_times ht
    exact readTime_print_cases hvalid
  obtain ⟨row, hrow⟩ : ∃ row, s.row? name = some row := by
    rwa [tracks_eq, Option.isSome_iff_exists] at htracks
  have htimes : s.times name
      = row.createdAt :: row.updatedAt :: (s.rows name).map EntryRow.timestamp := by
    rw [times, hrow]
    rfl
  rw [htimes] at hcases ⊢
  obtain ⟨hcreated, hupdated, hrows⟩ : _ ∧ _ ∧ _ := by
    simpa only [List.forall_mem_cons, List.forall_mem_map] using hcases
  -- the rows are looked at in order, then the two times of the file
  have hentries : ∀ r ∈ s.chain name,
      (∃ e, r.entry = .ok e) ∨ r.entry = .error (.persistence .invalid) := by
    intro r hr
    rw [entry_eq_ok_iff, entry_eq_error_iff]
    exact hrows r (List.mem_mergeSort.mp hr)
  unfold find
  rw [hrow]
  rcases Outcome.mapM_cases hentries with ⟨⟨entries, hok⟩, hall⟩ | ⟨herr, r, hr, hrerr⟩
  · simp only [hok]
    rcases hcreated with ⟨created, hcreated⟩ | hcreated
    · rcases hupdated with ⟨updated, hupdated⟩ | hupdated
      · refine .inl ⟨⟨_, by rw [hcreated, hupdated]; rfl⟩, ?_⟩
        simp only [List.forall_mem_cons, List.forall_mem_map]
        refine ⟨⟨created, hcreated⟩, ⟨updated, hupdated⟩, fun r hr => ?_⟩
        exact entry_eq_ok_iff.mp (hall r (List.mem_mergeSort.mpr hr))
      · exact .inr ⟨by rw [hcreated, hupdated]; rfl, _, by simp, hupdated⟩
    · exact .inr ⟨by rw [hcreated]; rfl, _, by simp, hcreated⟩
  · refine .inr ⟨by rw [herr]; rfl, r.timestamp, ?_, entry_eq_error_iff.mp hrerr⟩
    have hmem : r ∈ s.rows name := List.mem_mergeSort.mp hr
    exact List.mem_cons_of_mem _ (List.mem_cons_of_mem _ (List.mem_map_of_mem hmem))

/-- A tracked file is read, or one of its times is of a year that is not read. -/
theorem reread_cases {P : Instant → Prop} (hP : ∀ t, P t → t.Valid) {s : Store}
    (h : s.Written P) {name : Text} (htracks : s.tracks name = true) :
    ((∃ f, s.reread name = .ok f) ∧ ∀ t : Instant, t.print ∈ s.times name → t.FourDigit) ∨
      (s.reread name = .error (.persistence .invalid) ∧
        s.find name = .error (.persistence .invalid) ∧
        ∃ t, P t ∧ ¬t.FourDigit ∧ t.print ∈ s.times name) := by
  rcases find_cases (h.imp hP) htracks with ⟨⟨f, hf⟩, hall⟩ | ⟨herr, text, htext, hread⟩
  · refine .inl ⟨⟨f, by rw [reread, hf]; rfl⟩, fun t ht => Decidable.of_not_not fun hyear => ?_⟩
    obtain ⟨u, hu⟩ := hall _ ht
    rw [readTime_print_of_not_fourDigit hyear] at hu
    cases hu
  · refine .inr ⟨by rw [reread, herr]; rfl, herr, ?_⟩
    obtain ⟨t, hPt, rfl⟩ := h.of_mem_times htext
    refine ⟨t, hPt, fun hyear => ?_, htext⟩
    obtain ⟨u, hu⟩ := (readTime_print_iff (hP t hPt)).mpr hyear
    rw [hread] at hu
    cases hu

/-! ## Traces -/

/-- An entry that may be added is added, whether or not the file can be read afterwards. -/
theorem append_cases {P : Instant → Prop} (hP : ∀ t, P t → t.Valid) {s : Store}
    (h : s.Written P) {now : Instant} (hnow : P now) {name : Text} {e : Entry}
    (he : P e.timestamp) {expected : Option Nat} (haccepts : s.Accepts name expected) :
    let s' := s.withEntry now name e
    (s.append now name e expected).1 = s' ∧
      (((∃ f, (s.append now name e expected).2 = .ok f) ∧
          ∀ t : Instant, t.print ∈ s'.times name → t.FourDigit) ∨
        ((s.append now name e expected).2 = .error (.persistence .invalid) ∧
          s'.find name = .error (.persistence .invalid) ∧
          ∃ t, P t ∧ ¬t.FourDigit ∧ t.print ∈ s'.times name)) := by
  have htracks : (s.withEntry now name e).tracks name = true := by
    rw [tracks_withEntry]
    exact haccepts.1
  rw [append_of_accepts now e haccepts]
  exact ⟨rfl, reread_cases hP (written_withEntry h hnow he) htracks⟩

/-- When all years are read, nothing is left of a call that fails. -/
theorem append_untraced {s : Store} (h : s.Written fun t => t.Valid ∧ t.FourDigit)
    {now : Instant} (hnow : now.Valid ∧ now.FourDigit) {name : Text} {e : Entry}
    (he : e.timestamp.Valid ∧ e.timestamp.FourDigit) {expected : Option Nat} {error : Error}
    (herr : (s.append now name e expected).2 = .error error) :
    (s.append now name e expected).1 = s := by
  by_cases haccepts : s.Accepts name expected
  · obtain ⟨-, ⟨⟨f, hf⟩, -⟩ | ⟨-, -, t, ⟨-, hyear⟩, hnot, -⟩⟩ :=
      append_cases (fun _ ht => ht.1) h hnow he haccepts
    · rw [hf] at herr
      cases herr
    · exact absurd hyear hnot
  · exact (append_of_not_accepts now e haccepts).1

/-- **What a failed call leaves.** Whatever calls have made the store, an entry that is refused
because the file is not tracked or its chain has another length changes nothing. A call fails and
changes the store exactly when the entry may be added and one of the times of the file, the new
ones included, lies outside the years 0 to 9999. Then the entry is there, and the file cannot be
read any more. So nothing is left of a failed call as long as all years are in that range. -/
theorem append_failed (calls : List StoreCall)
    (hcalls : ∀ c ∈ calls, ∀ t ∈ c.instants, t.Valid) (now : Instant) (hnow : now.Valid)
    (name : Text) (e : Entry) (he : e.timestamp.Valid) (expected : Option Nat) :
    let s := after calls
    let s' := (s.append now name e expected).1
    let answer := (s.append now name e expected).2
    (∀ error, answer = .error error →
      (s' = s ∧ ((s.tracks name = false ∧ error = .notFound name) ∨
        ∃ n, expected = some n ∧ n ≠ s.count name ∧ error = .conflict name n (s.count name))) ∨
      (s' = s.withEntry now name e ∧ error = .persistence .invalid ∧
        s'.find name = .error (.persistence .invalid))) ∧
    ((∃ error, answer = .error error ∧ s' ≠ s) ↔
      s.Accepts name expected ∧
        ∃ t : Instant, ¬t.FourDigit ∧ t.print ∈ (s.withEntry now name e).times name) ∧
    ((∀ c ∈ calls, ∀ t ∈ c.instants, t.FourDigit) → now.FourDigit → e.timestamp.FourDigit →
      ∀ error, answer = .error error → s' = s) := by
  intro s s' answer
  refine ⟨?_, ?_, fun hyears hnow' he' error herr => append_untraced
    (written_after fun c hc t ht => ⟨hcalls c hc t ht, hyears c hc t ht⟩) ⟨hnow, hnow'⟩ ⟨he, he'⟩
    herr⟩
  all_goals by_cases haccepts : s.Accepts name expected
  · intro error herr
    obtain ⟨hstore, ⟨⟨f, hf⟩, -⟩ | ⟨hfails, hfind, -⟩⟩ :=
      append_cases (fun _ ht => ht) (written_after hcalls) hnow he haccepts
    · cases hf.symm.trans herr
    · cases hfails.symm.trans herr
      refine .inr ⟨hstore, rfl, ?_⟩
      rw [show s' = s.withEntry now name e from hstore]
      exact hfind
  · intro error herr
    obtain ⟨hstore, ⟨htracks, hnot⟩ | ⟨n, hn, hne, hconflict⟩⟩ :=
      append_of_not_accepts now e haccepts
    · cases hnot.symm.trans herr
      exact .inl ⟨hstore, .inl ⟨htracks, rfl⟩⟩
    · cases hconflict.symm.trans herr
      exact .inl ⟨hstore, .inr ⟨n, hn, hne, rfl⟩⟩
  · obtain ⟨hstore, hcases⟩ :=
      append_cases (fun _ ht => ht) (written_after hcalls) hnow he haccepts
    have hne : s' ≠ s := by
      rw [show s' = s.withEntry now name e from hstore]
      exact s.withEntry_ne now name e
    rcases hcases with ⟨⟨f, hf⟩, hyears⟩ | ⟨hfails, -, t, -, hyear, ht⟩
    · constructor
      · rintro ⟨error, herr, -⟩
        cases hf.symm.trans herr
      · rintro ⟨-, t, hyear, ht⟩
        exact absurd (hyears t ht) hyear
    · exact ⟨fun _ => ⟨haccepts, t, hyear, ht⟩, fun _ => ⟨_, hfails, hne⟩⟩
  · constructor
    · rintro ⟨_, -, hne⟩
      exact absurd (append_of_not_accepts now e haccepts).1 hne
    · rintro ⟨h, -⟩
      exact absurd h haccepts

/-- A file with its base only, and an entry of the year 10000 for it. -/
theorem append_failed_five_digits :
    let calls : List StoreCall := [.create .newYear ['a'] ['x']]
    let s := after calls
    let e : Entry := ⟨.fiveDigits, [], none⟩
    (∀ c ∈ calls, ∀ t ∈ c.instants, t.Valid) ∧ Instant.newYear.Valid ∧ e.timestamp.Valid ∧
      s.Accepts ['a'] none ∧
      ∃ error, (s.append .newYear ['a'] e none).2 = .error error ∧
        (s.append .newYear ['a'] e none).1 ≠ s := by
  intro calls s e
  have hnow : Instant.newYear.Valid := Instant.storable_newYear.valid
  have hcalls : ∀ c ∈ calls, ∀ t ∈ c.instants, t.Valid := by
    simpa [calls, StoreCall.instants] using hnow
  have haccepts : s.Accepts ['a'] none := ⟨rfl, by simp⟩
  have htimes : e.timestamp.print ∈ (s.withEntry .newYear ['a'] e).times ['a'] := by
    simp [times, rows_withEntry, EntryRow.ofEntry]
  obtain ⟨-, htrace, -⟩ :=
    append_failed calls hcalls .newYear hnow ['a'] e Instant.valid_fiveDigits none
  exact ⟨hcalls, hnow, Instant.valid_fiveDigits, haccepts,
    htrace.mpr ⟨haccepts, .fiveDigits, by decide, htimes⟩⟩

/-- **A call can fail and leave its entry behind**: a file that could be read cannot be read after
it. -/
theorem append_leaves_trace :
    let s := after [.create .newYear ['a'] ['x']]
    let e : Entry := ⟨.fiveDigits, [], none⟩
    let s' := (s.append .newYear ['a'] e none).1
    e.timestamp.Valid ∧ (s.append .newYear ['a'] e none).2 = .error (.persistence .invalid) ∧
      s'.entries = s.entries ++ [.ofEntry ['a'] 0 e] ∧
      s.find ['a'] = .ok (some ⟨['a'], ['x'], [], .newYear, .newYear⟩) ∧
      s'.find ['a'] = .error (.persistence .invalid) := by
  intro s e s'
  have hs : s.Written Instant.Valid :=
    written_after (by simpa [StoreCall.instants] using Instant.storable_newYear.valid)
  have hfind : s.find ['a'] = .ok (some ⟨['a'], ['x'], [], .newYear, .newYear⟩) :=
    (find_create sound_empty Instant.storable_newYear ['x'] rfl ['a']).trans (if_pos rfl)
  have haccepts : s.Accepts ['a'] none := ⟨rfl, by simp⟩
  obtain ⟨hstore, ⟨-, hyears⟩ | ⟨hfails, hfind', -⟩⟩ :=
    append_cases (fun _ ht => ht) hs Instant.storable_newYear.valid (e := e)
      Instant.valid_fiveDigits haccepts
  · -- the new time is one of those that are looked at
    have hyear := hyears e.timestamp (by simp [times, rows_withEntry, EntryRow.ofEntry])
    exact absurd hyear (by decide)
  · have hs' : s' = s.withEntry .newYear ['a'] e := hstore
    rw [hs']
    exact ⟨Instant.valid_fiveDigits, hfails, rfl, hfind, hfind'⟩

end Store

end TextHistory
