import TextHistory.Proofs.Store
import TextHistory.Proofs.Text.Order

/-!
# Views of the store

A file can be looked at in three ways: with its chain, as the listing of its chain, and as a line in
the listing of all files. What a file should look like is decided by the calls that were made: the
first one that begins it gives its base, and each call that succeeded in adding an entry to it gives
one entry (`Store.recorded`). All three views show this one record (`Store.views_agree`), and the
listing of all files has one line for each, in the order of the bytes of the names.

That the listing has no line twice takes one more fact about the table of files: no two rows have
the same name (`Store.Distinct`).
-/

set_option autoImplicit false

namespace TextHistory

/-! ## What calls record -/

namespace StoreCall

/-- The file that the call is about. -/
def name : StoreCall → Text
  | .create _ name _ => name
  | .append _ name _ _ => name

/-- The instant at which the call is made. -/
def now : StoreCall → Instant
  | .create now _ _ => now
  | .append now _ _ _ => now

/-- The answer to a call. -/
def answer (s : Store) : StoreCall → Except Error TrackedFile
  | .create now name base => (s.create now name base).2
  | .append now name e expected => (s.append now name e expected).2

/-- The file that a call would begin, if it has the given name. -/
def begun? (name : Text) : StoreCall → Option TrackedFile
  | .create now name' base => if name' = name then some ⟨name, base, [], now, now⟩ else none
  | .append .. => none

/-- The entry that a call would add. -/
def entry? : StoreCall → Option Entry
  | .create .. => none
  | .append _ _ e _ => some e

end StoreCall

/-- A file after some successful calls about it. -/
def TrackedFile.after (f : TrackedFile) (calls : List StoreCall) : TrackedFile :=
  { f with
    entries := f.entries ++ calls.filterMap StoreCall.entry?
    updatedAt := (calls.map StoreCall.now).getLastD f.updatedAt }

theorem TrackedFile.after_nil (f : TrackedFile) : f.after [] = f := by
  rw [after, List.filterMap_nil, List.append_nil]
  rfl

theorem TrackedFile.after_cons (f : TrackedFile) (c : StoreCall) (rest : List StoreCall) :
    f.after (c :: rest)
      = after { f with entries := f.entries ++ c.entry?.toList, updatedAt := c.now } rest := by
  have hentries : (c :: rest).filterMap StoreCall.entry?
      = c.entry?.toList ++ rest.filterMap StoreCall.entry? := by
    rw [List.filterMap_cons]
    cases c.entry? <;> rfl
  rw [after, after, hentries, List.map_cons, List.getLastD_cons, List.append_assoc]

namespace Store

/-- The calls about a file that succeed, in their order. -/
def successes (s : Store) (name : Text) : List StoreCall → List StoreCall
  | [] => []
  | c :: rest =>
    (if (c.answer s).isOk && c.name == name then [c] else [])
      ++ successes (c.perform s) name rest

/-- A file as calls on an empty store describe it: begun by the first call that does so, with the
entries of the successful calls in their order. -/
def recorded (calls : List StoreCall) (name : Text) : Option TrackedFile :=
  (calls.findSome? (StoreCall.begun? name)).map fun f => f.after (successes {} name calls)

/-! ## One call -/

/-- What a call does: nothing, or it begins a file, or it adds an entry. -/
inductive Effect (s : Store) : StoreCall → Prop where
  | refused {c : StoreCall} {error : Error} :
      c.perform s = s → c.answer s = .error error →
      (∀ now name base, c = .create now name base → s.tracks name = true) → Effect s c
  | created {now : Instant} {name base : Text} : s.find name = .ok none →
      (StoreCall.create now name base).perform s = s.withFile now name base →
      (StoreCall.create now name base).answer s = .ok ⟨name, base, [], now, now⟩ →
      Effect s (.create now name base)
  | appended {now : Instant} {name : Text} {e : Entry} {expected : Option Nat} {f : TrackedFile} :
      s.find name = .ok (some f) →
      (StoreCall.append now name e expected).perform s = s.withEntry now name e →
      (StoreCall.append now name e expected).answer s
        = .ok { f with entries := f.entries ++ [e], updatedAt := now } →
      Effect s (.append now name e expected)

theorem effect_of_storable {s : Store} (hs : s.Sound) {c : StoreCall} (hc : c.Storable) :
    s.Effect c := by
  cases c with
  | create now name base =>
      cases htracks : s.tracks name with
      | true =>
          have hcreate : s.create now name base = (s, .error (.alreadyExists name)) :=
            create_of_tracked htracks
          refine .refused (congrArg Prod.fst hcreate) (congrArg Prod.snd hcreate) ?_
          rintro _ _ _ ⟨⟩
          exact htracks
      | false =>
          have hcreate : s.create now name base
              = (s.withFile now name base, .ok ⟨name, base, [], now, now⟩) :=
            create_of_untracked htracks
          exact .created (find_eq_none_iff.mpr htracks) (congrArg Prod.fst hcreate)
            (congrArg Prod.snd hcreate)
  | append now name e expected =>
      have hnot : ∀ now' name' base', StoreCall.append now name e expected
          = .create now' name' base' → s.tracks name' = true := by
        rintro _ _ _ ⟨⟩
      cases hinsert : s.insert now name e expected with
      | error error =>
          have happend : s.append now name e expected = (s, .error error) := by
            rw [append, hinsert]
          exact .refused (congrArg Prod.fst happend) (congrArg Prod.snd happend) hnot
      | ok s' =>
          obtain ⟨htracks, rfl⟩ := insert_eq_ok hinsert
          obtain ⟨f, hfound⟩ := find_of_tracks hs htracks
          have hfind := find_insert hs hc.1 hc.2 hfound name
          rw [if_pos rfl] at hfind
          have happend : s.append now name e expected
              = (s.withEntry now name e,
                  .ok { f with entries := f.entries ++ [e], updatedAt := now }) := by
            simp only [append, hinsert, reread, hfind, bind, Except.bind]
          exact .appended hfound (congrArg Prod.fst happend) (congrArg Prod.snd happend)

/-! ## All calls -/

theorem successes_refused {s : Store} {c : StoreCall} {error : Error}
    (h : c.answer s = .error error) (name : Text) (rest : List StoreCall) :
    successes s name (c :: rest) = successes (c.perform s) name rest := by
  rw [successes, h]
  rfl

theorem successes_other {s : Store} {c : StoreCall} {name : Text} (h : c.name ≠ name)
    (rest : List StoreCall) :
    successes s name (c :: rest) = successes (c.perform s) name rest := by
  rw [successes, beq_false_of_ne h, Bool.and_false]
  rfl

theorem successes_done {s : Store} {c : StoreCall} {n : Text} {f : TrackedFile}
    (h : c.answer s = .ok f) (hname : c.name = n) (rest : List StoreCall) :
    successes s n (c :: rest) = c :: successes (c.perform s) n rest := by
  rw [successes, h, hname, beq_self_eq_true]
  rfl

/-- What further calls make of a file that is there. -/
theorem find_of_found {s : Store} (hs : s.Sound) {calls : List StoreCall}
    (h : ∀ c ∈ calls, c.Storable) {name : Text} {f : TrackedFile}
    (hfind : s.find name = .ok (some f)) :
    (calls.foldl StoreCall.perform s).find name
      = .ok (some (f.after (s.successes name calls))) := by
  induction calls generalizing s f with
  | nil => rw [List.foldl_nil, hfind, successes, TrackedFile.after_nil]
  | cons c calls ih =>
      have hc := h c List.mem_cons_self
      have hrest := fun c hc => h c (List.mem_cons_of_mem _ hc)
      have hs' := sound_perform hs hc
      rw [List.foldl_cons]
      cases effect_of_storable hs hc with
      | refused hstore hanswer =>
          rw [hstore, successes_refused hanswer, hstore]
          exact ih hs hrest hfind
      | @created now other base hnone hstore hanswer =>
          -- the file is there, so it is another one that is begun
          have hne : other ≠ name := by
            rintro rfl
            rw [hfind] at hnone
            cases hnone
          rw [successes_other (c := .create now other base) hne]
          refine ih hs' hrest ?_
          rw [hstore, find_create hs hc base hnone, if_neg (Ne.symm hne), hfind]
      | @appended now other e expected g hother hstore hanswer =>
          have hfind' := find_insert hs hc.1 hc.2 hother name
          rw [← hstore] at hfind'
          by_cases hne : other = name
          · -- the entry stands at the end of what is there, where the further ones are added
            subst hne
            rw [hfind] at hother
            cases hother
            rw [if_pos rfl] at hfind'
            rw [successes_done hanswer (n := other) rfl, ih hs' hrest hfind',
              TrackedFile.after_cons]
            rfl
          · rw [if_neg (Ne.symm hne), hfind] at hfind'
            rw [successes_other (c := .append now other e expected) hne]
            exact ih hs' hrest hfind'

/-- What calls make of a file that is not there. -/
theorem find_of_none {s : Store} (hs : s.Sound) {calls : List StoreCall}
    (h : ∀ c ∈ calls, c.Storable) {name : Text} (hfind : s.find name = .ok none) :
    (calls.foldl StoreCall.perform s).find name
      = .ok ((calls.findSome? (StoreCall.begun? name)).map fun f =>
          f.after (s.successes name calls)) := by
  induction calls generalizing s with
  | nil => exact hfind
  | cons c calls ih =>
      have hc := h c List.mem_cons_self
      have hrest := fun c hc => h c (List.mem_cons_of_mem _ hc)
      have hs' := sound_perform hs hc
      rw [List.foldl_cons, List.findSome?_cons]
      cases effect_of_storable hs hc with
      | refused hstore hanswer htracked =>
          -- only a file that is there already is refused to be begun
          have hbegun : c.begun? name = none := by
            cases c with
            | append now other e expected => rfl
            | create now other base =>
                have htracks := htracked now other base rfl
                refine if_neg fun heq => ?_
                rw [heq, find_eq_none_iff.mp hfind] at htracks
                cases htracks
          rw [hstore, successes_refused hanswer, hstore, hbegun]
          exact ih hs hrest hfind
      | @created now other base hnone hstore hanswer =>
          have hfind' := find_create hs hc base hnone name
          rw [← hstore] at hfind'
          by_cases hne : other = name
          · -- from here on the file is there
            subst hne
            rw [if_pos rfl] at hfind'
            have hbegun : (StoreCall.create now other base).begun? other
                = some ⟨other, base, [], now, now⟩ := if_pos rfl
            rw [find_of_found hs' hrest hfind', successes_done hanswer (n := other) rfl, hbegun,
              Option.map_some, TrackedFile.after_cons]
            rfl
          · have hbegun : (StoreCall.create now other base).begun? name = none := if_neg hne
            rw [if_neg (Ne.symm hne), hfind] at hfind'
            rw [successes_other (c := .create now other base) hne, hbegun]
            exact ih hs' hrest hfind'
      | @appended now other e expected g hother hstore hanswer =>
          have hne : other ≠ name := by
            rintro rfl
            rw [hfind] at hother
            cases hother
          rw [successes_other (c := .append now other e expected) hne]
          refine ih hs' hrest ?_
          rw [hstore, find_insert hs hc.1 hc.2 hother, if_neg (Ne.symm hne), hfind]

/-- A file is found as the calls describe it. -/
theorem find_after {calls : List StoreCall} (h : ∀ c ∈ calls, c.Storable) (name : Text) :
    (after calls).find name = .ok (recorded calls name) :=
  find_of_none sound_empty h rfl

/-! ## The listing of a chain -/

/-- A row tells of its entry what the listing shows, and its place besides. -/
theorem summary_of_entry {r : EntryRow} {e : Entry} (h : r.entry = .ok e) :
    r.summary = .ok ⟨r.index, e.timestamp, e.author⟩ := by
  rw [EntryRow.entry] at h
  obtain ⟨t, ht, h⟩ := Outcome.bind_eq_ok_iff.mp h
  cases h
  rw [EntryRow.summary, ht]
  rfl

theorem summaries_of_entries {rows : List EntryRow} {es : List Entry} {start : Nat}
    (h : rows.mapM EntryRow.entry = .ok es)
    (hplaces : rows.map EntryRow.index = List.range' start rows.length) :
    rows.mapM EntryRow.summary
      = .ok (es.mapIdx fun i e => ⟨start + i, e.timestamp, e.author⟩) := by
  induction rows generalizing es start with
  | nil =>
      cases h
      rfl
  | cons r rows ih =>
      rw [List.mapM_cons] at h
      obtain ⟨e, he, h⟩ := Outcome.bind_eq_ok_iff.mp h
      obtain ⟨rest, hrest, h⟩ := Outcome.bind_eq_ok_iff.mp h
      cases h
      rw [List.map_cons, List.length_cons, List.range'_succ, List.cons.injEq] at hplaces
      obtain ⟨hindex, hplaces⟩ := hplaces
      have hnext : (fun (i : Nat) (e : Entry) =>
          (⟨start + 1 + i, e.timestamp, e.author⟩ : EntrySummary))
          = fun i e => ⟨start + (i + 1), e.timestamp, e.author⟩ := by
        funext i e
        rw [Nat.add_assoc, Nat.add_comm 1 i]
      rw [List.mapM_cons, summary_of_entry he, ih hrest hplaces, hindex, hnext, List.mapIdx_cons]
      rfl

/-- The listing of a chain shows the chain. -/
theorem history_of_find {s : Store} (hs : s.Sound) {name : Text} {found : Option TrackedFile}
    (h : s.find name = .ok found) : s.history name = .ok (found.map TrackedFile.history) := by
  cases found with
  | none =>
      rw [history, find_eq_none_iff.mp h]
      rfl
  | some f =>
      obtain ⟨row, -, -, -, hentries, -, -⟩ := (find_eq_some_iff hs).mp h
      have hplaces : (s.rows name).map EntryRow.index
          = List.range' 0 (s.rows name).length := by
        rw [hs.places, List.range_eq_range']
      rw [history, tracks_of_find h, chain_eq hs, summaries_of_entries hentries hplaces]
      simp only [Nat.zero_add, if_true]
      rfl

/-! ## The listing of all files -/

/-- No two rows of the table of files have the same name. -/
def Distinct (s : Store) : Prop := (s.files.map FileRow.name).Nodup

theorem distinct_perform {s : Store} (hs : s.Sound) (hd : s.Distinct) {c : StoreCall}
    (hc : c.Storable) : (c.perform s).Distinct := by
  cases effect_of_storable hs hc with
  | refused hstore _ _ =>
      rw [hstore]
      exact hd
  | @created now name base hnone hstore _ =>
      have hnew : name ∉ s.files.map FileRow.name := by
        have htracks := find_eq_none_iff.mp hnone
        simpa [tracks] using htracks
      rw [hstore, Distinct, withFile, List.map_append, List.nodup_append]
      refine ⟨hd, by simp, ?_⟩
      rintro other hother _ hmem rfl
      rw [List.mem_singleton.mp hmem] at hother
      exact hnew hother
  | @appended now name e expected f _ hstore _ =>
      have hnames : (touch now name s.files).map FileRow.name = s.files.map FileRow.name := by
        rw [touch, List.map_map]
        exact List.map_congr_left fun r _ => name_touched now name r
      rw [hstore, Distinct, withEntry, hnames]
      exact hd

theorem distinct_after {calls : List StoreCall} (h : ∀ c ∈ calls, c.Storable) :
    (after calls).Distinct := by
  have hboth : (after calls).Sound ∧ (after calls).Distinct :=
    List.foldlRecOn (motive := fun s : Store => s.Sound ∧ s.Distinct) calls StoreCall.perform
      ⟨sound_empty, List.nodup_nil⟩ fun _ hs c hc =>
        ⟨sound_perform hs.1 (h c hc), distinct_perform hs.1 hs.2 (h c hc)⟩
  exact hboth.2

/-- Where no two rows have the same name, a row is the one that its name leads to. -/
theorem row?_of_mem {s : Store} (hd : s.Distinct) {r : FileRow} (hr : r ∈ s.files) :
    s.row? r.name = some r := by
  rw [Distinct] at hd
  rw [row?]
  generalize s.files = files at hd hr
  induction files with
  | nil => cases hr
  | cons head rest ih =>
      rw [List.map_cons, List.nodup_cons] at hd
      obtain ⟨hhead, hrest⟩ := hd
      rw [List.find?_cons]
      rcases List.mem_cons.mp hr with rfl | hr
      · rw [beq_self_eq_true]
      · have hne : head.name ≠ r.name := by
          intro heq
          rw [heq] at hhead
          exact hhead (List.mem_map_of_mem hr)
        rw [beq_false_of_ne hne]
        exact ih hrest hr

/-- A line of the listing shows the file of its row. -/
theorem summarize_of_mem {s : Store} (hs : s.Sound) (hd : s.Distinct) {r : FileRow}
    (hr : r ∈ s.files) :
    ∃ f, s.find r.name = .ok (some f) ∧ s.summarize r = .ok f.summary := by
  have hrow := row?_of_mem hd hr
  have htracks : s.tracks r.name = true := by rw [tracks_eq, hrow, Option.isSome_some]
  obtain ⟨f, hfind⟩ := find_of_tracks hs htracks
  obtain ⟨row, hrow', hname, -, -, hcreated, hupdated⟩ := (find_eq_some_iff hs).mp hfind
  rw [hrow, Option.some.injEq] at hrow'
  subst hrow'
  refine ⟨f, hfind, ?_⟩
  rw [summarize, hcreated, hupdated, count_of_find hfind, ← hname]
  rfl

/-- **The listing of all files** has one line for each, in the order of the bytes of the names. -/
theorem list_eq {s : Store} (hs : s.Sound) (hd : s.Distinct) :
    ∃ lines, s.list = .ok lines ∧
      lines.Pairwise (fun a b => Utf8.encode a.name < Utf8.encode b.name) ∧
      ∀ line, line ∈ lines ↔ ∃ f, s.find line.name = .ok (some f) ∧ line = f.summary := by
  have hname : ∀ r line, s.summarize r = .ok line → line.name = r.name := by
    intro r line h
    obtain ⟨_, -, h⟩ := Outcome.bind_eq_ok_iff.mp h
    obtain ⟨_, -, h⟩ := Outcome.bind_eq_ok_iff.mp h
    cases h
    rfl
  obtain ⟨lines, hlines⟩ := Outcome.mapM_ok (f := s.summarize) fun r hr =>
    let ⟨f, _, hf⟩ := summarize_of_mem hs hd (List.mem_mergeSort.mp hr)
    ⟨f.summary, hf⟩
  refine ⟨lines, hlines, ?_, fun line => ?_⟩
  · have hnames := Outcome.map_of_mapM hlines hname
    have hsorted : (s.files.mergeSort fun a b => a.name.precedes b.name).Pairwise
        fun a b => a.name.precedes b.name := by
      refine List.pairwise_mergeSort ?_ ?_ s.files
      · exact fun a b c => Text.precedes_trans
      · exact fun a b => Text.precedes_total a.name b.name
    have hdistinct : ((s.files.mergeSort fun a b => a.name.precedes b.name).map
        FileRow.name).Nodup :=
      ((List.mergeSort_perm _ _).map FileRow.name).nodup_iff.mpr hd
    -- in order, and no two alike: so each precedes the next strictly
    have hbytes := (hsorted.and (List.pairwise_map.mp hdistinct)).imp fun h =>
      Text.encode_lt_of_precedes h.1 h.2
    rw [← List.pairwise_map (f := FileRow.name) (R := fun a b => Utf8.encode a < Utf8.encode b),
      ← hnames, List.pairwise_map] at hbytes
    exact hbytes
  · simp only [Outcome.mem_of_mapM hlines, List.mem_mergeSort]
    constructor
    · rintro ⟨r, hr, hsummary⟩
      obtain ⟨f, hfind, hf⟩ := summarize_of_mem hs hd hr
      rw [hf, Except.ok.injEq] at hsummary
      subst hsummary
      exact ⟨f, by rw [hname r _ hf, hfind], rfl⟩
    · rintro ⟨f, hfind, rfl⟩
      obtain ⟨row, hrow, -⟩ := row?_of_find hfind
      have hmem : row ∈ s.files := List.mem_of_find?_eq_some hrow
      obtain ⟨g, hg, hsummary⟩ := summarize_of_mem hs hd hmem
      rw [name_of_row? hrow, hfind] at hg
      cases hg
      exact ⟨row, hmem, hsummary⟩

/-! ## One record -/

/-- The store shows of a file what is on record about it. -/
structure Shows (s : Store) (name : Text) (record : Option TrackedFile) : Prop where
  find : s.find name = .ok record
  /-- The places of the entries count from zero. -/
  places : (s.rows name).map EntryRow.index = List.range (record.elim 0 (·.entries.length))
  history : s.history name = .ok (record.map TrackedFile.history)
  /-- A name is free when nothing is on record about it. -/
  create : ∀ now base, (s.create now name base).2
    = record.elim (.ok ⟨name, base, [], now, now⟩) fun _ => .error (.alreadyExists name)

theorem shows_of_find {s : Store} (hs : s.Sound) {name : Text} {found : Option TrackedFile}
    (h : s.find name = .ok found) : s.Shows name found where
  find := h
  places := by
    rw [hs.places, ← count_eq]
    cases found with
    | none => rw [count_eq, rows_eq_nil hs (find_eq_none_iff.mp h)]; rfl
    | some f => rw [count_of_find h]; rfl
  history := history_of_find hs h
  create := by
    intro now base
    cases found with
    | none => rw [create_of_untracked (find_eq_none_iff.mp h)]; rfl
    | some f => rw [create_of_tracked (tracks_of_find h)]; rfl

/-- **All views of the store show one record**, that of the calls that were made: each file alone,
its chain, and the listing of all files, which has the files on record in the order of the bytes of
their names. -/
theorem views_agree {calls : List StoreCall} (h : ∀ c ∈ calls, c.Storable) :
    (∀ name, (after calls).Shows name (recorded calls name)) ∧
      ∃ lines, (after calls).list = .ok lines ∧
        lines.Pairwise (fun a b => Utf8.encode a.name < Utf8.encode b.name) ∧
        ∀ line, line ∈ lines ↔ ∃ f, recorded calls line.name = some f ∧ line = f.summary := by
  have hs := sound_after h
  refine ⟨fun name => shows_of_find hs (find_after h name), ?_⟩
  obtain ⟨lines, hlines, hordered, hmem⟩ := list_eq hs (distinct_after h)
  refine ⟨lines, hlines, hordered, fun line => ?_⟩
  rw [hmem, find_after h]
  simp only [Except.ok.injEq]

/-- Calls on two files. An entry comes too late, a file is begun a second time, and an entry is for
a file that is not there: none of this is on record. -/
theorem views_agree_refused_calls :
    let e : Entry := ⟨.newYear, ['p'], some ⟨['u'], none⟩⟩
    let calls : List StoreCall :=
      [.create .newYear ['b'] ['x'], .create .newYear ['a'] [],
        .append .newYear ['b'] e (some 0), .append .newYear ['b'] e (some 0),
        .create .newYear ['b'] ['y'], .append .newYear ['c'] e none]
    (∀ c ∈ calls, c.Storable) ∧
      (after calls).Shows ['a'] (some ⟨['a'], [], [], .newYear, .newYear⟩) ∧
      (after calls).Shows ['b'] (some ⟨['b'], ['x'], [e], .newYear, .newYear⟩) ∧
      (after calls).Shows ['c'] none ∧
      ∃ lines, (after calls).list = .ok lines ∧
        ⟨['a'], 0, .newYear, .newYear⟩ ∈ lines ∧ ⟨['b'], 1, .newYear, .newYear⟩ ∈ lines := by
  intro e calls
  have ht := Instant.storable_newYear
  have hcalls : ∀ c ∈ calls, c.Storable := by
    simp [calls, StoreCall.Storable, e, ht]
  obtain ⟨hshows, lines, hlines, -, hmem⟩ := views_agree hcalls
  have ha : recorded calls ['a'] = some ⟨['a'], [], [], .newYear, .newYear⟩ := by decide +kernel
  have hb : recorded calls ['b'] = some ⟨['b'], ['x'], [e], .newYear, .newYear⟩ := by
    decide +kernel
  have hc : recorded calls ['c'] = none := by decide +kernel
  exact ⟨hcalls, ha ▸ hshows ['a'], hb ▸ hshows ['b'], hc ▸ hshows ['c'], lines, hlines,
    (hmem _).mpr ⟨_, ha, rfl⟩, (hmem _).mpr ⟨_, hb, rfl⟩⟩

end Store

end TextHistory
