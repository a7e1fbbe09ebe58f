import TextHistory.Proofs.History.Planning
import TextHistory.Proofs.Store

/-!
# What a write does

A write is planned in one of three ways, and how is decided by the file alone (`Write.Plans`): a
file that is not there is begun, and a file that is there is left as it is or gets one more entry,
which holds a patch from its latest text. So a write does one of four things to the store, and its
answer tells which (`Write.Outcome`): it is refused, it finds nothing to do, it adds one row for a
new file, or it adds one row to the chain of its file. This holds of every store, also of one whose
chains cannot be replayed.

In a store that calls have made, what was added is all that changes (`Store.write_changes`).
-/

set_option autoImplicit false

namespace TextHistory

namespace Write

/-- The text that a new file would begin with. -/
def base? : Write → Option Text
  | .text q => some q.content
  | .patch q => q.content

/-- The length of the chain that the write was made from. -/
def expected : Write → Option Nat
  | .text q => q.expected
  | .patch q => q.expected

/-- The patch that the write commits to a file with the given latest text. -/
def Commits (o : Tuning) (head : Text) (p : Patch) : Write → Prop
  | .text q => o.patch? head q.content = some p
  | .patch q => Patch.parse q.patch = .ok p ∧ ∃ t, o.applyStrict p head = .ok t

/-! ## Plans -/

/-- How a write can be planned for what was found under its name. -/
inductive Plans (o : Tuning) (w : Write) : Option TrackedFile → History.Plan → Prop where
  | create {base : Text} : w.base? = some base →
      History.checkLength w.name w.expected 0 = .ok () → Plans o w none (.create base)
  | answer {f : TrackedFile} :
      History.checkLength w.name w.expected f.entries.length = .ok () →
      Plans o w (some f) (.answer (.ofCount .noChange f.entries.length))
  | append {f : TrackedFile} {head : VersionText} {p : Patch} :
      History.checkLength w.name w.expected f.entries.length = .ok () →
      f.versionAt o .latest = .ok head → w.Commits o head.content p →
      Plans o w (some f) (.append p.print f.entries.length)

variable {o : Tuning} {found : Option TrackedFile} {plan : History.Plan}

theorem plans_planText {q : Submission} (h : History.planText o found q = .ok plan) :
    (Write.text q).Plans o found plan := by
  cases found with
  | none =>
      obtain ⟨_, hlen, h⟩ := Outcome.bind_eq_ok_iff.mp h
      cases h
      exact .create rfl hlen
  | some f =>
      obtain ⟨_, hlen, h⟩ := Outcome.bind_eq_ok_iff.mp h
      obtain ⟨head, hhead, h⟩ := Outcome.bind_eq_ok_iff.mp h
      split at h
      · cases h
      · cases h
        exact .answer hlen
      · next p _ hp =>
        cases h
        exact .append hlen hhead hp

theorem plans_planPatch {p : Patch} {q : PatchSubmission} (hp : Patch.parse q.patch = .ok p)
    (h : History.planPatch o found p q = .ok plan) : (Write.patch q).Plans o found plan := by
  cases found with
  | none =>
      unfold History.planPatch at h
      dsimp only at h
      split at h
      · cases h
      · next base hbase =>
        obtain ⟨_, hlen, h⟩ := Outcome.bind_eq_ok_iff.mp h
        cases h
        exact .create hbase hlen
  | some f =>
      obtain ⟨_, hlen, h⟩ := Outcome.bind_eq_ok_iff.mp h
      obtain ⟨head, hhead, h⟩ := Outcome.bind_eq_ok_iff.mp h
      split at h
      · cases h
      · next t ht =>
        split at h
        · cases h
        · split at h
          · cases h
            exact .answer hlen
          · cases h
            exact .append hlen hhead ⟨hp, t, ht⟩

theorem plans_of_begin {s : Store} {w : Write} (h : w.begin o s = .ok (found, plan)) :
    s.find w.name = .ok found ∧ w.Plans o found plan := by
  cases w with
  | text q =>
      obtain ⟨found', hfind, h⟩ := Outcome.bind_eq_ok_iff.mp h
      obtain ⟨plan', hplan, h⟩ := Outcome.bind_eq_ok_iff.mp h
      cases h
      exact ⟨hfind, plans_planText hplan⟩
  | patch q =>
      simp only [begin] at h
      split at h
      · cases h
      · next p hp =>
        obtain ⟨found', hfind, h⟩ := Outcome.bind_eq_ok_iff.mp h
        obtain ⟨plan', hplan, h⟩ := Outcome.bind_eq_ok_iff.mp h
        cases h
        exact ⟨hfind, plans_planPatch hp hplan⟩

end Write

/-! ## Outcomes -/

/-- What a write can leave behind, and what it then answers. -/
inductive Write.Outcome (o : Tuning) (w : Write) (s : Store) (now : Clock) :
    Store → Except Error Receipt → Prop where
  | refused (e : Error) : Outcome o w s now s (.error e)
  | unchanged {f : TrackedFile} : s.find w.name = .ok (some f) →
      History.checkLength w.name w.expected f.entries.length = .ok () →
      Outcome o w s now s (.ok (.ofCount .noChange f.entries.length))
  | created {base : Text} : s.find w.name = .ok none → w.base? = some base →
      History.checkLength w.name w.expected 0 = .ok () →
      Outcome o w s now (s.withFile now.stored w.name base) (.ok (.ofCount .baseCreated 0))
  /-- The answer tells the length of the chain as it is read afterwards. -/
  | appended {f : TrackedFile} {head : VersionText} {p : Patch} :
      s.find w.name = .ok (some f) →
      History.checkLength w.name w.expected f.entries.length = .ok () →
      f.versionAt o .latest = .ok head → w.Commits o head.content p →
      Outcome o w s now (s.withEntry now.stored w.name ⟨now.made, p.print, w.author⟩)
        (((s.withEntry now.stored w.name ⟨now.made, p.print, w.author⟩).reread w.name).map fun f =>
          .ofCount .patchAppended f.entries.length)

/-- **A write does one of four things**, to every store. -/
theorem Write.outcome_save (o : Tuning) (w : Write) (s : Store) (now : Clock) :
    w.Outcome o s now (w.save o s now).1 (w.save o s now).2 := by
  rw [Write.save_eq]
  cases hbegin : w.begin o s with
  | error e => exact .refused e
  | ok begun =>
      obtain ⟨found, plan⟩ := begun
      obtain ⟨hfind, hplan⟩ := Write.plans_of_begin hbegin
      cases hplan with
      | create hbase hlen =>
          simp only [History.perform_create now w.author _ hfind]
          exact .created hfind hbase hlen
      | answer hlen => exact .unchanged hfind hlen
      | append hlen hhead hp =>
          simp only [History.perform, Store.append, Store.insert_of_found now.stored _ hfind,
            if_true]
          exact .appended hfind hlen hhead hp

/-! ## Patches that a write commits -/

/-- The texts that a patch is made from are ones that can be; a patch that is handed in has been
made already. -/
def Write.Sized (head : Text) : Write → Prop
  | .text q => head.length < sizeLimit ∧ q.content.length < sizeLimit
  | .patch _ => True

theorem Write.Commits.wellFormed {o : Tuning} (hm : o.patchMargin < sizeLimit) {w : Write}
    {head : Text} {p : Patch} (hc : w.Commits o head p) (hs : w.Sized head) :
    ∀ h ∈ p, h.WellFormed := by
  cases w with
  | text q =>
      obtain ⟨p', hp', -, hw, -⟩ := Tuning.patch?_spec hm hs.1 hs.2
      obtain rfl : p = p' := Option.some.inj (hc.symm.trans hp')
      exact hw
  | patch q => exact Patch.wellFormed_of_parse hc.1

/-! ## What is changed -/

/-- A write whose answer is known has changed the store from `s` to `s'` in one place at most. -/
def Store.Changed (o : Tuning) (w : Write) (now : Clock) (s s' : Store) :
    Except Error Receipt → Prop
  | .error _ => s' = s
  | .ok receipt =>
    match receipt.effect with
    | .noChange => s' = s
    | .baseCreated =>
      s.tracks w.name = false ∧
        ∃ base, w.base? = some base ∧
          s' = { s with files := s.files ++ [⟨w.name, base, now.stored.print, now.stored.print⟩] } ∧
          s'.find w.name = .ok (some ⟨w.name, base, [], now.stored, now.stored⟩)
    | .patchAppended =>
      ∃ f head delta,
        s.find w.name = .ok (some f) ∧ f.versionAt o .latest = .ok head ∧
          s'.entries = s.entries ++ [.ofEntry w.name f.entries.length ⟨now.made, delta, w.author⟩] ∧
          s'.files = touch now.stored w.name s.files ∧
          s'.find w.name = .ok (some { f with
            entries := f.entries ++ [⟨now.made, delta, w.author⟩], updatedAt := now.stored }) ∧
          (w.Sized head.content → ∃ p, Patch.parse delta = .ok p ∧ p.print = delta)

/-- **A write changes the store in one place at most**, or not at all: what calls have put there,
chains that cannot be replayed included, stays where it is. A refused write and one that finds
nothing to do leave the store as it was, a file that is begun gets its row, and a chain that grows
gets one row at its end with a patch that reads back to its own text. All rows of all other files
are the same. -/
theorem Store.write_changes (o : Tuning) (hm : o.patchMargin < sizeLimit)
    (calls : List StoreCall) (hcalls : ∀ c ∈ calls, c.Storable) (now : Clock)
    (hnow : now.Storable) (w : Write) :
    let s := Store.after calls
    Store.Changed o w now s (w.save o s now).1 (w.save o s now).2 ∧
      ∀ other, other ≠ w.name →
        (w.save o s now).1.row? other = s.row? other ∧
          (w.save o s now).1.rows other = s.rows other ∧
          (w.save o s now).1.find other = s.find other := by
  intro s
  have hs : s.Sound := sound_after hcalls
  have h := w.outcome_save o s now
  generalize (w.save o s now).1 = s' at h ⊢
  generalize (w.save o s now).2 = answer at h ⊢
  cases h with
  | refused e => exact ⟨rfl, fun _ _ => ⟨rfl, rfl, rfl⟩⟩
  | unchanged hfind hlen => exact ⟨rfl, fun _ _ => ⟨rfl, rfl, rfl⟩⟩
  | @created base hfind hbase hlen =>
      have hfind' := find_create hs hnow.stored base hfind
      refine ⟨⟨find_eq_none_iff.mp hfind, base, hbase, rfl, ?_⟩, fun other hother => ?_⟩
      · rw [hfind', if_pos rfl]
      · have hne : (w.name == other) = false := beq_false_of_ne (Ne.symm hother)
        refine ⟨?_, rfl, ?_⟩
        · simp [row?, withFile, List.find?_append, hne]
        · rw [hfind', if_neg hother]
  | @appended f head p hfind hlen hhead hp =>
      have hfind' := find_insert hs hnow.stored (e := ⟨now.made, p.print, w.author⟩) hnow.made hfind
      have hself := hfind' w.name
      rw [if_pos rfl] at hself
      have hreread : (s.withEntry now.stored w.name ⟨now.made, p.print, w.author⟩).reread w.name
          = .ok { f with
              entries := f.entries ++ [⟨now.made, p.print, w.author⟩]
              updatedAt := now.stored } := by
        simp only [reread, hself, bind, Except.bind]
      rw [hreread]
      constructor
      · refine ⟨f, head, p.print, hfind, hhead, ?_, rfl, hself, fun hsized => ⟨p, ?_, rfl⟩⟩
        · rw [withEntry, count_of_find hfind]
        · exact Patch.parse_print (hp.wellFormed hm hsized)
      · intro other hother
        refine ⟨?_, ?_, ?_⟩
        · simp [row?_withEntry, hother]
        · simp [rows_withEntry, hother]
        · rw [hfind', if_neg hother]

/-- A file with an entry that is no patch, next to another file: a new text for the first one is
refused, and nothing is lost. -/
theorem Store.write_changes_corrupt :
    let calls : List StoreCall :=
      [.create .newYear ['a'] ['x'], .append .newYear ['a'] ⟨.newYear, ['?'], none⟩ none,
        .create .newYear ['b'] []]
    let w : Write := .text { name := ['a'], content := ['y'] }
    let s := Store.after calls
    (∀ c ∈ calls, c.Storable) ∧
      (w.save {} s .newYear).2
        = .error (.patchApplication ['a'] 0 (.malformed 1 .noHeading)) ∧
      (w.save {} s .newYear).1 = s ∧
      (w.save {} s .newYear).1.find ['b'] = s.find ['b'] := by
  intro calls w s
  have hcalls : ∀ c ∈ calls, c.Storable := by
    simp [calls, StoreCall.Storable, Instant.storable_newYear]
  let f : TrackedFile := ⟨['a'], ['x'], [⟨.newYear, ['?'], none⟩], .newYear, .newYear⟩
  have hfind : s.find ['a'] = .ok (some f) := by
    have hchain : s.chain ['a'] = [.ofEntry ['a'] 0 ⟨.newYear, ['?'], none⟩] := by decide +kernel
    rw [Store.find, hchain]
    simp only [List.mapM_cons, List.mapM_nil,
      EntryRow.entry_ofEntry ['a'] 0 (e := ⟨.newYear, ['?'], none⟩) Instant.storable_newYear]
    rfl
  have hparse : Patch.parse ['?'] = .error (.malformed 1 .noHeading) := by
    simp [Patch.parse, Text.rows, Text.extendFirst, Patch.readRows]
    rfl
  have hhead : f.versionAt {} .latest
      = .error (.patchApplication ['a'] 0 (.malformed 1 .noHeading)) := by
    simp only [f, TrackedFile.versionAt, List.length_singleton,
      VersionName.entriesUpTo_resolve_latest, List.take_succ_cons, replay, Entry.apply, hparse]
    rfl
  have hanswer : (w.save {} s .newYear).2
      = .error (.patchApplication ['a'] 0 (.malformed 1 .noHeading)) := by
    simp only [Write.save, History.save, w, hfind, History.planText, hhead, bind, Except.bind]
    rfl
  obtain ⟨hchanged, hothers⟩ :=
    Store.write_changes {} (by decide) calls hcalls .newYear Clock.storable_newYear w
  rw [hanswer] at hchanged
  exact ⟨hcalls, hanswer, hchanged, (hothers ['b'] (by decide)).2.2⟩

end TextHistory
