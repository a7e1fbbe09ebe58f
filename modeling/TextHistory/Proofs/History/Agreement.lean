import TextHistory.Proofs.History.Effects
import TextHistory.Proofs.History.Snapshots

/-!
# Two ways to commit a text

A text can be saved as it is, or as the patch that leads to it from the latest text of its file. The
history takes the first for a change when the patch between the two texts has hunks, and keeps this
patch; it takes the second for one when the text that the patch makes is another one, and keeps the
text form of what it has read. Both plan the same (`History.planPatch_of_patch?`), so it makes no
difference which way a text is sent (`Store.save_alike_savePatch`): the answers are equal, and so
are the stores but for the instants at which the calls are made (`Store.timeless`).

The patch that is sent is taken to be the one that the history makes: both come from one search,
which is a function of the two texts and the time it is given. A search that is cut short by a clock
can find another patch the next time, and then another patch is stored.
-/

set_option autoImplicit false

namespace TextHistory

/-! ## Stores but for their instants -/

def FileRow.timeless (r : FileRow) : FileRow := { r with createdAt := [], updatedAt := [] }

def EntryRow.timeless (r : EntryRow) : EntryRow := { r with timestamp := [] }

/-- The tables without the texts of instants. -/
def Store.timeless (s : Store) : Store :=
  ⟨s.files.map FileRow.timeless, s.entries.map EntryRow.timeless⟩

namespace Store

theorem timeless_withFile (s : Store) (now now' : Instant) (name base : Text) :
    (s.withFile now name base).timeless = (s.withFile now' name base).timeless := by
  simp only [timeless, withFile, List.map_append]
  rfl

theorem timeless_touch (now : Instant) (name : Text) (files : List FileRow) :
    (touch now name files).map FileRow.timeless = files.map FileRow.timeless := by
  rw [touch, List.map_map]
  refine List.map_congr_left fun r _ => ?_
  rw [Function.comp_apply]
  split <;> rfl

theorem timeless_withEntry (s : Store) (now now' : Clock) (name patch : Text)
    (author : Option Author) :
    (s.withEntry now.stored name ⟨now.made, patch, author⟩).timeless
      = (s.withEntry now'.stored name ⟨now'.made, patch, author⟩).timeless := by
  simp only [timeless, withEntry, timeless_touch, List.map_append]
  rfl

end Store

/-! ## Performing the same plan -/

/-- Two writes are answered alike and leave the same tables but for the instants in them. -/
def History.Alike (x y : Store × Except Error Receipt) : Prop :=
  x.2 = y.2 ∧ x.1.timeless = y.1.timeless

namespace Write

variable {o : Tuning} {s : Store}

/-- A plan goes through, and when it does so shows in the instants only. -/
theorem save_of_begin (hs : s.Sound) {w : Write} {found : Option TrackedFile}
    {plan : History.Plan} (h : w.begin o s = .ok (found, plan)) :
    ∃ receipt tables, ∀ now : Clock, now.Storable →
      (w.save o s now).2 = .ok receipt ∧ (w.save o s now).1.timeless = tables := by
  obtain ⟨hfind, hplan⟩ := plans_of_begin h
  simp only [save_eq, h]
  cases hplan with
  | @answer f hlen =>
      exact ⟨.ofCount .noChange f.entries.length, s.timeless, fun now _ => ⟨rfl, rfl⟩⟩
  | @create base hbase hlen =>
      refine ⟨.ofCount .baseCreated 0, (s.withFile .newYear w.name base).timeless, fun now _ => ?_⟩
      rw [History.perform_create now _ base hfind]
      exact ⟨rfl, Store.timeless_withFile s _ _ w.name base⟩
  | @append f head p hlen hhead hp =>
      refine ⟨.ofCount .patchAppended (f.entries.length + 1),
        (s.withEntry .newYear w.name ⟨.newYear, p.print, w.author⟩).timeless, fun now hnow => ?_⟩
      rw [History.perform_append hs hnow _ p.print hfind]
      exact ⟨rfl, Store.timeless_withEntry s now Instant.newYear w.name p.print w.author⟩

/-- Writes that begin alike end alike, whenever each is made. -/
theorem alike_of_begin (hs : s.Sound) {now now' : Clock} (hnow : now.Storable)
    (hnow' : now'.Storable) (w w' : Write) (hbegin : w.begin o s = w'.begin o s)
    (hname : w.name = w'.name) (hauthor : w.author = w'.author) :
    History.Alike (w.save o s now) (w'.save o s now') := by
  have hsame : w'.save o s now' = w.save o s now' := by
    rw [save_eq, save_eq, hbegin, hname, hauthor]
  rw [hsame]
  cases h : w.begin o s with
  | error e =>
      rw [save_eq, save_eq, h]
      exact ⟨rfl, rfl⟩
  | ok begun =>
      obtain ⟨receipt, tables, hsave⟩ := save_of_begin hs h
      obtain ⟨hanswer, htables⟩ := hsave now hnow
      obtain ⟨hanswer', htables'⟩ := hsave now' hnow'
      exact ⟨hanswer.trans hanswer'.symm, htables.trans htables'.symm⟩

end Write

/-! ## Plans -/

/-- A text sent as a patch, with or without the text itself. -/
def Submission.asPatch (q : Submission) (patch : Text) (content : Option Text) :
    PatchSubmission :=
  { name := q.name, patch := patch, content := content, author := q.author,
    expected := q.expected }

namespace History

/-- **A text and the patch that leads to it are planned alike.** -/
theorem planPatch_of_patch? {o : Tuning} {f : TrackedFile} {us : List Text}
    (hl : Leads o f.base f.entries us) {q : Submission} {p : Patch}
    (hp : o.patch? (us.getLastD f.base) q.content = some p)
    (happly : o.applyStrict p (us.getLastD f.base) = .ok q.content)
    (hempty : p = [] ↔ us.getLastD f.base = q.content) {content : Option Text}
    (hcontent : content = none ∨ content = some q.content) :
    planPatch o (some f) p (q.asPatch p.print content) = planText o (some f) q := by
  cases hlen : checkLength q.name q.expected us.length with
  | error e => rw [planText_refused hl q hlen, planPatch_refused hl p _ hlen]
  | ok _ =>
      have hmatch : (q.asPatch p.print content).content.any (· != q.content) = false := by
        show content.any _ = false
        rcases hcontent with rfl | rfl
        · rfl
        · exact bne_self_eq_false _
      -- one side asks whether the patch is empty, the other whether the text is the same
      rw [planText_of_patch? hl q hlen hp, planPatch_found hl p _ hlen, happly]
      simp only [hmatch, hempty, eq_comm]
      rfl

/-- The length that a caller expects is held against the actual one, and that is all. -/
theorem checkLength_cases (name : Text) (expected : Option Nat) (actual : Nat) :
    checkLength name expected actual = .ok () ∨
      ∃ n, expected = some n ∧
        checkLength name expected actual = .error (.conflict name n actual) := by
  cases expected with
  | none => exact .inl rfl
  | some n =>
      by_cases h : n = actual
      · exact .inl (if_pos h)
      · exact .inr ⟨n, rfl, if_neg h⟩

/-- A text for a file whose chain leads somewhere is refused for an expectation only. -/
theorem save_cases {o : Tuning} {s : Store} (hs : s.Sound) {now : Clock} (hnow : now.Storable)
    {q : Submission} {f : TrackedFile} (hfind : s.find q.name = .ok (some f)) {us : List Text}
    (hl : Leads o f.base f.entries us) {p : Patch}
    (hp : o.patch? (us.getLastD f.base) q.content = some p) :
    (∃ receipt, (save o s now q).2 = .ok receipt) ∨
      ∃ n, q.expected = some n ∧ (save o s now q).2 = .error (.conflict q.name n us.length) := by
  have hbegin : (Write.text q).begin o s
      = (do let plan ← planText o (some f) q; return (some f, plan)) := by
    rw [Write.begin, hfind]
    rfl
  rcases checkLength_cases q.name q.expected us.length with hlen | ⟨n, hn, hlen⟩
  · rw [planText_of_patch? hl q hlen hp] at hbegin
    obtain ⟨receipt, _, hsave⟩ := Write.save_of_begin hs hbegin
    exact .inl ⟨receipt, (hsave now hnow).1⟩
  · rw [planText_refused hl q hlen] at hbegin
    have hsave := Write.save_eq o s now (.text q)
    rw [hbegin] at hsave
    exact .inr ⟨n, hn, congrArg Prod.snd hsave⟩

end History

/-! ## Both ways from the same store -/

/-- **It makes no difference which way a text is sent.** For a file that is tracked, a text and the
patch that leads to it from the latest text are answered alike, with the text sent along or not, and
leave the same tables but for the instants: the only error is that the chain does not have the
length that is expected. A file that is not tracked is begun with the text, whatever patch is sent
with it.

Both sides are about one patch `p`: the history makes it for the text, and the caller sends it. -/
theorem Store.save_alike_savePatch (o : Tuning) (hm : o.patchMargin < sizeLimit)
    (calls : List (Clock × Write)) (hclock : ∀ c ∈ calls, c.1.Storable)
    (hshort : (Snapshots.empty.run o (calls.map Prod.snd)).1.Short) (q : Submission)
    (hcontent : q.content.length < sizeLimit) (now now' : Clock) (hnow : now.Storable)
    (hnow' : now'.Storable) :
    let s := (({} : Store).run o calls).1
    (s.tracks q.name = true → ∃ head n p, History.latest o s q.name = .ok ⟨q.name, head, n⟩ ∧
        o.patch? head q.content = some p ∧
        ((∃ receipt, (History.save o s now q).2 = .ok receipt) ∨
          ∃ k, q.expected = some k ∧ (History.save o s now q).2 = .error (.conflict q.name k n)) ∧
        ∀ content, content = none ∨ content = some q.content →
          History.Alike (History.save o s now q)
            (History.savePatch o s now' (q.asPatch p.print content))) ∧
      (s.tracks q.name = false → ∀ patch p, Patch.parse patch = .ok p →
        History.Alike (History.save o s now q)
          (History.savePatch o s now' (q.asPatch patch (some q.content)))) := by
  intro s
  have hr : Snapshots.Refines o s _ := ((Snapshots.refines_empty o).run hm calls hclock hshort).1
  constructor
  · intro htracks
    obtain ⟨f, hfind⟩ := find_of_tracks hr.sound htracks
    obtain ⟨r, hname, hbase, hl⟩ := hr.of_found hfind
    have hhead : (r.later.getLastD f.base).length < sizeLimit := by
      rw [hbase]
      exact hshort.head hname
    obtain ⟨p, hp, hfits, hw, hempty⟩ := Tuning.patch?_spec hm hhead hcontent
    have happly := Tuning.applyStrict_of_fits o hfits hw
    refine ⟨r.later.getLastD f.base, r.later.length, p, ?_, hp,
      History.save_cases hr.sound hnow hfind hl hp, fun content hcase => ?_⟩
    · rw [hr.latest, Snapshots.latest, hname, hbase]
      rfl
    · refine Write.alike_of_begin hr.sound hnow hnow' (.text q)
        (.patch (q.asPatch p.print content)) ?_ rfl rfl
      have hplan := History.planPatch_of_patch? hl hp happly hempty hcase
      simp only [Write.begin, Submission.asPatch] at hplan ⊢
      simp only [Patch.parse_print hw, hfind, bind, Except.bind, hplan]
  · intro htracks patch p hp
    refine Write.alike_of_begin hr.sound hnow hnow' (.text q)
      (.patch (q.asPatch patch (some q.content))) ?_ rfl rfl
    simp only [Write.begin, Submission.asPatch, hp, find_eq_none_iff.mpr htracks]
    rfl

/-- A further text for one file and a first one for another, which is sent with an empty patch. -/
theorem Store.save_alike_savePatch_two_files :
    let o : Tuning := {}
    let calls : List (Clock × Write) := [(.newYear, .text { name := ['a'], content := ['x'] })]
    let s := (({} : Store).run o calls).1
    let q : Submission := { name := ['a'], content := ['y'], expected := some 0 }
    let q' : Submission := { name := ['b'], content := ['y'] }
    o.patchMargin < sizeLimit ∧ (∀ c ∈ calls, c.1.Storable) ∧
      (Snapshots.empty.run o (calls.map Prod.snd)).1.Short ∧ q.content.length < sizeLimit ∧
      Clock.newYear.Storable ∧ s.tracks q.name = true ∧ s.tracks q'.name = false ∧
      (∃ p, o.patch? ['x'] ['y'] = some p ∧
        History.Alike (History.save o s .newYear q)
          (History.savePatch o s .newYear (q.asPatch p.print none))) ∧
      History.Alike (History.save o s .newYear q')
        (History.savePatch o s .newYear (q'.asPatch [] (some ['y']))) := by
  intro o calls s q q'
  have hnow := Clock.storable_newYear
  have hclock : ∀ c ∈ calls, c.1.Storable := by
    simpa [calls] using hnow
  have hshort : (Snapshots.empty.run o (calls.map Prod.snd)).1.Short :=
    Snapshots.short_empty.set ['a'] (by decide)
  have hr : Snapshots.Refines o s _ :=
    ((Snapshots.refines_empty o).run (by decide) calls hclock hshort).1
  have htracks : s.tracks q.name = true := hr.tracks ['a']
  have hfree : s.tracks q'.name = false := hr.tracks ['b']
  obtain ⟨htracked, -⟩ :=
    save_alike_savePatch o (by decide) calls hclock hshort q (by decide) .newYear .newYear hnow hnow
  obtain ⟨-, huntracked⟩ :=
    save_alike_savePatch o (by decide) calls hclock hshort q' (by decide) .newYear .newYear hnow
      hnow
  obtain ⟨head, n, p, hlatest, hp, -, halike⟩ := htracked htracks
  have hhead : head = ['x'] :=
    congrArg Latest.content (Except.ok.inj (hlatest.symm.trans (hr.latest ['a'])))
  rw [hhead] at hp
  exact ⟨by decide, hclock, hshort, by decide, hnow, htracks, hfree,
    ⟨p, hp, halike none (.inl rfl)⟩, huntracked hfree [] [] (Patch.parse_print (p := []) (by simp))⟩

end TextHistory
