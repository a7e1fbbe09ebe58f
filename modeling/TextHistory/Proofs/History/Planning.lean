import TextHistory.History
import TextHistory.Proofs.Store
import TextHistory.Proofs.Version

/-!
# Writes, planned and performed

A write is a new text for a file or a patch for it. Both are planned from the file as it was found
and then performed on the store (`Write.save_eq`). When the chain of the file leads somewhere, the
plan for it is known: nothing for a text that is there already, and else an entry that leads from
the latest text to the new one (`History.planText_found`, `History.planPatch_found`). Performed on
the store it was made from, a plan goes through (`History.perform_create`,
`History.perform_append`).
-/

set_option autoImplicit false

namespace TextHistory

/-! ## The clock -/

namespace Clock

/-- Both instants that a write is given read back from their texts. -/
structure Storable (t : Clock) : Prop where
  made : t.made.Storable
  stored : t.stored.Storable

/-- The first minute of a year: an entry that is made at its beginning is stored at its end. -/
def newYear : Clock := ⟨.newYear, { Instant.newYear with minute := 1 }⟩

theorem storable_newYear : newYear.Storable :=
  ⟨Instant.storable_newYear, by constructor <;> decide⟩

end Clock

/-! ## Writes -/

/-- A write to a history. -/
inductive Write where
  | text (q : Submission)
  | patch (q : PatchSubmission)
  deriving DecidableEq, Repr

namespace Write

def name : Write → Text
  | .text q => q.name
  | .patch q => q.name

def author : Write → Option Author
  | .text q => q.author
  | .patch q => q.author

/-- A write as the history does it. -/
def save (o : Tuning) (s : Store) (now : Clock) : Write → Store × Except Error Receipt
  | .text q => History.save o s now q
  | .patch q => History.savePatch o s now q

/-- The part of a write before its transaction: the file as it was found, and the plan. -/
def begin (o : Tuning) (s : Store) : Write → Except Error (Option TrackedFile × History.Plan)
  | .text q => do
    let found ← s.find q.name
    let plan ← History.planText o found q
    return (found, plan)
  | .patch q =>
    match Patch.parse q.patch with
    | .error cause => .error (.invalidPatch cause)
    | .ok p => do
      let found ← s.find q.name
      let plan ← History.planPatch o found p q
      return (found, plan)

/-- A write is its plan, performed. -/
theorem save_eq (o : Tuning) (s : Store) (now : Clock) (w : Write) :
    w.save o s now = match w.begin o s with
      | .error e => (s, .error e)
      | .ok (_, plan) => History.perform s now w.name w.author plan := by
  cases w with
  | text q =>
      simp only [save, History.save, begin, name, author, bind, Except.bind]
      cases s.find q.name with
      | error e => rfl
      | ok found =>
          dsimp only
          cases History.planText o found q with
          | error e => rfl
          | ok plan => rfl
  | patch q =>
      simp only [save, History.savePatch, begin, name, author, bind, Except.bind]
      cases Patch.parse q.patch with
      | error cause => rfl
      | ok p =>
          dsimp only
          cases s.find q.name with
          | error e => rfl
          | ok found =>
              dsimp only
              cases History.planPatch o found p q with
              | error e => rfl
              | ok plan => rfl

/-- The text that a write makes of the latest one. -/
def result (o : Tuning) (head : Text) : Write → Except PatchFault Text
  | .text q => .ok q.content
  | .patch q => do
    let p ← Patch.parse q.patch
    o.applyStrict p head

end Write

namespace History

/-! ## Plans for a file whose chain leads somewhere -/

section Plans

variable {o : Tuning} {f : TrackedFile} {us : List Text} (hl : Leads o f.base f.entries us)
include hl

theorem planText_refused (q : Submission) {e : Error}
    (hlen : checkLength q.name q.expected us.length = .error e) :
    planText o (some f) q = .error e := by
  simp only [planText, ← hl.length_eq, hlen]
  rfl

/-- The plan for a text, in terms of the patch that leads to it. -/
theorem planText_of_patch? (q : Submission) {p : Patch}
    (hlen : checkLength q.name q.expected us.length = .ok ())
    (hp : o.patch? (us.getLastD f.base) q.content = some p) :
    planText o (some f) q = .ok (if p = [] then .answer (.ofCount .noChange us.length)
      else .append p.print us.length) := by
  simp only [planText, ← hl.length_eq, hlen, TrackedFile.versionAt_latest hl, bind, Except.bind,
    hp]
  cases p with
  | nil => rfl
  | cons h p => rfl

/-- A text is compared with the latest one, and the entry for it leads from that to it. -/
theorem planText_found (hm : o.patchMargin < sizeLimit) (q : Submission)
    (hlen : checkLength q.name q.expected us.length = .ok ())
    (hhead : (us.getLastD f.base).length < sizeLimit) (hcontent : q.content.length < sizeLimit) :
    ∃ patch, planText o (some f) q = .ok (if q.content = us.getLastD f.base
        then .answer (.ofCount .noChange us.length) else .append patch us.length) ∧
      ∀ timestamp author,
        Entry.apply o (us.getLastD f.base) ⟨timestamp, patch, author⟩ = .ok q.content := by
  obtain ⟨p, hp, hfits, hsound, hempty⟩ := Tuning.patch?_spec hm hhead hcontent
  refine ⟨p.print, ?_, fun timestamp author => ?_⟩
  · simp only [planText_of_patch? hl q hlen hp, hempty, eq_comm]
  · rw [Entry.apply_print o hsound, Tuning.applyStrict_of_fits o hfits hsound]

theorem planPatch_refused (p : Patch) (q : PatchSubmission) {e : Error}
    (hlen : checkLength q.name q.expected us.length = .error e) :
    planPatch o (some f) p q = .error e := by
  simp only [planPatch, ← hl.length_eq, hlen]
  rfl

/-- A patch must apply to the latest text, and the entry for it holds its own text form. -/
theorem planPatch_found (p : Patch) (q : PatchSubmission)
    (hlen : checkLength q.name q.expected us.length = .ok ()) :
    planPatch o (some f) p q = match o.applyStrict p (us.getLastD f.base) with
      | .error cause => .error (.invalidPatch cause)
      | .ok t =>
        if q.content.any (· != t) then .error (.contentMismatch q.name)
        else
          .ok (if t = us.getLastD f.base then .answer (.ofCount .noChange us.length)
            else .append p.print us.length) := by
  simp only [planPatch, ← hl.length_eq, hlen, TrackedFile.versionAt_latest hl, bind, Except.bind]
  cases o.applyStrict p (us.getLastD f.base) with
  | error cause => rfl
  | ok t =>
      dsimp only
      split
      · rfl
      · split <;> rfl

end Plans

/-! ## Performing a plan -/

theorem perform_create {s : Store} (now : Clock) {name : Text} (author : Option Author)
    (base : Text) (h : s.find name = .ok none) :
    perform s now name author (.create base)
      = (s.withFile now.stored name base, .ok (.ofCount .baseCreated 0)) := by
  rw [perform, Store.create_of_untracked (Store.find_eq_none_iff.mp h)]
  rfl

theorem perform_append {s : Store} (hs : s.Sound) {now : Clock} (hnow : now.Storable)
    {name : Text} (author : Option Author) (patch : Text) {f : TrackedFile}
    (h : s.find name = .ok (some f)) :
    perform s now name author (.append patch f.entries.length)
      = (s.withEntry now.stored name ⟨now.made, patch, author⟩,
          .ok (.ofCount .patchAppended (f.entries.length + 1))) := by
  have hfind := Store.find_insert hs hnow.stored (e := ⟨now.made, patch, author⟩) hnow.made h name
  rw [if_pos rfl] at hfind
  rw [perform, Store.append, Store.insert_of_found now.stored _ h, if_pos rfl]
  simp only [Store.reread, hfind, bind, Except.bind, Except.map, List.length_append,
    List.length_singleton]

end History

end TextHistory
