import TextHistory.Proofs.Tuning
import TextHistory.Version.Replay

/-!
# Chains and their texts

A chain of entries *leads* from its base through some texts when every entry makes its text of the
one before it (`Leads`). Such a chain can be replayed, and so can each of its beginnings; what a
name of a version means is then one of the texts (`TrackedFile.versionAt_eq`). An entry that holds
the text of a patch does what the patch does (`Entry.apply_print`).
-/

set_option autoImplicit false

namespace TextHistory

/-! ## Single entries -/

/-- An entry with the text of a patch applies the patch. -/
theorem Entry.apply_print (o : Tuning) {p : Patch} (hw : ∀ h ∈ p, h.WellFormed) (content : Text)
    (timestamp : Instant) (author : Option Author) :
    Entry.apply o content ⟨timestamp, p.print, author⟩ = o.applyStrict p content := by
  rw [Entry.apply, Patch.parse_print hw]
  rfl

/-! ## Chains -/

/-- Entry by entry, a chain leads from a text to each of the given ones. -/
inductive Leads (o : Tuning) : Text → List Entry → List Text → Prop where
  | nil (t : Text) : Leads o t [] []
  | cons {e : Entry} {t u : Text} {es : List Entry} {us : List Text} :
      e.apply o t = .ok u → Leads o u es us → Leads o t (e :: es) (u :: us)

namespace Leads

variable {o : Tuning} {t u : Text} {es : List Entry} {us : List Text} {e : Entry}

theorem length_eq (h : Leads o t es us) : us.length = es.length := by
  induction h with
  | nil => rfl
  | cons _ _ ih => rw [List.length_cons, List.length_cons, ih]

/-- A chain that leads somewhere is replayed up to its last text. -/
theorem replay (h : Leads o t es us) (index : Nat) :
    replay o index t es = .ok (us.getLastD t) := by
  induction h generalizing index with
  | nil => rfl
  | cons he _ ih =>
      simp only [TextHistory.replay, he, ih]
      rw [List.getLastD_cons]

theorem take (h : Leads o t es us) (n : Nat) : Leads o t (es.take n) (us.take n) := by
  induction h generalizing n with
  | nil =>
      rw [List.take_nil, List.take_nil]
      exact .nil _
  | cons he _ ih =>
      cases n with
      | zero => exact .nil _
      | succ n => exact .cons he (ih n)

/-- One more entry, from the last text on. -/
theorem snoc (h : Leads o t es us) (he : e.apply o (us.getLastD t) = .ok u) :
    Leads o t (es ++ [e]) (us ++ [u]) := by
  induction h with
  | nil => exact .cons he (.nil u)
  | cons hf _ ih =>
      rw [List.getLastD_cons] at he
      exact .cons hf (ih he)

/-- When the replay goes on from the last text, the next entry does. -/
theorem apply_of_replay (h : Leads o t es us) {index : Nat}
    (hr : TextHistory.replay o index t (es ++ [e]) = .ok u) :
    e.apply o (us.getLastD t) = .ok u := by
  induction h generalizing index with
  | nil t =>
      show e.apply o t = .ok u
      simp only [List.nil_append, TextHistory.replay] at hr
      cases he : e.apply o t with
      | error cause =>
          rw [he] at hr
          cases hr
      | ok v =>
          rw [he] at hr
          cases hr
          rfl
  | cons he _ ih =>
      simp only [List.cons_append, TextHistory.replay, he] at hr
      rw [List.getLastD_cons]
      exact ih hr

/-- A chain leads through one more text exactly when its last entry leads there. -/
theorem concat_iff (hlen : us.length = es.length) :
    Leads o t (es ++ [e]) (us ++ [u]) ↔
      Leads o t es us ∧ e.apply o (us.getLastD t) = .ok u := by
  constructor
  · intro h
    have hl : Leads o t es us := by
      have htake := h.take es.length
      rwa [List.take_left, ← hlen, List.take_left] at htake
    have hr := h.replay 0
    rw [List.getLastD_concat] at hr
    exact ⟨hl, hl.apply_of_replay hr⟩
  · exact fun ⟨hl, he⟩ => hl.snoc he

/-- The texts of a chain are determined by its entries. -/
theorem unique {us' : List Text} (h : Leads o t es us) (h' : Leads o t es us') : us = us' := by
  induction h generalizing us' with
  | nil =>
      cases h'
      rfl
  | cons he _ ih =>
      cases h' with
      | cons he' h' =>
          rw [he] at he'
          cases he'
          rw [ih h']

end Leads

/-! ## Versions -/

theorem getLastD_take_succ {us : List Text} {n : Nat} (h : n < us.length) (t : Text) :
    (us.take (n + 1)).getLastD t = us[n] := by
  rw [List.take_succ_eq_append_getElem h, List.getLastD_concat]

@[simp] theorem VersionName.entriesUpTo_resolve_latest (n : Nat) :
    entriesUpTo (VersionName.latest.resolve n) = n := by
  cases n <;> rfl

/-- **A version of a file** whose chain leads somewhere is the text at its place. -/
theorem TrackedFile.versionAt_eq {o : Tuning} {f : TrackedFile} {us : List Text}
    (h : Leads o f.base f.entries us) (which : VersionName) :
    f.versionAt o which
      = .ok ⟨(us.take (entriesUpTo (which.resolve us.length))).getLastD f.base,
          which.resolve us.length, us.length⟩ := by
  simp only [TrackedFile.versionAt, ← h.length_eq, (h.take _).replay]

theorem TrackedFile.versionAt_latest {o : Tuning} {f : TrackedFile} {us : List Text}
    (h : Leads o f.base f.entries us) :
    f.versionAt o .latest
      = .ok ⟨us.getLastD f.base, VersionName.latest.resolve us.length, us.length⟩ := by
  rw [versionAt_eq h, VersionName.entriesUpTo_resolve_latest, List.take_length]

/-- A name means an entry of the chain, if it means one. -/
theorem VersionName.resolve_lt {which : VersionName} {length n : Nat}
    (h : which.resolve length = some n) : n < length := by
  unfold resolve at h
  split at h
  · cases h
  · cases which with
    | base => cases h
    | index m =>
        cases h
        omega
    | latest =>
        cases h
        omega

/-- An index that is in a chain means its own entry. -/
theorem VersionName.resolve_index {n length : Nat} (h : n < length) :
    (VersionName.index n).resolve length = some n := by
  rw [VersionName.resolve, if_neg (by omega)]
  show some (min n (length - 1)) = some n
  rw [Nat.min_eq_left (by omega)]

/-- The version after an entry is what the chain up to that entry is replayed to. -/
theorem TrackedFile.versionAt_index {o : Tuning} {f : TrackedFile} {n : Nat}
    (hn : n < f.entries.length) {t : Text}
    (h : TextHistory.replay o 0 f.base (f.entries.take (n + 1)) = .ok t) :
    f.versionAt o (.index n) = .ok ⟨t, some n, f.entries.length⟩ := by
  simp only [versionAt, VersionName.resolve_index hn, entriesUpTo, h]

/-- A version that is read is what its part of the chain is replayed to. -/
theorem TrackedFile.replay_of_versionAt {o : Tuning} {f : TrackedFile} {which : VersionName}
    {v : VersionText} (h : f.versionAt o which = .ok v) :
    TextHistory.replay o 0 f.base
      (f.entries.take (entriesUpTo (which.resolve f.entries.length))) = .ok v.content := by
  unfold versionAt at h
  dsimp only at h
  split at h
  · cases h
    assumption
  · cases h

theorem TrackedFile.version_of_versionAt {o : Tuning} {f : TrackedFile} {which : VersionName}
    {v : VersionText} (h : f.versionAt o which = .ok v) :
    v.version = which.resolve f.entries.length := by
  unfold versionAt at h
  dsimp only at h
  split at h
  · cases h
    rfl
  · cases h

end TextHistory
