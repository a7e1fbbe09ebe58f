import TextHistory.Proofs.History.Effects
import TextHistory.Proofs.History.Snapshots

/-!
# Histories read with other settings

Versions are made by applying patches, and how patches are applied is a matter of settings. A
history that was written with some settings reads alike with others up to a place in a chain
exactly when every patch that was handed in and stands before that place makes the same text with
both (`Store.versions_retuned`). The patches that the history has made itself never matter, for
they fit. Nor do those whose hunks stand with all their context within the range of both settings.

A hunk that was found with less context, or farther away, may be found at another place with other
settings, or at none (`Store.versions_retuned_otherwise`).
-/

set_option autoImplicit false

namespace TextHistory

/-! ## Versions and chains -/

namespace TrackedFile

variable {a b : Tuning} {f : TrackedFile} {us : List Text} {k : Nat}

/-- A version takes no more of a chain than its own part. -/
theorem versionAt_of_leads_take (h : Leads a f.base (f.entries.take k) (us.take k))
    {which : VersionName} (hwhich : entriesUpTo (which.resolve f.entries.length) ≤ k) :
    f.versionAt a which
      = .ok ⟨(us.take (entriesUpTo (which.resolve f.entries.length))).getLastD f.base,
          which.resolve f.entries.length, f.entries.length⟩ := by
  have htake := h.take (entriesUpTo (which.resolve f.entries.length))
  rw [List.take_take, List.take_take, Nat.min_eq_left hwhich] at htake
  simp only [versionAt, htake.replay]

/-- **Two settings read alike** what comes before a place in a chain exactly when they lead through
the same texts up to that place. -/
theorem versions_eq_iff (hl : Leads a f.base f.entries us) :
    (∀ which : VersionName, entriesUpTo (which.resolve f.entries.length) ≤ k →
        f.versionAt b which = f.versionAt a which) ↔
      Leads b f.base (f.entries.take k) (us.take k) := by
  constructor
  · intro h
    induction k with
    | zero => exact .nil _
    | succ k ih =>
        have hb := ih fun which hwhich => h which (Nat.le_succ_of_le hwhich)
        by_cases hk : k < f.entries.length
        · -- the version after entry `k` tells what this entry leads to
          have hk' : k < us.length := by rw [hl.length_eq]; exact hk
          have hplace := VersionName.resolve_index hk
          have hread := h (.index k) (by rw [hplace]; exact Nat.le_refl _)
          rw [versionAt_eq hl, hl.length_eq, hplace] at hread
          have hreplay := replay_of_versionAt hread
          rw [hplace, entriesUpTo, List.take_succ_eq_append_getElem hk,
            getLastD_take_succ hk'] at hreplay
          rw [List.take_succ_eq_append_getElem hk, List.take_succ_eq_append_getElem hk']
          exact hb.snoc (hb.apply_of_replay hreplay)
        · have hlen := hl.length_eq
          rwa [List.take_of_length_le (by omega), List.take_of_length_le (by omega)] at hb ⊢
  · intro hb which hwhich
    rw [versionAt_of_leads_take hb hwhich, versionAt_of_leads_take (hl.take k) hwhich]

end TrackedFile

namespace History

variable {o : Tuning} {s : Store} {name : Text}

theorem version_of_untracked (h : s.find name = .ok none) (which : VersionName) :
    version o s name which = .error (.notFound name) := by
  simp only [version, tracked, h, bind, Except.bind]

theorem version_of_found {f : TrackedFile} (h : s.find name = .ok (some f))
    (which : VersionName) : version o s name which = f.versionAt o which := by
  simp only [version, tracked, h, bind, Except.bind]

end History

/-! ## Patches that were handed in -/

/-- A patch that was handed in and has become an entry. -/
structure Committed where
  name : Text
  /-- The place of the entry in its chain. -/
  index : Nat
  patch : Patch
  /-- The text that it was applied to. -/
  head : Text
  deriving DecidableEq, Repr

/-- What a write has committed, if it was handed in as a patch. -/
def Write.committed? (o : Tuning) (s : Store) (now : Clock) : Write → Option Committed
  | .text _ => none
  | .patch q =>
    match (History.savePatch o s now q).2, Patch.parse q.patch, History.latest o s q.name with
    | .ok ⟨.patchAppended, _, _⟩, .ok p, .ok l => some ⟨q.name, l.versionCount, p, l.content⟩
    | _, _, _ => none

/-- All patches that were handed in and committed by the writes of a list. -/
def Store.committed (o : Tuning) (s : Store) : List (Clock × Write) → List Committed
  | [] => []
  | (now, w) :: rest => (w.committed? o s now).toList ++ (w.save o s now).1.committed o rest

namespace Write

variable {o : Tuning} {s : Store} {now : Clock}

theorem committed?_eq_none {w : Write}
    (h : ∀ r, (w.save o s now).2 = .ok r → r.effect ≠ .patchAppended) :
    w.committed? o s now = none := by
  cases w with
  | text q => rfl
  | patch q =>
      simp only [committed?]
      split
      · next hanswer _ _ => exact absurd rfl (h _ hanswer)
      · rfl

theorem committed?_of_appended {q : PatchSubmission} {n : Nat} {p : Patch} {l : Latest}
    (hanswer : ((Write.patch q).save o s now).2 = .ok (.ofCount .patchAppended n))
    (hp : Patch.parse q.patch = .ok p) (hlatest : History.latest o s q.name = .ok l) :
    (Write.patch q).committed? o s now = some ⟨q.name, l.versionCount, p, l.content⟩ := by
  rw [save] at hanswer
  simp only [committed?, hanswer, Receipt.ofCount, hp, hlatest]

end Write

namespace Committed

/-- With both settings the patch makes the same text of the one it was applied to. -/
def Alike (a b : Tuning) (c : Committed) : Prop :=
  b.applyStrict c.patch c.head = a.applyStrict c.patch c.head

/-- The patches that were committed to a file before a place in its chain make the same texts. -/
def AlikeBelow (a b : Tuning) (cs : List Committed) (name : Text) (k : Nat) : Prop :=
  ∀ c ∈ cs, c.name = name → c.index < k → c.Alike a b

section AlikeBelow

variable {a b : Tuning} {cs new : List Committed} {name : Text} {n k : Nat}

theorem alikeBelow_append_of_ne {other : Text} (hnew : ∀ c ∈ new, c.name = name)
    (hne : other ≠ name) :
    AlikeBelow a b (cs ++ new) other k ↔ AlikeBelow a b cs other k := by
  simp only [AlikeBelow, List.forall_mem_append]
  exact ⟨And.left, fun h => ⟨h, fun c hc hsame => absurd (hsame.symm.trans (hnew c hc)) hne⟩⟩

/-- What is committed later does not count before it. -/
theorem alikeBelow_append_of_le (hnew : ∀ c ∈ new, c.index = n) (hk : k ≤ n) :
    AlikeBelow a b (cs ++ new) name k ↔ AlikeBelow a b cs name k := by
  simp only [AlikeBelow, List.forall_mem_append]
  refine ⟨And.left, fun h => ⟨h, fun c hc _ hindex => ?_⟩⟩
  have := hnew c hc
  omega

/-- After all places that count so far, what is committed last counts too. -/
theorem alikeBelow_append_of_lt (hcs : ∀ c ∈ cs, c.name = name → c.index < n)
    (hnew : ∀ c ∈ new, c.name = name ∧ c.index = n) (hk : n < k) :
    AlikeBelow a b (cs ++ new) name k ↔ AlikeBelow a b cs name n ∧ ∀ c ∈ new, c.Alike a b := by
  simp only [AlikeBelow, List.forall_mem_append]
  constructor
  · rintro ⟨hold, hlast⟩
    refine ⟨fun c hc hname hindex => hold c hc hname (by omega), fun c hc => ?_⟩
    obtain ⟨hname, hindex⟩ := hnew c hc
    exact hlast c hc hname (by omega)
  · rintro ⟨hold, hlast⟩
    exact ⟨fun c hc hname _ => hold c hc hname (hcs c hc hname), fun c hc _ _ => hlast c hc⟩

end AlikeBelow

end Committed

/-! ## What the committed patches account for -/

/-- Settings `b` lead through the texts of a chain up to a place exactly when the patches that were
handed in and stand before that place make the same texts with `a` and `b`. -/
structure Store.Accounts (a b : Tuning) (s : Store) (cs : List Committed) : Prop where
  held : ∀ c ∈ cs, ∃ f, s.find c.name = .ok (some f) ∧ c.index < f.entries.length
  chains : ∀ name f us, s.find name = .ok (some f) → Leads a f.base f.entries us → ∀ k,
    (Leads b f.base (f.entries.take k) (us.take k) ↔ Committed.AlikeBelow a b cs name k)

namespace Store.Accounts

variable {a b : Tuning} {s : Store} {cs : List Committed} {name : Text} {now : Instant}

theorem empty (a b : Tuning) : Accounts a b {} [] where
  held := by simp
  chains := by
    intro name f us h
    cases h

theorem index_lt (h : Accounts a b s cs) {f : TrackedFile} (hfind : s.find name = .ok (some f)) :
    ∀ c ∈ cs, c.name = name → c.index < f.entries.length := by
  rintro c hc rfl
  obtain ⟨g, hg, hindex⟩ := h.held c hc
  rw [hfind] at hg
  cases hg
  exact hindex

/-- Nothing was committed to a file that is not there. -/
theorem alikeBelow_of_untracked (h : Accounts a b s cs) (hfind : s.find name = .ok none) (k : Nat) :
    Committed.AlikeBelow a b cs name k := by
  rintro c hc rfl
  obtain ⟨g, hg, -⟩ := h.held c hc
  rw [hfind] at hg
  cases hg

theorem withFile (h : Accounts a b s cs) (hs : s.Sound) (hnow : now.Storable) (base : Text)
    (hname : s.find name = .ok none) : Accounts a b (s.withFile now name base) cs where
  held := by
    intro c hc
    obtain ⟨f, hf, hindex⟩ := h.held c hc
    obtain ⟨g, hg, -, hentries⟩ := extends_withFile hs hnow base hname c.name f hf
    exact ⟨g, hg, Nat.lt_of_lt_of_le hindex hentries.length_le⟩
  chains := by
    intro other f us hf hl k
    rw [find_create hs hnow base hname] at hf
    by_cases hother : other = name
    · subst hother
      rw [if_pos rfl] at hf
      cases hf
      cases hl
      rw [List.take_nil, List.take_nil]
      exact ⟨fun _ => h.alikeBelow_of_untracked hname k, fun _ => .nil base⟩
    · rw [if_neg hother] at hf
      exact h.chains other f us hf hl k

/-- One more entry, with the patch that it comes from if that was handed in. -/
theorem withEntry (h : Accounts a b s cs) (hs : s.Sound) (hnow : now.Storable) {e : Entry}
    (he : e.timestamp.Storable) {f : TrackedFile} (hfind : s.find name = .ok (some f))
    {us : List Text} (hl : Leads a f.base f.entries us) {u : Text}
    (hu : e.apply a (us.getLastD f.base) = .ok u) {new : List Committed}
    (hnew : ∀ c ∈ new, c.name = name ∧ c.index = f.entries.length)
    (hb : e.apply b (us.getLastD f.base) = .ok u ↔ ∀ c ∈ new, c.Alike a b) :
    Accounts a b (s.withEntry now name e) (cs ++ new) where
  held := by
    intro c hc
    rcases List.mem_append.mp hc with hc | hc
    · obtain ⟨g, hg, hindex⟩ := h.held c hc
      obtain ⟨g', hg', -, hentries⟩ := extends_withEntry hs hnow he hfind c.name g hg
      exact ⟨g', hg', Nat.lt_of_lt_of_le hindex hentries.length_le⟩
    · obtain ⟨hname, hindex⟩ := hnew c hc
      rw [find_insert hs hnow he hfind]
      refine ⟨_, if_pos hname, ?_⟩
      simp only [List.length_append, List.length_singleton]
      omega
  chains := by
    intro other g vs hg hlg k
    rw [find_insert hs hnow he hfind] at hg
    by_cases hother : other = name
    · subst hother
      rw [if_pos rfl] at hg
      cases hg
      obtain rfl := hlg.unique (hl.snoc hu)
      have hlen := hl.length_eq
      by_cases hk : k ≤ f.entries.length
      · -- the new entry stands behind the place
        rw [List.take_append_of_le_length hk, List.take_append_of_le_length (by omega),
          h.chains other f us hfind hl k,
          Committed.alikeBelow_append_of_le (fun c hc => (hnew c hc).2) hk]
      · -- the place takes in the whole chain, and the new entry is its last one
        have hwhole := h.chains other f us hfind hl f.entries.length
        rw [List.take_length, ← hlen, List.take_length, hlen] at hwhole
        rw [List.take_of_length_le (by simp; omega), List.take_of_length_le (by simp; omega),
          Leads.concat_iff hlen, hwhole, hb,
          Committed.alikeBelow_append_of_lt (h.index_lt hfind) hnew (by omega)]
    · rw [if_neg hother] at hg
      rw [h.chains other g vs hg hlg k,
        Committed.alikeBelow_append_of_ne (fun c hc => (hnew c hc).1) hother]

end Store.Accounts

/-! ## Writes -/

/-- The texts that a patch is made from are among those that are there afterwards. -/
theorem Snapshots.Short.sized {o : Tuning} {m : Snapshots} {w : Write} {r : Revisions}
    (hshort : (m.write o w).1.Short) (hname : m w.name = some r)
    (hlen : History.checkLength w.name w.expected r.later.length = .ok ()) : w.Sized r.head := by
  cases w with
  | text q =>
      replace hname : m q.name = some r := hname
      replace hlen : History.checkLength q.name q.expected r.later.length = .ok () := hlen
      simp only [write, save, hname, hlen] at hshort
      exact Short.of_extend hname hshort
  | patch q => trivial

namespace Write

variable {a : Tuning} {s : Store} {m : Snapshots} {now : Clock} {w : Write} {r : Revisions}
  {p : Patch}

/-- The entry that a write adds leads to a text, and leads there with other settings as well unless
it was handed in as a patch that makes another text with them. -/
theorem Commits.leads (hr : Snapshots.Refines a s m) (hm : a.patchMargin < sizeLimit)
    (hname : m w.name = some r) (hp : w.Commits a r.head p) (hsized : w.Sized r.head) {n : Nat}
    (hanswer : (w.save a s now).2 = .ok (.ofCount .patchAppended n)) (b : Tuning) :
    ∃ u, Entry.apply a r.head ⟨now.made, p.print, w.author⟩ = .ok u ∧
      (∀ c ∈ (w.committed? a s now).toList, c.name = w.name ∧ c.index = r.later.length) ∧
      (Entry.apply b r.head ⟨now.made, p.print, w.author⟩ = .ok u ↔
        ∀ c ∈ (w.committed? a s now).toList, c.Alike a b) := by
  have hw := hp.wellFormed hm hsized
  rw [Entry.apply_print a hw, Entry.apply_print b hw]
  cases w with
  | text q =>
      -- a patch that was made from the two texts fits, whoever applies it
      obtain ⟨p', hp', hfits, -, -⟩ := Tuning.patch?_spec hm hsized.1 hsized.2
      obtain rfl : p = p' := Option.some.inj (hp.symm.trans hp')
      refine ⟨q.content, a.applyStrict_of_fits hfits hw, by simp [committed?], ?_⟩
      simp [committed?, b.applyStrict_of_fits hfits hw]
  | patch q =>
      obtain ⟨hparse, u, hu⟩ := hp
      have hlatest := hr.latest q.name
      rw [Snapshots.latest, show m q.name = some r from hname] at hlatest
      rw [committed?_of_appended hanswer hparse hlatest]
      refine ⟨u, hu, by simp [name], ?_⟩
      simp only [Option.toList_some, List.mem_singleton, forall_eq, Committed.Alike, hu]

end Write

namespace Store.Accounts

variable {a b : Tuning} {s : Store} {m : Snapshots} {cs : List Committed}

/-- **A write** leaves an account that takes in what it has committed. -/
theorem save {now : Clock} (h : Accounts a b s cs) (hr : Snapshots.Refines a s m)
    (hm : a.patchMargin < sizeLimit) (hnow : now.Storable) (w : Write)
    (hshort : (m.write a w).1.Short) :
    Accounts a b (w.save a s now).1 (cs ++ (w.committed? a s now).toList) := by
  have hout := w.outcome_save a s now
  generalize hstore : (w.save a s now).1 = s' at hout ⊢
  generalize hanswer : (w.save a s now).2 = answer at hout
  -- only an answer that tells of a new entry can tell of a committed patch
  have hnone : (∀ r, answer = .ok r → r.effect ≠ .patchAppended) →
      cs ++ (w.committed? a s now).toList = cs := by
    intro heffect
    rw [Write.committed?_eq_none (by rwa [hanswer]), Option.toList_none, List.append_nil]
  cases hout with
  | refused e =>
      rw [hnone (by simp)]
      exact h
  | unchanged hfind hlen =>
      rw [hnone (by simp [Receipt.ofCount])]
      exact h
  | created hfind hbase hlen =>
      rw [hnone (by simp [Receipt.ofCount])]
      exact h.withFile hr.sound hnow.stored _ hfind
  | @appended f head p hfind hlen hhead hp =>
      obtain ⟨r, hname, hbase, hl⟩ := hr.of_found hfind
      -- the text that the entry was made for is the last one of the chain
      have hcontent : head.content = r.head := by
        rw [Snapshots.Refines.versionAt hbase hl] at hhead
        cases hhead
        rfl
      rw [hcontent] at hp
      rw [← hl.length_eq] at hlen
      have hreread := find_insert hr.sound hnow.stored
        (e := ⟨now.made, p.print, w.author⟩) hnow.made hfind w.name
      rw [if_pos rfl] at hreread
      simp only [reread, hreread, bind, Except.bind, Except.map] at hanswer
      obtain ⟨u, hu, hnew, hb⟩ :=
        hp.leads hr hm hname (hshort.sized hname hlen) hanswer b
      rw [Revisions.head, ← hbase] at hu hb
      rw [hl.length_eq] at hnew
      exact h.withEntry hr.sound hnow.stored hnow.made hfind hl hu hnew hb

/-- **All writes** of a list leave an account of what they have committed. -/
theorem run (h : Accounts a b s cs) (hr : Snapshots.Refines a s m)
    (hm : a.patchMargin < sizeLimit) (calls : List (Clock × Write))
    (hclock : ∀ c ∈ calls, c.1.Storable) (hshort : (m.run a (calls.map Prod.snd)).1.Short) :
    Accounts a b (s.run a calls).1 (cs ++ s.committed a calls) := by
  induction calls generalizing s m cs with
  | nil =>
      rw [committed, List.append_nil]
      exact h
  | cons c calls ih =>
      obtain ⟨now, w⟩ := c
      have hnow := hclock _ List.mem_cons_self
      have hshort' : (m.write a w).1.Short := hshort.of_grows (Snapshots.grows_run a _ _)
      rw [committed, ← List.append_assoc]
      exact ih (h.save hr hm hnow w hshort') (hr.write hm hnow w hshort').1
        (fun c hc => hclock c (List.mem_cons_of_mem _ hc)) hshort

end Store.Accounts

/-! ## A file with one patch -/

/-- The writes that begin a file and hand in a patch for it. -/
def Write.beginAndPatch (now : Clock) (name base : Text) (p : Patch) : List (Clock × Write) :=
  [(now, .text { name := name, content := base }), (now, .patch { name := name, patch := p.print })]

section BeginAndPatch

variable {o : Tuning} {now : Clock} (hnow : now.Storable) (name : Text) {base t : Text}
  {p : Patch} (hw : ∀ h ∈ p, h.WellFormed) (ht : o.applyStrict p base = .ok t) (hne : t ≠ base)

include hnow in
theorem Store.sound_begun (base : Text) : (({} : Store).withFile now.stored name base).Sound :=
  sound_withFile sound_empty hnow.stored base

include hnow in
theorem Store.find_begun (base : Text) :
    (({} : Store).withFile now.stored name base).find name
      = .ok (some ⟨name, base, [], now.stored, now.stored⟩) :=
  (find_create sound_empty hnow.stored base rfl name).trans (if_pos rfl)

include hw ht hne

theorem Snapshots.run_beginAndPatch (now : Clock) :
    (empty.run o ((Write.beginAndPatch now name base p).map Prod.snd)).1
      = (empty.set name ⟨base, []⟩).set name ⟨base, [t]⟩ := by
  have hpatch : (empty.set name ⟨base, []⟩).savePatch o { name := name, patch := p.print }
      = (empty.set name ⟨base, []⟩).extend name ⟨base, []⟩ t := by
    simp [savePatch, Patch.parse_print hw, History.checkLength, Revisions.head, ht]
  have hextend : (empty.set name ⟨base, []⟩).extend name ⟨base, []⟩ t = _ := if_neg hne
  exact congrArg Prod.fst (hpatch.trans hextend)

include hnow

theorem History.savePatch_begun :
    savePatch o (({} : Store).withFile now.stored name base) now { name := name, patch := p.print }
      = ((({} : Store).withFile now.stored name base).withEntry now.stored name
            ⟨now.made, p.print, none⟩,
          .ok (.ofCount .patchAppended 1)) := by
  have hplan : planPatch o (some ⟨name, base, [], now.stored, now.stored⟩) p
      { name := name, patch := p.print } = .ok (.append p.print 0) := by
    rw [planPatch_found (.nil base) p _ rfl]
    simp [ht, hne]
  simp only [savePatch, Patch.parse_print hw, Store.find_begun hnow, hplan]
  exact perform_append (Store.sound_begun hnow name base) hnow none p.print
    (Store.find_begun hnow name base)

theorem Store.committed_beginAndPatch :
    ({} : Store).committed o (Write.beginAndPatch now name base p) = [⟨name, 0, p, base⟩] := by
  have hlatest : History.latest o (({} : Store).withFile now.stored name base) name
      = .ok ⟨name, base, 0⟩ := by
    simp only [History.latest, find_begun hnow, bind, Except.bind]
    rfl
  have hanswer := congrArg Prod.snd (History.savePatch_begun hnow name hw ht hne)
  exact congrArg (fun c : Option Committed => c.toList ++ [])
    (Write.committed?_of_appended hanswer (Patch.parse_print hw) hlatest)

/-- The patch is applied again whenever its version is read, with the settings of the reader. -/
theorem History.version_beginAndPatch (b : Tuning) :
    version b (({} : Store).run o (Write.beginAndPatch now name base p)).1 name (.index 0)
      = match b.applyStrict p base with
        | .ok u => .ok ⟨u, some 0, 1⟩
        | .error cause => .error (.patchApplication name 0 cause) := by
  have hstore : (({} : Store).run o (Write.beginAndPatch now name base p)).1
      = (({} : Store).withFile now.stored name base).withEntry now.stored name
          ⟨now.made, p.print, none⟩ :=
    congrArg Prod.fst (savePatch_begun hnow name hw ht hne)
  have hfind := (Store.find_insert (Store.sound_begun hnow name base) hnow.stored
    (e := ⟨now.made, p.print, none⟩) hnow.made (Store.find_begun hnow name base) name).trans
      (if_pos rfl)
  rw [hstore, version_of_found hfind, TrackedFile.versionAt]
  simp only [List.nil_append, List.length_singleton, VersionName.resolve_index Nat.zero_lt_one,
    entriesUpTo, List.take_succ_cons, List.take_zero, replay, Entry.apply_print b hw]
  cases b.applyStrict p base <;> rfl

end BeginAndPatch

/-! ## Reading with other settings -/

/-- A patch whose hunks stand with all their context within the range of both settings makes the
same text with both. -/
theorem Committed.alike_of_stands {a b : Tuning} {c : Committed} {s : Progress}
    (h : c.patch.Stands (min a.matchDistance b.matchDistance) ⟨c.head, 0⟩ s) : c.Alike a b := by
  have ha : a.applyStrict c.patch c.head = .ok s.text :=
    Patch.applyStrict_of_stands h (Nat.min_le_left _ _)
  have hb : b.applyStrict c.patch c.head = .ok s.text :=
    Patch.applyStrict_of_stands h (Nat.min_le_right _ _)
  exact hb.trans ha.symm

/-- **What depends on the settings.** A history that was written with settings `a` is read with
them in full. With settings `b` the versions of a file up to a place in its chain read the same
exactly when every patch that was handed in and stands before that place makes the same text with
`b` as with `a`; in particular those do whose hunks stand with all their context within the range
of both. Texts that were saved, the base included, read the same with any settings. -/
theorem Store.versions_retuned (a b : Tuning) (hm : a.patchMargin < sizeLimit)
    (calls : List (Clock × Write)) (hclock : ∀ c ∈ calls, c.1.Storable)
    (hshort : (Snapshots.empty.run a (calls.map Prod.snd)).1.Short) :
    let s := (({} : Store).run a calls).1
    let committed := ({} : Store).committed a calls
    (∀ name which, s.tracks name = true → ∃ v, History.version a s name which = .ok v) ∧
      (∀ name k,
        (∀ which : VersionName, entriesUpTo (which.resolve (s.count name)) ≤ k →
            History.version b s name which = History.version a s name which) ↔
          Committed.AlikeBelow a b committed name k) ∧
      ∀ c ∈ committed, ∀ found,
        c.patch.Stands (min a.matchDistance b.matchDistance) ⟨c.head, 0⟩ found → c.Alike a b := by
  intro s committed
  have hr : Snapshots.Refines a s _ :=
    ((Snapshots.refines_empty a).run hm calls hclock hshort).1
  have haccounts : Accounts a b s committed :=
    (Accounts.empty a b).run (Snapshots.refines_empty a) hm calls hclock hshort
  refine ⟨fun name which htracks => ?_, fun name k => ?_,
    fun c _ _ h => Committed.alike_of_stands h⟩
  · rw [hr.version name which]
    rw [hr.tracks name] at htracks
    obtain ⟨r, hname⟩ := Option.isSome_iff_exists.mp htracks
    exact ⟨r.version which, by rw [Snapshots.version, hname]⟩
  · obtain ⟨found, hfind⟩ := find_ok hr.sound name
    cases found with
    | none =>
        simp only [History.version_of_untracked hfind, implies_true, true_iff]
        exact haccounts.alikeBelow_of_untracked hfind k
    | some f =>
        obtain ⟨r, -, -, hl⟩ := hr.of_found hfind
        simp only [History.version_of_found hfind, count_of_find hfind]
        rw [TrackedFile.versions_eq_iff hl]
        exact haccounts.chains name f r.later hfind hl k

/-- A patch that is found one place further on, within the range of both settings. -/
theorem Store.versions_retuned_moved :
    let h : Hunk := ⟨[⟨.delete, ['b']⟩, ⟨.insert, ['c']⟩], 0, 1, 0, 1⟩
    let a : Tuning := {}
    let b : Tuning := { patchMargin := 0, matchDistance := 1 }
    let calls := Write.beginAndPatch .newYear ['a'] ['a', 'b'] [h]
    let s := (({} : Store).run a calls).1
    a.patchMargin < sizeLimit ∧ (∀ c ∈ calls, c.1.Storable) ∧
      (Snapshots.empty.run a (calls.map Prod.snd)).1.Short ∧
      ({} : Store).committed a calls = [⟨['a'], 0, [h], ['a', 'b']⟩] ∧
      ∀ which, History.version b s ['a'] which = History.version a s ['a'] which := by
  intro h a b calls s
  have hw : ∀ g ∈ [h], g.WellFormed := by
    simp only [List.mem_singleton, forall_eq]
    exact ⟨by decide, by decide, rfl, rfl, by decide, by decide⟩
  have ha : a.applyStrict [h] ['a', 'b'] = .ok ['a', 'c'] :=
    Patch.applyStrict_eq (show Patch.apply [h] ['a', 'b'] a.reach = (['a', 'c'], [true]) by
      decide +kernel)
  have hstands : Patch.Stands 1 ⟨['a', 'b'], 0⟩ [h] ⟨['a', 'c'], 1⟩ :=
    .cons (Hunk.moved?_zero (by decide))
      (show Text.nearestOccurrence ['a', 'b'] ['b'] 0 1 = some 1 by decide) (.nil _)
  have hclock : ∀ c ∈ calls, c.1.Storable := by
    simp [calls, Write.beginAndPatch, Clock.storable_newYear]
  have hshort : (Snapshots.empty.run a (calls.map Prod.snd)).1.Short := by
    rw [Snapshots.run_beginAndPatch ['a'] hw ha (by decide)]
    exact (Snapshots.short_empty.set ['a'] (by decide)).set ['a'] (by decide)
  have hcommitted : ({} : Store).committed a calls = [⟨['a'], 0, [h], ['a', 'b']⟩] :=
    committed_beginAndPatch Clock.storable_newYear ['a'] hw ha (by decide)
  refine ⟨by decide, hclock, hshort, hcommitted, fun which => ?_⟩
  obtain ⟨-, hreads, halike⟩ := versions_retuned a b (by decide) calls hclock hshort
  refine (hreads ['a'] _).mpr (fun c hc _ _ => halike c hc ⟨['a', 'c'], 1⟩ ?_) which (Nat.le_refl _)
  rw [hcommitted, List.mem_singleton] at hc
  rw [hc]
  exact hstands

/-- **What was handed in may be read otherwise.** A hunk is found with a part of its context only.
With a smaller margin it is found somewhere else, and with a shorter range nowhere: the version
that was written as one text is then another one, or cannot be read at all. -/
theorem Store.versions_retuned_otherwise :
    let h : Hunk := ⟨[⟨.equal, ['Z', 'y']⟩, ⟨.delete, ['b']⟩, ⟨.insert, ['c']⟩], 0, 3, 0, 3⟩
    let a : Tuning := { patchMargin := 1 }
    let b : Tuning := { patchMargin := 0 }
    let b' : Tuning := { patchMargin := 1, matchDistance := 0 }
    let s := (({} : Store).run a (Write.beginAndPatch .newYear ['a'] ['x', 'b', 'y', 'b'] [h])).1
    (a.patchMargin < sizeLimit ∧ b.patchMargin < sizeLimit ∧ b'.patchMargin < sizeLimit) ∧
      History.version a s ['a'] (.index 0) = .ok ⟨['x', 'b', 'y', 'c'], some 0, 1⟩ ∧
      History.version b s ['a'] (.index 0) = .ok ⟨['x', 'c', 'y', 'b'], some 0, 1⟩ ∧
      History.version b' s ['a'] (.index 0) = .error (.patchApplication ['a'] 0 (.rejected 0)) := by
  intro h a b b' s
  have hw : ∀ g ∈ [h], g.WellFormed := by
    simp only [List.mem_singleton, forall_eq]
    exact ⟨by decide, by decide, rfl, rfl, by decide, by decide⟩
  have ha : a.applyStrict [h] ['x', 'b', 'y', 'b'] = .ok ['x', 'b', 'y', 'c'] :=
    Patch.applyStrict_eq (show Patch.apply [h] ['x', 'b', 'y', 'b'] a.reach
      = (['x', 'b', 'y', 'c'], [true]) by decide +kernel)
  have hb : b.applyStrict [h] ['x', 'b', 'y', 'b'] = .ok ['x', 'c', 'y', 'b'] :=
    Patch.applyStrict_eq (show Patch.apply [h] ['x', 'b', 'y', 'b'] b.reach
      = (['x', 'c', 'y', 'b'], [true]) by decide +kernel)
  have hb' : b'.applyStrict [h] ['x', 'b', 'y', 'b'] = .error (.rejected 0) :=
    Patch.applyStrict_eq (show Patch.apply [h] ['x', 'b', 'y', 'b'] b'.reach
      = (['x', 'b', 'y', 'b'], [false]) by decide +kernel)
  have hread := History.version_beginAndPatch Clock.storable_newYear ['a'] hw ha (by decide)
  exact ⟨by decide, by rw [hread, ha], by rw [hread, hb], by rw [hread, hb']⟩

end TextHistory
