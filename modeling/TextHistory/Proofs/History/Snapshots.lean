import TextHistory.Proofs.History.Planning

/-!
# A history keeps full texts

Seen from outside, a history is a map from names to non-empty lists of full texts (`Snapshots`):
a write adds a text at the end of a list or begins one, a refused write changes nothing, and every
version reads the text at its place. The store holds a base and patches instead. That no
difference can be told is `Snapshots.Refines`, which relates a store to the map it stands for:
the chain of every file leads from its base through the later texts. One write keeps the relation
and is answered alike on both sides (`Snapshots.Refines.write`), and so does every run of writes
(`Snapshots.Refines.run`).

Two things are asked of the world around: the clock shows instants that can be stored, and no text
that a file comes to have is longer than a text can be.
-/

set_option autoImplicit false

namespace TextHistory

/-! ## Snapshots -/

/-- The texts of a file, first one first. -/
structure Revisions where
  base : Text
  later : List Text := []
  deriving DecidableEq, Repr

namespace Revisions

def texts (r : Revisions) : List Text := r.base :: r.later

/-- The last text. -/
def head (r : Revisions) : Text := r.later.getLastD r.base

def push (r : Revisions) (t : Text) : Revisions := { r with later := r.later ++ [t] }

/-- The text that a name means. An index counts from the second text and stops at the last one;
where there is no second text it means the first. -/
def read (r : Revisions) : VersionName → Text
  | .base => r.base
  | .index n => r.texts.getD (min n (r.texts.length - 2) + 1) r.base
  | .latest => r.head

/-- The text that a name means is the last one of the chain up to its place. -/
theorem read_eq (r : Revisions) (which : VersionName) :
    (r.later.take (entriesUpTo (which.resolve r.later.length))).getLastD r.base = r.read which := by
  obtain ⟨base, later⟩ := r
  cases which with
  | base =>
      have hnone : VersionName.base.resolve later.length = none := by
        unfold VersionName.resolve
        split <;> rfl
      rw [hnone]
      rfl
  | index n =>
      by_cases hnil : later = []
      · subst hnil
        simp [VersionName.resolve, entriesUpTo, read, texts]
      · have hpos : later.length ≠ 0 := by simpa using hnil
        have hlt : min n (later.length - 1) < later.length := by omega
        have hplace : min n ((base :: later).length - 2) = min n (later.length - 1) := by
          rw [List.length_cons]
          omega
        show (later.take (entriesUpTo (VersionName.resolve (.index n) later.length))).getLastD base
          = (base :: later).getD (min n ((base :: later).length - 2) + 1) base
        rw [VersionName.resolve, if_neg hpos, hplace, List.getD_cons_succ,
          List.getD_eq_getElem?_getD, List.getElem?_eq_getElem hlt, Option.getD_some]
        exact getLastD_take_succ hlt base
  | latest =>
      rw [VersionName.entriesUpTo_resolve_latest, List.take_length]
      rfl

/-- The answer to a request for a version. -/
def version (r : Revisions) (which : VersionName) : VersionText :=
  ⟨r.read which, which.resolve r.later.length, r.later.length⟩

end Revisions

/-- The texts of all files. -/
def Snapshots := Text → Option Revisions

namespace Snapshots

/-- No files. -/
def empty : Snapshots := fun _ => none

def set (m : Snapshots) (name : Text) (r : Revisions) : Snapshots :=
  fun other => if other = name then some r else m other

@[simp] theorem set_self (m : Snapshots) (name : Text) (r : Revisions) :
    m.set name r name = some r := if_pos rfl

@[simp] theorem set_of_ne (m : Snapshots) {name other : Text} (r : Revisions)
    (h : other ≠ name) : m.set name r other = m other := if_neg h

/-! ### Reading -/

def latest (m : Snapshots) (name : Text) : Latest :=
  match m name with
  | none => ⟨name, [], 0⟩
  | some r => ⟨name, r.head, r.later.length⟩

def version (m : Snapshots) (name : Text) (which : VersionName) : Except Error VersionText :=
  match m name with
  | none => .error (.notFound name)
  | some r => .ok (r.version which)

/-- The unified difference of two versions. -/
def difference (m : Snapshots) (name : Text) (old new : VersionName) :
    Except Error VersionDifference :=
  match m name with
  | none => .error (.notFound name)
  | some r =>
    let a := r.version old
    let b := r.version new
    .ok ⟨a.version, b.version, Unified.difference a.content b.content
      (History.title name a.version) (History.title name b.version)⟩

/-! ### Writing -/

/-- A first text. -/
def begin (m : Snapshots) (name : Text) (expected : Option Nat) (base : Text) :
    Snapshots × Except Error Receipt :=
  match History.checkLength name expected 0 with
  | .error e => (m, .error e)
  | .ok () => (m.set name ⟨base, []⟩, .ok (.ofCount .baseCreated 0))

/-- A further text, unless it is the last one again. -/
def extend (m : Snapshots) (name : Text) (r : Revisions) (t : Text) :
    Snapshots × Except Error Receipt :=
  if t = r.head then (m, .ok (.ofCount .noChange r.later.length))
  else (m.set name (r.push t), .ok (.ofCount .patchAppended (r.later.length + 1)))

def save (m : Snapshots) (q : Submission) : Snapshots × Except Error Receipt :=
  match m q.name with
  | none => m.begin q.name q.expected q.content
  | some r =>
    match History.checkLength q.name q.expected r.later.length with
    | .error e => (m, .error e)
    | .ok () => m.extend q.name r q.content

def savePatch (o : Tuning) (m : Snapshots) (q : PatchSubmission) :
    Snapshots × Except Error Receipt :=
  match Patch.parse q.patch with
  | .error cause => (m, .error (.invalidPatch cause))
  | .ok p =>
    match m q.name with
    | none =>
      match q.content with
      | none => (m, .error (.notFound q.name))
      | some base => m.begin q.name q.expected base
    | some r =>
      match History.checkLength q.name q.expected r.later.length with
      | .error e => (m, .error e)
      | .ok () =>
        match o.applyStrict p r.head with
        | .error cause => (m, .error (.invalidPatch cause))
        | .ok t =>
          if q.content.any (· != t) then (m, .error (.contentMismatch q.name))
          else m.extend q.name r t

def write (o : Tuning) (m : Snapshots) : Write → Snapshots × Except Error Receipt
  | .text q => m.save q
  | .patch q => m.savePatch o q

/-- All writes of a list, with their answers. -/
def run (o : Tuning) (m : Snapshots) : List Write → Snapshots × List (Except Error Receipt)
  | [] => (m, [])
  | w :: rest =>
    let (m, answer) := m.write o w
    let (m, answers) := run o m rest
    (m, answer :: answers)

end Snapshots

/-- All writes of a list, each with what the clock shows it, and their answers. -/
def Store.run (o : Tuning) (s : Store) :
    List (Clock × Write) → Store × List (Except Error Receipt)
  | [] => (s, [])
  | (now, w) :: rest =>
    let (s, answer) := w.save o s now
    let (s, answers) := run o s rest
    (s, answer :: answers)

namespace Snapshots

/-! ## The texts stay short enough -/

/-- Every text of every file is one that can be. -/
def Short (m : Snapshots) : Prop :=
  ∀ name r, m name = some r → ∀ t ∈ r.texts, t.length < sizeLimit

theorem short_empty : empty.Short := by
  intro name r h
  cases h

theorem Short.set {m : Snapshots} {r : Revisions} (hs : m.Short) (name : Text)
    (h : ∀ t ∈ r.texts, t.length < sizeLimit) : (m.set name r).Short := by
  intro other r' hother t ht
  by_cases hne : other = name
  · subst hne
    obtain rfl := Option.some.inj ((set_self m other r).symm.trans hother)
    exact h t ht
  · exact hs other r' ((set_of_ne m r hne).symm.trans hother) t ht

/-- Every file of `m` is one of `m'`, with the same texts and perhaps more. -/
def Grows (m m' : Snapshots) : Prop :=
  ∀ name r, m name = some r → ∃ r', m' name = some r' ∧ r.texts <+: r'.texts

theorem Grows.refl (m : Snapshots) : Grows m m :=
  fun _ r h => ⟨r, h, List.prefix_rfl⟩

theorem Grows.trans {m m' m'' : Snapshots} (h : Grows m m') (h' : Grows m' m'') :
    Grows m m'' := by
  intro name r hr
  obtain ⟨r', hr', hle⟩ := h name r hr
  obtain ⟨r'', hr'', hle'⟩ := h' name r' hr'
  exact ⟨r'', hr'', hle.trans hle'⟩

theorem Short.of_grows {m m' : Snapshots} (hs : m'.Short) (h : Grows m m') : m.Short := by
  intro name r hr t ht
  obtain ⟨r', hr', hle⟩ := h name r hr
  exact hs name r' hr' t (hle.subset ht)

theorem grows_begin {m : Snapshots} {name : Text} (expected : Option Nat) (base : Text)
    (h : m name = none) : Grows m (m.begin name expected base).1 := by
  unfold begin
  split
  · exact .refl m
  · intro other r hr
    have hne : other ≠ name := by
      rintro rfl
      rw [h] at hr
      cases hr
    exact ⟨r, (set_of_ne m _ hne).trans hr, List.prefix_rfl⟩

theorem grows_extend {m : Snapshots} {name : Text} {r : Revisions} (t : Text)
    (h : m name = some r) : Grows m (m.extend name r t).1 := by
  unfold extend
  split
  · exact .refl m
  · intro other r' hr'
    by_cases hother : other = name
    · subst hother
      obtain rfl : r = r' := by simpa [h] using hr'
      exact ⟨r.push t, set_self m other _, ⟨[t], rfl⟩⟩
    · exact ⟨r', (set_of_ne m _ hother).trans hr', List.prefix_rfl⟩

theorem grows_write (o : Tuning) (m : Snapshots) (w : Write) : Grows m (m.write o w).1 := by
  cases w with
  | text q =>
      simp only [write, save]
      split
      · next h => exact grows_begin _ _ h
      · next r h =>
        split
        · exact .refl m
        · exact grows_extend _ h
  | patch q =>
      simp only [write, savePatch]
      split
      · exact .refl m
      · split
        · next h =>
          split
          · exact .refl m
          · exact grows_begin _ _ h
        · next r h =>
          split
          · exact .refl m
          · split
            · exact .refl m
            · split
              · exact .refl m
              · exact grows_extend _ h

theorem grows_run (o : Tuning) (m : Snapshots) (ws : List Write) : Grows m (m.run o ws).1 := by
  induction ws generalizing m with
  | nil => exact .refl m
  | cons w ws ih => exact (grows_write o m w).trans (ih _)

theorem Short.head {m : Snapshots} (hs : m.Short) {name : Text} {r : Revisions}
    (h : m name = some r) : r.head.length < sizeLimit :=
  hs name r h _ List.getLastD_mem_cons

/-- A text that was added, or that was there already, is among the texts of its file. -/
theorem Short.of_extend {m : Snapshots} {name t : Text} {r : Revisions} (h : m name = some r)
    (hs : (m.extend name r t).1.Short) : r.head.length < sizeLimit ∧ t.length < sizeLimit := by
  have hhead : r.head.length < sizeLimit := (hs.of_grows (grows_extend t h)).head h
  refine ⟨hhead, ?_⟩
  unfold extend at hs
  split at hs
  · next hsame =>
    rw [hsame]
    exact hhead
  · have hlast := hs.head (set_self m name (r.push t))
    rwa [Revisions.head, Revisions.push, List.getLastD_concat] at hlast

/-! ## The store of some snapshots -/

/-- The store holds for every file of the map a chain that leads through the texts of the file,
and no other files. -/
structure Refines (o : Tuning) (s : Store) (m : Snapshots) : Prop where
  sound : s.Sound
  find_none : ∀ name, m name = none → s.find name = .ok none
  find_some : ∀ name r, m name = some r →
    ∃ f, s.find name = .ok (some f) ∧ f.base = r.base ∧ Leads o f.base f.entries r.later

/-- A store and an answer that cannot be told from a map and an answer. -/
def Agrees (o : Tuning) (x : Store × Except Error Receipt) (y : Snapshots × Except Error Receipt) :
    Prop :=
  Refines o x.1 y.1 ∧ x.2 = y.2

theorem refines_empty (o : Tuning) : Refines o {} empty where
  sound := Store.sound_empty
  find_none := fun _ _ => rfl
  find_some := by
    intro name r h
    cases h

namespace Refines

variable {o : Tuning} {s : Store} {m : Snapshots} {name : Text} {now : Clock}

theorem withFile (h : Refines o s m) (hnow : now.stored.Storable) (base : Text)
    (hname : m name = none) :
    Refines o (s.withFile now.stored name base) (m.set name ⟨base, []⟩) where
  sound := Store.sound_withFile h.sound hnow base
  find_none := by
    intro other hother
    have hne : other ≠ name := by
      rintro rfl
      rw [set_self] at hother
      cases hother
    rw [set_of_ne m _ hne] at hother
    rw [Store.find_create h.sound hnow base (h.find_none name hname), if_neg hne,
      h.find_none other hother]
  find_some := by
    intro other r hother
    rw [Store.find_create h.sound hnow base (h.find_none name hname)]
    by_cases hne : other = name
    · subst hne
      obtain rfl := Option.some.inj ((set_self m other _).symm.trans hother)
      exact ⟨_, if_pos rfl, rfl, .nil base⟩
    · rw [set_of_ne m _ hne] at hother
      rw [if_neg hne]
      exact h.find_some other r hother

theorem withEntry (h : Refines o s m) (hnow : now.Storable) {r : Revisions} {patch t : Text}
    {author : Option Author} (hname : m name = some r)
    (hentry : Entry.apply o r.head ⟨now.made, patch, author⟩ = .ok t) :
    Refines o (s.withEntry now.stored name ⟨now.made, patch, author⟩) (m.set name (r.push t)) := by
  obtain ⟨f, hfind, hbase, hl⟩ := h.find_some name r hname
  have hfind' := Store.find_insert h.sound hnow.stored
    (e := ⟨now.made, patch, author⟩) hnow.made hfind
  refine
    { sound := Store.sound_withEntry h.sound hnow.stored hnow.made (Store.tracks_of_find hfind)
      find_none := ?_
      find_some := ?_ }
  · intro other hother
    have hne : other ≠ name := by
      rintro rfl
      rw [set_self] at hother
      cases hother
    rw [set_of_ne m _ hne] at hother
    rw [hfind', if_neg hne, h.find_none other hother]
  · intro other r' hother
    rw [hfind']
    by_cases hne : other = name
    · subst hne
      obtain rfl := Option.some.inj ((set_self m other _).symm.trans hother)
      rw [Revisions.head, ← hbase] at hentry
      exact ⟨_, if_pos rfl, hbase, hl.snoc hentry⟩
    · rw [set_of_ne m _ hne] at hother
      rw [if_neg hne]
      exact h.find_some other r' hother

/-- A file that is found is one of the map. -/
theorem of_found (h : Refines o s m) {f : TrackedFile} (hfind : s.find name = .ok (some f)) :
    ∃ r, m name = some r ∧ f.base = r.base ∧ Leads o f.base f.entries r.later := by
  cases hname : m name with
  | none =>
      rw [h.find_none name hname] at hfind
      cases hfind
  | some r =>
      obtain ⟨g, hg, hbase, hl⟩ := h.find_some name r hname
      rw [hfind] at hg
      cases hg
      exact ⟨r, rfl, hbase, hl⟩

/-! ### One write -/

/-- A first text. -/
theorem agrees_begin (h : Refines o s m) (hnow : now.Storable) (author : Option Author)
    (expected : Option Nat) (base : Text) (hname : m name = none) :
    Agrees o
      (match (do History.checkLength name expected 0; return History.Plan.create base) with
        | .error e => (s, .error e)
        | .ok plan => History.perform s now name author plan)
      (m.begin name expected base) := by
  unfold begin
  cases History.checkLength name expected 0 with
  | error e => exact ⟨h, rfl⟩
  | ok _ =>
      show Agrees o (History.perform s now name author (.create base)) _
      rw [History.perform_create now author base (h.find_none name hname)]
      exact ⟨h.withFile hnow.stored base hname, rfl⟩

/-- A further text, for which there is an entry that leads to it. -/
theorem agrees_extend (h : Refines o s m) (hnow : now.Storable) (author : Option Author)
    {r : Revisions} {patch t : Text} (hname : m name = some r)
    (hentry : Entry.apply o r.head ⟨now.made, patch, author⟩ = .ok t) :
    Agrees o
      (History.perform s now name author
        (if t = r.head then .answer (.ofCount .noChange r.later.length)
          else .append patch r.later.length))
      (m.extend name r t) := by
  unfold extend
  by_cases hsame : t = r.head
  · rw [if_pos hsame, if_pos hsame]
    exact ⟨h, rfl⟩
  · obtain ⟨f, hfind, -, hl⟩ := h.find_some name r hname
    rw [if_neg hsame, if_neg hsame, hl.length_eq,
      History.perform_append h.sound hnow author patch hfind]
    exact ⟨h.withEntry hnow hname hentry, rfl⟩

theorem save (h : Refines o s m) (hm : o.patchMargin < sizeLimit) (hnow : now.Storable)
    (q : Submission) (hshort : (m.save q).1.Short) :
    Agrees o (History.save o s now q) (m.save q) := by
  cases hname : m q.name with
  | none =>
      simp only [Snapshots.save, History.save, hname, h.find_none _ hname]
      exact h.agrees_begin hnow q.author q.expected q.content hname
  | some r =>
      obtain ⟨f, hfind, hbase, hl⟩ := h.find_some _ r hname
      simp only [Snapshots.save, hname] at hshort
      simp only [Snapshots.save, History.save, hname, hfind]
      cases hlen : History.checkLength q.name q.expected r.later.length with
      | error e =>
          rw [History.planText_refused hl q hlen]
          exact ⟨h, rfl⟩
      | ok _ =>
          -- both texts are short enough, for they are among those that are there afterwards
          rw [hlen] at hshort
          obtain ⟨hhead, hcontent⟩ := Short.of_extend hname hshort
          rw [Revisions.head, ← hbase] at hhead
          obtain ⟨patch, hplan, hentry⟩ := History.planText_found hl hm q hlen hhead hcontent
          rw [hplan, hbase]
          exact h.agrees_extend hnow q.author hname
            (by simpa only [Revisions.head, hbase] using hentry now.made q.author)

theorem savePatch (h : Refines o s m) (hnow : now.Storable) (q : PatchSubmission) :
    Agrees o (History.savePatch o s now q) (m.savePatch o q) := by
  unfold Snapshots.savePatch History.savePatch
  cases hp : Patch.parse q.patch with
  | error cause => exact ⟨h, rfl⟩
  | ok p =>
      cases hname : m q.name with
      | none =>
          simp only [h.find_none _ hname]
          cases hcontent : q.content with
          | none =>
              simp only [History.planPatch, hcontent]
              exact ⟨h, rfl⟩
          | some base =>
              simp only [History.planPatch, hcontent]
              exact h.agrees_begin hnow q.author q.expected base hname
      | some r =>
          obtain ⟨f, hfind, hbase, hl⟩ := h.find_some _ r hname
          simp only [hfind]
          cases hlen : History.checkLength q.name q.expected r.later.length with
          | error e =>
              rw [History.planPatch_refused hl p q hlen]
              exact ⟨h, rfl⟩
          | ok _ =>
              rw [History.planPatch_found hl p q hlen, hbase,
                show r.later.getLastD r.base = r.head from rfl]
              cases happly : o.applyStrict p r.head with
              | error cause => exact ⟨h, rfl⟩
              | ok t =>
                  by_cases hdiff : q.content.any (· != t) = true
                  · simp only [if_pos hdiff]
                    exact ⟨h, rfl⟩
                  · simp only [if_neg hdiff]
                    have hentry := Entry.apply_print o (Patch.wellFormed_of_parse hp) r.head
                      now.made q.author
                    exact h.agrees_extend hnow q.author hname (hentry.trans happly)

/-- A write keeps the store in step with the map and is answered alike. -/
theorem write (h : Refines o s m) (hm : o.patchMargin < sizeLimit) (hnow : now.Storable) (w : Write)
    (hshort : (m.write o w).1.Short) : Agrees o (w.save o s now) (m.write o w) := by
  cases w with
  | text q => exact h.save hm hnow q hshort
  | patch q => exact h.savePatch hnow q

/-! ### Many writes -/

theorem run (h : Refines o s m) (hm : o.patchMargin < sizeLimit) (calls : List (Clock × Write))
    (hclock : ∀ c ∈ calls, c.1.Storable) (hshort : (m.run o (calls.map Prod.snd)).1.Short) :
    Refines o (s.run o calls).1 (m.run o (calls.map Prod.snd)).1 ∧
      (s.run o calls).2 = (m.run o (calls.map Prod.snd)).2 := by
  induction calls generalizing s m with
  | nil => exact ⟨h, rfl⟩
  | cons c calls ih =>
      obtain ⟨now, w⟩ := c
      have hnow := hclock _ List.mem_cons_self
      have hrest := fun c hc => hclock c (List.mem_cons_of_mem _ hc)
      have hshort' : (m.write o w).1.Short := hshort.of_grows (grows_run o _ _)
      obtain ⟨hrefines, hanswer⟩ := h.write hm hnow w hshort'
      obtain ⟨hfinal, hanswers⟩ := ih hrefines hrest hshort
      exact ⟨hfinal, List.cons_eq_cons.mpr ⟨hanswer, hanswers⟩⟩

/-! ### Reading -/

theorem versionAt {f : TrackedFile} {r : Revisions} (hbase : f.base = r.base)
    (hl : Leads o f.base f.entries r.later) (which : VersionName) :
    f.versionAt o which = .ok (r.version which) := by
  rw [TrackedFile.versionAt_eq hl, hbase, Revisions.read_eq]
  rfl

theorem latest (h : Refines o s m) (name : Text) :
    History.latest o s name = .ok (m.latest name) := by
  unfold History.latest Snapshots.latest
  cases hname : m name with
  | none =>
      rw [h.find_none name hname]
      rfl
  | some r =>
      obtain ⟨f, hfind, hbase, hl⟩ := h.find_some name r hname
      simp only [hfind, versionAt hbase hl, bind, Except.bind, Store.name_of_find hfind]
      rfl

theorem version (h : Refines o s m) (name : Text) (which : VersionName) :
    History.version o s name which = m.version name which := by
  unfold History.version History.tracked Snapshots.version
  cases hname : m name with
  | none =>
      rw [h.find_none name hname]
      rfl
  | some r =>
      obtain ⟨f, hfind, hbase, hl⟩ := h.find_some name r hname
      simp only [hfind, versionAt hbase hl, bind, Except.bind]

theorem difference (h : Refines o s m) (name : Text) (old new : VersionName) :
    History.difference o s name old new = m.difference name old new := by
  unfold History.difference History.tracked Snapshots.difference
  cases hname : m name with
  | none =>
      rw [h.find_none name hname]
      rfl
  | some r =>
      obtain ⟨f, hfind, hbase, hl⟩ := h.find_some name r hname
      simp only [hfind, versionAt hbase hl, bind, Except.bind]
      rfl

theorem tracks (h : Refines o s m) (name : Text) : s.tracks name = (m name).isSome := by
  cases hname : m name with
  | none => exact Store.find_eq_none_iff.mp (h.find_none name hname)
  | some r =>
      obtain ⟨f, hfind, -⟩ := h.find_some name r hname
      exact Store.tracks_of_find hfind

theorem count (h : Refines o s m) (name : Text) :
    s.count name = (m name).elim 0 fun r => r.later.length := by
  cases hname : m name with
  | none =>
      have htracks := Store.find_eq_none_iff.mp (h.find_none name hname)
      rw [Store.count_eq, Store.rows_eq_nil h.sound htracks]
      rfl
  | some r =>
      obtain ⟨f, hfind, -, hl⟩ := h.find_some name r hname
      rw [Store.count_of_find hfind, ← hl.length_eq]
      rfl

end Refines

end Snapshots

/-! ## The refinement -/

/-- **A history is a store of full texts.** Whatever is written to it, in whatever order, every
write is answered as the map of snapshots answers it, the same files are tracked, and the latest
text, every version and the difference of any two read alike. -/
theorem Store.run_refines_snapshots (o : Tuning) (hm : o.patchMargin < sizeLimit)
    (calls : List (Clock × Write)) (hclock : ∀ c ∈ calls, c.1.Storable)
    (hshort : (Snapshots.empty.run o (calls.map Prod.snd)).1.Short) :
    (({} : Store).run o calls).2 = (Snapshots.empty.run o (calls.map Prod.snd)).2 ∧
      ∀ name, let s := (({} : Store).run o calls).1
        let m := (Snapshots.empty.run o (calls.map Prod.snd)).1
        s.tracks name = (m name).isSome ∧
        History.latest o s name = .ok (m.latest name) ∧
        (∀ which, History.version o s name which = m.version name which) ∧
        ∀ old new, History.difference o s name old new = m.difference name old new := by
  obtain ⟨hrefines, hanswers⟩ := (Snapshots.refines_empty o).run hm calls hclock hshort
  exact ⟨hanswers, fun name => ⟨hrefines.tracks name, hrefines.latest name,
    hrefines.version name, hrefines.difference name⟩⟩

/-- A file of two texts, written at the start of a year. -/
theorem Store.run_refines_snapshots_two :
    let o : Tuning := {}
    let calls : List (Clock × Write) :=
      [(.newYear, .text { name := ['a'], content := ['x'] }),
        (.newYear, .text { name := ['a'], content := ['x', '\n', 'y'] })]
    (∀ c ∈ calls, c.1.Storable) ∧ (Snapshots.empty.run o (calls.map Prod.snd)).1.Short ∧
      (({} : Store).run o calls).2
        = [.ok ⟨.baseCreated, 0, none⟩, .ok ⟨.patchAppended, 1, some 0⟩] ∧
      History.version o (({} : Store).run o calls).1 ['a'] (.index 7)
        = .ok ⟨['x', '\n', 'y'], some 0, 1⟩ := by
  intro o calls
  have hclock : ∀ c ∈ calls, c.1.Storable := by
    intro c hc
    have hnow : c.1 = .newYear := by
      rcases List.mem_cons.mp hc with rfl | hc
      · rfl
      · rw [List.mem_singleton.mp hc]
    rw [hnow]
    exact Clock.storable_newYear
  have hshort : (Snapshots.empty.run o (calls.map Prod.snd)).1.Short :=
    (Snapshots.short_empty.set ['a'] (by decide)).set ['a'] (by decide)
  obtain ⟨hanswers, hreads⟩ := Store.run_refines_snapshots o (by decide) calls hclock hshort
  exact ⟨hclock, hshort, hanswers, (hreads ['a']).2.2.1 (.index 7)⟩

end TextHistory
