import TextHistory.Proofs.History.Planning

/-!
# Writes at the same time

Any number of calls write to one store. A call reads the file and plans its write, then does the
one transaction it has planned, and after an entry was added it reads the file again
(`Write.step`); left alone it does what the write does (`Write.step_alone`). A run is any order of
such steps (`World.run`), and what one step can do is said once (`Write.Transition`).

The store only grows under all this (`World.extends_run`). What carries the argument is that a
plan is never further off than the file it was made from is behind: that file stays a beginning of
the one in the store (`World.Inv`), and it is the same one when the chain has the same length.
-/

set_option autoImplicit false

namespace TextHistory

/-! ## The steps of a call -/

/-- How far a call has come. -/
inductive Phase where
  | waiting
  /-- The file was found and the write planned. -/
  | planned (found : Option TrackedFile) (plan : History.Plan)
  /-- The entry is in its chain, which had the given length before; the file is to be read again. -/
  | appended (length : Nat)
  | answered (answer : Except Error Receipt)

/-- The next step of a call, which is one transaction of the store at most. -/
def Write.step (o : Tuning) (w : Write) (s : Store) (now : Clock) : Phase → Store × Phase
  | .waiting =>
    match w.begin o s with
    | .error e => (s, .answered (.error e))
    | .ok (found, plan) => (s, .planned found plan)
  | .planned _ (.answer receipt) => (s, .answered (.ok receipt))
  | .planned _ (.create base) =>
    let (s, r) := s.create now.stored w.name base
    (s, .answered (r.map fun _ => .ofCount .baseCreated 0))
  | .planned _ (.append delta length) =>
    match s.insert now.stored w.name ⟨now.made, delta, w.author⟩ (some length) with
    | .error e => (s, .answered (.error e))
    | .ok s => (s, .appended length)
  | .appended _ =>
    (s, .answered ((s.reread w.name).map fun f => .ofCount .patchAppended f.entries.length))
  | .answered answer => (s, .answered answer)

/-- Three steps of a call and nothing in between are the whole write. -/
theorem Write.step_alone (o : Tuning) (w : Write) (s : Store) (now : Clock) :
    let first := w.step o s now .waiting
    let second := w.step o first.1 now first.2
    w.step o second.1 now second.2 = ((w.save o s now).1, .answered (w.save o s now).2) := by
  intro first second
  rw [Write.save_eq]
  simp only [first, second, Write.step]
  cases w.begin o s with
  | error e => rfl
  | ok begun =>
      obtain ⟨found, plan⟩ := begun
      cases plan with
      | answer receipt => rfl
      | create base => rfl
      | append patch length =>
          simp only [History.perform, Store.append]
          cases s.insert now.stored w.name ⟨now.made, patch, w.author⟩ (some length) with
          | error e => rfl
          | ok s' => rfl

/-- What a step of a call can do. -/
inductive Write.Transition (o : Tuning) (w : Write) (s : Store) (now : Clock) :
    Phase → Store → Phase → Prop where
  | refused {e : Error} : w.begin o s = .error e →
      Transition o w s now .waiting s (.answered (.error e))
  | plan {found : Option TrackedFile} {plan : History.Plan} : w.begin o s = .ok (found, plan) →
      Transition o w s now .waiting s (.planned found plan)
  | answer (found : Option TrackedFile) (receipt : Receipt) :
      Transition o w s now (.planned found (.answer receipt)) s (.answered (.ok receipt))
  | taken (found : Option TrackedFile) (base : Text) {f : TrackedFile} :
      s.find w.name = .ok (some f) →
      Transition o w s now (.planned found (.create base)) s
        (.answered (.error (.alreadyExists w.name)))
  | create (found : Option TrackedFile) (base : Text) : s.find w.name = .ok none →
      Transition o w s now (.planned found (.create base)) (s.withFile now.stored w.name base)
        (.answered (.ok (.ofCount .baseCreated 0)))
  | missing (found : Option TrackedFile) (patch : Text) (n : Nat) : s.find w.name = .ok none →
      Transition o w s now (.planned found (.append patch n)) s
        (.answered (.error (.notFound w.name)))
  | stale (found : Option TrackedFile) (patch : Text) {n : Nat} {f : TrackedFile} :
      s.find w.name = .ok (some f) → n ≠ f.entries.length →
      Transition o w s now (.planned found (.append patch n)) s
        (.answered (.error (.conflict w.name n f.entries.length)))
  | append (found : Option TrackedFile) (patch : Text) {f : TrackedFile} :
      s.find w.name = .ok (some f) →
      Transition o w s now (.planned found (.append patch f.entries.length))
        (s.withEntry now.stored w.name ⟨now.made, patch, w.author⟩) (.appended f.entries.length)
  | reread (n : Nat) {f : TrackedFile} : s.find w.name = .ok (some f) →
      Transition o w s now (.appended n) s
        (.answered (.ok (.ofCount .patchAppended f.entries.length)))
  | vanished (n : Nat) : s.find w.name = .ok none →
      Transition o w s now (.appended n) s (.answered (.error (.notFound w.name)))
  | done (answer : Except Error Receipt) :
      Transition o w s now (.answered answer) s (.answered answer)

theorem Write.transition_step (o : Tuning) (w : Write) {s : Store} (hs : s.Sound) (now : Clock)
    (p : Phase) : w.Transition o s now p (w.step o s now p).1 (w.step o s now p).2 := by
  obtain ⟨found, hfind⟩ := Store.find_ok hs w.name
  cases p with
  | waiting =>
      simp only [step]
      cases hbegin : w.begin o s with
      | error e => exact .refused hbegin
      | ok begun => exact .plan hbegin
  | planned read plan =>
      cases plan with
      | answer receipt => exact .answer read receipt
      | create base =>
          cases found with
          | none =>
              simp only [step, Store.create_of_untracked (Store.find_eq_none_iff.mp hfind)]
              exact .create read base hfind
          | some f =>
              simp only [step, Store.create_of_tracked (Store.tracks_of_find hfind)]
              exact .taken read base hfind
      | append patch n =>
          cases found with
          | none =>
              simp only [step, Store.insert_of_untracked now.stored _ _ hfind]
              exact .missing read patch n hfind
          | some f =>
              simp only [step, Store.insert_of_found now.stored _ hfind]
              by_cases hn : n = f.entries.length
              · subst hn
                rw [if_pos rfl]
                exact .append read patch hfind
              · rw [if_neg hn]
                exact .stale read patch hfind hn
  | appended n =>
      cases found with
      | none =>
          simp only [step, Store.reread, hfind, bind, Except.bind]
          exact .vanished n hfind
      | some f =>
          simp only [step, Store.reread, hfind, bind, Except.bind]
          exact .reread n hfind
  | answered answer => exact .done answer

/-! ## Runs -/

/-- The next step of one of the calls, with what the clock shows it. An entry may have been made
some time before the step that stores it. -/
structure Move where
  call : Nat
  now : Clock
  deriving DecidableEq, Repr

/-- The store and all calls. -/
structure World where
  store : Store := {}
  phase : Nat → Phase := fun _ => .waiting

namespace World

/-- One step of a call; the other calls stay where they are. -/
def step (o : Tuning) (requests : Nat → Write) (w : World) (m : Move) : World :=
  let next := (requests m.call).step o w.store m.now (w.phase m.call)
  { store := next.1
    phase := fun i => if i = m.call then next.2 else w.phase i }

/-- The steps of some calls, in the order in which they come. -/
def run (o : Tuning) (requests : Nat → Write) (w : World) (moves : List Move) : World :=
  moves.foldl (step o requests) w

variable {o : Tuning} {requests : Nat → Write} {w : World} {m : Move} {moves rest : List Move}

theorem run_append :
    run o requests w (moves ++ rest) = run o requests (run o requests w moves) rest :=
  List.foldl_append

theorem run_cons : run o requests w (m :: rest) = run o requests (step o requests w m) rest := rfl

theorem phase_step_self :
    (step o requests w m).phase m.call
      = ((requests m.call).step o w.store m.now (w.phase m.call)).2 := if_pos rfl

theorem phase_step_of_ne {i : Nat} (h : i ≠ m.call) :
    (step o requests w m).phase i = w.phase i := if_neg h

/-- A step, as a transition of the call that makes it. -/
theorem transition (o : Tuning) (requests : Nat → Write) (m : Move) (hs : w.store.Sound) :
    (requests m.call).Transition o w.store m.now (w.phase m.call) (step o requests w m).store
      ((step o requests w m).phase m.call) := by
  rw [phase_step_self]
  exact Write.transition_step o _ hs m.now _

/-! ### The store grows -/

theorem grows_step (o : Tuning) (requests : Nat → Write) (hs : w.store.Sound)
    (hnow : m.now.Storable) :
    (step o requests w m).store.Sound ∧ w.store.Extends (step o requests w m).store := by
  have h := transition o requests m hs
  generalize (step o requests w m).store = s' at h ⊢
  generalize (step o requests w m).phase m.call = p' at h
  generalize w.phase m.call = p at h
  -- only two of the steps write
  cases h with
  | create read base hfind =>
      exact ⟨Store.sound_withFile hs hnow.stored base,
        Store.extends_withFile hs hnow.stored base hfind⟩
  | append read patch hfind =>
      exact ⟨Store.sound_withEntry hs hnow.stored hnow.made (Store.tracks_of_find hfind),
        Store.extends_withEntry hs hnow.stored hnow.made hfind⟩
  | _ => exact ⟨hs, Store.Extends.refl _⟩

/-- **Nothing that was found is lost** in a run: bases stay, and chains only grow. -/
theorem grows_run (o : Tuning) (requests : Nat → Write) (hs : w.store.Sound)
    (hclock : ∀ m ∈ moves, m.now.Storable) :
    (run o requests w moves).store.Sound ∧ w.store.Extends (run o requests w moves).store := by
  induction moves generalizing w with
  | nil => exact ⟨hs, Store.Extends.refl _⟩
  | cons m moves ih =>
      obtain ⟨hsound, hext⟩ := grows_step o requests hs (hclock m List.mem_cons_self)
      obtain ⟨hsound', hext'⟩ := ih hsound fun m hm => hclock m (List.mem_cons_of_mem _ hm)
      exact ⟨hsound', hext.trans hext'⟩

end World

/-! ## Plans stay true to what was read -/

/-- A text that is handed in is one that can be. -/
def Write.Short : Write → Prop
  | .text q => q.content.length < sizeLimit
  | .patch _ => True

/-- The plan of a write for a file whose chain leads somewhere: an entry that leads from the latest
text to the one the write is to make of it, or nothing. -/
def Write.Fits (o : Tuning) (w : Write) (f : TrackedFile) (plan : History.Plan) : Prop :=
  ∃ us, Leads o f.base f.entries us ∧
    ((∃ receipt, plan = .answer receipt ∧ receipt.effect = .noChange) ∨
      ∃ delta t, plan = .append delta f.entries.length ∧ w.result o (us.getLastD f.base) = .ok t ∧
        ∀ timestamp author,
          Entry.apply o (us.getLastD f.base) ⟨timestamp, delta, author⟩ = .ok t)

namespace Write

variable {o : Tuning} {f : TrackedFile} {us : List Text} {plan : History.Plan}

theorem fits_planText (hm : o.patchMargin < sizeLimit) {q : Submission}
    (hl : Leads o f.base f.entries us) (hhead : (us.getLastD f.base).length < sizeLimit)
    (hcontent : q.content.length < sizeLimit) (h : History.planText o (some f) q = .ok plan) :
    (Write.text q).Fits o f plan := by
  refine ⟨us, hl, ?_⟩
  cases hlen : History.checkLength q.name q.expected us.length with
  | error e =>
      rw [History.planText_refused hl q hlen] at h
      cases h
  | ok _ =>
      obtain ⟨delta, hdelta, hentry⟩ := History.planText_found hl hm q hlen hhead hcontent
      rw [hdelta] at h
      cases h
      split
      · exact Or.inl ⟨_, rfl, rfl⟩
      · exact Or.inr ⟨delta, q.content, by rw [hl.length_eq], rfl, hentry⟩

theorem fits_planPatch {p : Patch} {q : PatchSubmission} (hp : Patch.parse q.patch = .ok p)
    (hl : Leads o f.base f.entries us) (h : History.planPatch o (some f) p q = .ok plan) :
    (Write.patch q).Fits o f plan := by
  refine ⟨us, hl, ?_⟩
  cases hlen : History.checkLength q.name q.expected us.length with
  | error e =>
      rw [History.planPatch_refused hl p q hlen] at h
      cases h
  | ok _ =>
      rw [History.planPatch_found hl p q hlen] at h
      cases happly : o.applyStrict p (us.getLastD f.base) with
      | error cause =>
          rw [happly] at h
          cases h
      | ok t =>
          simp only [happly] at h
          split at h
          · cases h
          · cases h
            split
            · exact Or.inl ⟨_, rfl, rfl⟩
            · refine Or.inr ⟨p.print, t, by rw [hl.length_eq], ?_, fun timestamp author => ?_⟩
              · simp only [result, hp]
                exact happly
              · rw [Entry.apply_print o (Patch.wellFormed_of_parse hp), happly]

theorem planText_none {q : Submission} (h : History.planText o none q = .ok plan) :
    ∃ base, plan = .create base := by
  obtain ⟨-, -, h⟩ := Outcome.bind_eq_ok_iff.mp h
  cases h
  exact ⟨q.content, rfl⟩

theorem planPatch_none {p : Patch} {q : PatchSubmission}
    (h : History.planPatch o none p q = .ok plan) : ∃ base, plan = .create base := by
  unfold History.planPatch at h
  dsimp only at h
  split at h
  · cases h
  · next base _ =>
    obtain ⟨-, -, h⟩ := Outcome.bind_eq_ok_iff.mp h
    cases h
    exact ⟨base, rfl⟩

/-- What a call knows after its first step. -/
theorem begin_spec (hm : o.patchMargin < sizeLimit) {s : Store} {w : Write} (hw : w.Short)
    {found : Option TrackedFile}
    (hleads : ∀ f, s.find w.name = .ok (some f) →
      ∃ us, Leads o f.base f.entries us ∧ (us.getLastD f.base).length < sizeLimit)
    (h : w.begin o s = .ok (found, plan)) :
    s.find w.name = .ok found ∧
      match found with
      | none => ∃ base, plan = .create base
      | some f => w.Fits o f plan := by
  cases w with
  | text q =>
      obtain ⟨found', hfind, h⟩ := Outcome.bind_eq_ok_iff.mp h
      obtain ⟨plan', hplan, h⟩ := Outcome.bind_eq_ok_iff.mp h
      cases h
      refine ⟨hfind, ?_⟩
      cases found with
      | none => exact planText_none hplan
      | some f =>
          obtain ⟨us, hl, hhead⟩ := hleads f hfind
          exact fits_planText hm hl hhead hw hplan
  | patch q =>
      simp only [begin] at h
      cases hp : Patch.parse q.patch with
      | error cause =>
          rw [hp] at h
          cases h
      | ok p =>
          rw [hp] at h
          obtain ⟨found', hfind, h⟩ := Outcome.bind_eq_ok_iff.mp h
          obtain ⟨plan', hplan, h⟩ := Outcome.bind_eq_ok_iff.mp h
          cases h
          refine ⟨hfind, ?_⟩
          cases found with
          | none => exact planPatch_none hplan
          | some f =>
              obtain ⟨us, hl, -⟩ := hleads f hfind
              exact fits_planPatch hp hl hplan

end Write

namespace World

variable {o : Tuning} {requests : Nat → Write} {w : World} {m : Move} {moves rest : List Move}

/-- Every version that can be read is a text that can be. -/
def Short (o : Tuning) (w : World) : Prop :=
  ∀ name which v, History.version o w.store name which = .ok v → v.content.length < sizeLimit

/-- The plan of a call fits the file that it read, and that file is a beginning of the one in the
store. -/
def Behind (o : Tuning) (q : Write) (s : Store) : Option TrackedFile → History.Plan → Prop
  | none, plan => ∃ base, plan = .create base
  | some f, plan => q.Fits o f plan ∧
    ∃ g, s.find q.name = .ok (some g) ∧ g.base = f.base ∧ f.entries <+: g.entries

/-- What holds in every state of a run. -/
structure Inv (o : Tuning) (requests : Nat → Write) (w : World) : Prop where
  sound : w.store.Sound
  leads : ∀ name f, w.store.find name = .ok (some f) → ∃ us, Leads o f.base f.entries us
  planned : ∀ i found plan, w.phase i = .planned found plan →
    Behind o (requests i) w.store found plan
  appended : ∀ i n, w.phase i = .appended n →
    ∃ g, w.store.find (requests i).name = .ok (some g) ∧ n < g.entries.length

theorem inv_empty (o : Tuning) (requests : Nat → Write) : Inv o requests {} where
  sound := Store.sound_empty
  leads := by
    intro name f h
    cases h
  planned := by
    intro i found plan h
    cases h
  appended := by
    intro i n h
    cases h

theorem Behind.of_extends {q : Write} {s s' : Store} {found : Option TrackedFile}
    {plan : History.Plan} (h : Behind o q s found plan) (hext : s.Extends s') :
    Behind o q s' found plan := by
  cases found with
  | none => exact h
  | some f =>
      obtain ⟨hfits, g, hg, hbase, hentries⟩ := h
      obtain ⟨g', hg', hbase', hentries'⟩ := hext _ g hg
      exact ⟨hfits, g', hg', hbase'.trans hbase, hentries.trans hentries'⟩

/-- **No plan is stale when it is carried out.** An append goes through only while the chain is as
long as the one that was read, and then it is that chain. -/
theorem Behind.eq_of_length {q : Write} {s : Store} {found : Option TrackedFile} {delta : Text}
    {g : TrackedFile} (h : Behind o q s found (.append delta g.entries.length))
    (hg : s.find q.name = .ok (some g)) :
    ∃ f us t, found = some f ∧ g.base = f.base ∧ g.entries = f.entries ∧
      Leads o f.base f.entries us ∧ q.result o (us.getLastD f.base) = .ok t ∧
      ∀ timestamp author,
        Entry.apply o (us.getLastD f.base) ⟨timestamp, delta, author⟩ = .ok t := by
  cases found with
  | none =>
      obtain ⟨base, hplan⟩ := h
      cases hplan
  | some f =>
      obtain ⟨⟨us, hl, hplan⟩, g', hg', hbase, hentries⟩ := h
      obtain rfl : g = g' := by simpa [hg] using hg'
      rcases hplan with ⟨receipt, hplan, -⟩ | ⟨delta', t, hplan, hresult, hentry⟩
      · cases hplan
      · obtain ⟨rfl, hlength⟩ := History.Plan.append.inj hplan
        exact ⟨f, us, t, rfl, hbase, (hentries.eq_of_length hlength.symm).symm, hl, hresult,
          hentry⟩

theorem Inv.begin_leads (h : Inv o requests w) (hshort : w.Short o) {name : Text} {f : TrackedFile}
    (hf : w.store.find name = .ok (some f)) :
    ∃ us, Leads o f.base f.entries us ∧ (us.getLastD f.base).length < sizeLimit := by
  obtain ⟨us, hl⟩ := h.leads name f hf
  refine ⟨us, hl, ?_⟩
  have hlatest : History.version o w.store name .latest
      = .ok ⟨us.getLastD f.base, VersionName.latest.resolve us.length, us.length⟩ := by
    simp only [History.version, History.tracked, hf, bind, Except.bind,
      TrackedFile.versionAt_latest hl]
  exact hshort name .latest _ hlatest

theorem Inv.leads_step (h : Inv o requests w) (hnow : m.now.Storable) {name : Text}
    {f : TrackedFile} (hf : (step o requests w m).store.find name = .ok (some f)) :
    ∃ us, Leads o f.base f.entries us := by
  have ht := transition o requests m h.sound
  have hplanned := h.planned m.call
  generalize (step o requests w m).store = s' at ht hf
  generalize (step o requests w m).phase m.call = p' at ht
  generalize w.phase m.call = p at ht hplanned
  cases ht with
  | create read base hfind =>
      rw [Store.find_create h.sound hnow.stored base hfind] at hf
      split at hf
      · cases hf
        exact ⟨[], .nil base⟩
      · exact h.leads name f hf
  | append read patch hfind =>
      rw [Store.find_insert h.sound hnow.stored hnow.made hfind] at hf
      split at hf
      · -- the chain is the one the plan was made for, so the entry goes on from its last text
        cases hf
        obtain ⟨f, us, t, -, hbase, hentries, hl, -, hentry⟩ :=
          (hplanned _ _ rfl).eq_of_length hfind
        refine ⟨us ++ [t], ?_⟩
        show Leads o _ (_ ++ [_]) _
        rw [hbase, hentries]
        exact hl.snoc (hentry m.now.made (requests m.call).author)
      · exact h.leads name f hf
  | _ => exact h.leads name f hf

theorem Inv.planned_step (h : Inv o requests w) (hm : o.patchMargin < sizeLimit)
    (hrequests : ∀ i, (requests i).Short) (hshort : w.Short o) (hnow : m.now.Storable) {i : Nat}
    {found : Option TrackedFile} {plan : History.Plan}
    (hp : (step o requests w m).phase i = .planned found plan) :
    Behind o (requests i) (step o requests w m).store found plan := by
  by_cases hi : i = m.call
  · -- a call has a plan only after it has read its file just now
    subst hi
    have ht := transition o requests m h.sound
    rw [hp] at ht
    generalize (step o requests w m).store = s' at ht ⊢
    generalize w.phase m.call = p at ht
    cases ht with
    | plan hbegin =>
        obtain ⟨hfind, hplan⟩ := Write.begin_spec hm (hrequests m.call)
          (fun f hf => h.begin_leads hshort hf) hbegin
        cases found with
        | none => exact hplan
        | some f => exact ⟨hplan, f, hfind, rfl, List.prefix_rfl⟩
  · -- the plans of the others stay what they were while the store grows
    rw [phase_step_of_ne hi] at hp
    exact (h.planned i found plan hp).of_extends (grows_step o requests h.sound hnow).2

theorem Inv.appended_step (h : Inv o requests w) (hnow : m.now.Storable) {i n : Nat}
    (hp : (step o requests w m).phase i = .appended n) :
    ∃ g, (step o requests w m).store.find (requests i).name = .ok (some g) ∧
      n < g.entries.length := by
  by_cases hi : i = m.call
  · subst hi
    have ht := transition o requests m h.sound
    rw [hp] at ht
    generalize (step o requests w m).store = s' at ht ⊢
    generalize w.phase m.call = p at ht
    cases ht with
    | append read patch hfind =>
        rw [Store.find_insert h.sound hnow.stored hnow.made hfind, if_pos rfl]
        exact ⟨_, rfl, by simp⟩
  · rw [phase_step_of_ne hi] at hp
    obtain ⟨g, hg, hn⟩ := h.appended i n hp
    obtain ⟨g', hg', -, hentries⟩ := (grows_step o requests h.sound hnow).2 _ g hg
    exact ⟨g', hg', Nat.lt_of_lt_of_le hn hentries.length_le⟩

/-- One step of any call keeps the invariant. -/
theorem Inv.step (h : Inv o requests w) (hm : o.patchMargin < sizeLimit)
    (hrequests : ∀ i, (requests i).Short) (hshort : w.Short o) (hnow : m.now.Storable) :
    Inv o requests (step o requests w m) where
  sound := (grows_step o requests h.sound hnow).1
  leads := fun _ _ => h.leads_step hnow
  planned := fun _ _ _ => h.planned_step hm hrequests hshort hnow
  appended := fun _ _ => h.appended_step hnow

/-- **The invariant holds in every state of every run.** -/
theorem Inv.run (h : Inv o requests w) (hm : o.patchMargin < sizeLimit)
    (hrequests : ∀ i, (requests i).Short)
    (hshort : ∀ before, before <+: moves → (run o requests w before).Short o)
    (hclock : ∀ m ∈ moves, m.now.Storable) : Inv o requests (run o requests w moves) := by
  induction moves generalizing w with
  | nil => exact h
  | cons m moves ih =>
      have hstep := h.step hm hrequests (hshort [] List.nil_prefix)
        (hclock m List.mem_cons_self)
      refine ih hstep (fun before hbefore => ?_)
        fun m' hm' => hclock m' (List.mem_cons_of_mem _ hm')
      exact hshort (m :: before) ((List.prefix_cons_inj m).mpr hbefore)

end World

end TextHistory
