import TextHistory.Proofs.History.Interleaving

/-!
# What a run commits

In a run of any number of calls every entry is added to the very chain that its call had read, so
the chain goes on to the text that the call was to make (`World.Inv.appends`). From then on the
text is read under the place of its entry, because chains only grow. A call that has written is
answered with a receipt in the end, so one that is answered with an error has written nothing
(`World.store_of_refused`).
-/

set_option autoImplicit false

namespace TextHistory

/-- The call has changed the store. -/
def Phase.Committed : Phase → Prop
  | .appended _ => True
  | .answered (.ok _) => True
  | _ => False

namespace World

variable {o : Tuning} {requests : Nat → Write} {w : World} {m : Move}
  {moves before rest : List Move}

/-- The world after some steps, from an empty store on. -/
def after (o : Tuning) (requests : Nat → Write) (moves : List Move) : World :=
  run o requests {} moves

theorem after_append :
    after o requests (before ++ rest) = run o requests (after o requests before) rest :=
  run_append

theorem after_snoc :
    after o requests (moves ++ [m]) = step o requests (after o requests moves) m := by
  rw [after_append]
  rfl

/-- The next step of a call adds an entry to a chain that is to have the given length. -/
def Appends (requests : Nat → Write) (w : World) (m : Move) (found : Option TrackedFile)
    (e : Entry) (length : Nat) : Prop :=
  w.phase m.call = .planned found (.append e.patch length) ∧
    e = ⟨m.now.made, e.patch, (requests m.call).author⟩ ∧
    ∃ s, w.store.insert m.now.stored (requests m.call).name e (some length) = .ok s

/-! ## Entries -/

/-- The next step of a call that adds an entry, in full. -/
theorem Appends.store_eq (hs : w.store.Sound) {found : Option TrackedFile} {e : Entry} {n : Nat}
    (h : Appends requests w m found e n) :
    ∃ g, w.store.find (requests m.call).name = .ok (some g) ∧ n = g.entries.length ∧
      (step o requests w m).store = w.store.withEntry m.now.stored (requests m.call).name e ∧
      (step o requests w m).phase m.call = .appended n := by
  obtain ⟨hphase, he, s, hinsert⟩ := h
  obtain ⟨read, hfind⟩ := Store.find_ok hs (requests m.call).name
  cases read with
  | none =>
      rw [Store.insert_of_untracked m.now.stored e _ hfind] at hinsert
      cases hinsert
  | some g =>
      rw [Store.insert_of_found m.now.stored e hfind] at hinsert
      split at hinsert
      · next hn =>
        have hinsert' := Store.insert_of_found m.now.stored e hfind n
        rw [if_pos hn] at hinsert'
        have hstep : (requests m.call).step o w.store m.now (w.phase m.call)
            = (w.store.withEntry m.now.stored (requests m.call).name e, .appended n) := by
          rw [hphase]
          simp only [Write.step]
          rw [← he, hinsert']
        refine ⟨g, hfind, hn, ?_, ?_⟩
        · show ((requests m.call).step o w.store m.now (w.phase m.call)).1 = _
          rw [hstep]
        · rw [phase_step_self, hstep]
      · cases hinsert

/-- **An entry is added to the chain its call has read**, and leads on to the text of the call. -/
theorem Inv.appends (h : Inv o requests w) {found : Option TrackedFile} {e : Entry} {n : Nat}
    (ha : Appends requests w m found e n) :
    ∃ f g us t, found = some f ∧ w.store.find (requests m.call).name = .ok (some g) ∧
      g.base = f.base ∧ g.entries = f.entries ∧ n = f.entries.length ∧
      Leads o f.base f.entries us ∧ (requests m.call).result o (us.getLastD f.base) = .ok t ∧
      e.apply o (us.getLastD f.base) = .ok t := by
  obtain ⟨g, hg, hn, -, -⟩ := ha.store_eq (o := o) h.sound
  obtain ⟨hphase, he, -⟩ := ha
  rw [hn] at hphase
  obtain ⟨f, us, t, hfound, hbase, hentries, hl, hresult, hentry⟩ :=
    (h.planned m.call found _ hphase).eq_of_length hg
  refine ⟨f, g, us, t, hfound, hg, hbase, hentries, by rw [hn, hentries], hl, hresult, ?_⟩
  rw [he]
  exact hentry m.now.made (requests m.call).author

/-- The chain with the new entry. -/
theorem find_of_appends (hs : w.store.Sound) (hnow : m.now.Storable)
    {found : Option TrackedFile} {e : Entry} {n : Nat} (ha : Appends requests w m found e n)
    {g : TrackedFile} (hg : w.store.find (requests m.call).name = .ok (some g)) :
    n = g.entries.length ∧ (step o requests w m).store.find (requests m.call).name
      = .ok (some { g with entries := g.entries ++ [e], updatedAt := m.now.stored }) := by
  obtain ⟨g', hg', hn, hstore, -⟩ := ha.store_eq (o := o) hs
  obtain rfl : g = g' := by simpa [hg] using hg'
  have htime : e.timestamp.Storable := by
    rw [ha.2.1]
    exact hnow.made
  rw [hstore, Store.find_insert hs hnow.stored htime hg, if_pos rfl]
  exact ⟨hn, rfl⟩

/-- An entry stays where it was added. -/
theorem found_of_appends (hs : w.store.Sound) (hclock : ∀ m' ∈ m :: rest, m'.now.Storable)
    {found : Option TrackedFile} {e : Entry} {n : Nat} (ha : Appends requests w m found e n)
    {g : TrackedFile} (hg : w.store.find (requests m.call).name = .ok (some g)) :
    n = g.entries.length ∧
      ∃ f, (run o requests w (m :: rest)).store.find (requests m.call).name = .ok (some f) ∧
        f.base = g.base ∧ g.entries ++ [e] <+: f.entries := by
  have hnow := hclock m List.mem_cons_self
  obtain ⟨hn, hfind⟩ := find_of_appends (o := o) hs hnow ha hg
  obtain ⟨-, hext⟩ := grows_run o requests (grows_step o requests hs hnow).1
    fun m' hm' => hclock m' (List.mem_cons_of_mem _ hm')
  exact ⟨hn, hext _ _ hfind⟩

/-- What an entry leads to is read under its place in every later state. -/
theorem version_of_appends (hs : w.store.Sound) (hclock : ∀ m' ∈ m :: rest, m'.now.Storable)
    {found : Option TrackedFile} {e : Entry} {n : Nat} (ha : Appends requests w m found e n)
    {g : TrackedFile} (hg : w.store.find (requests m.call).name = .ok (some g)) {t : Text}
    (ht : replay o 0 g.base (g.entries ++ [e]) = .ok t) :
    ∃ total, History.version o (run o requests w (m :: rest)).store (requests m.call).name
      (.index n) = .ok ⟨t, some n, total⟩ := by
  obtain ⟨hn, f, hf, hbase, hentries⟩ := found_of_appends (o := o) hs hclock ha hg
  have htake : f.entries.take (n + 1) = g.entries ++ [e] := by
    obtain ⟨more, hmore⟩ := hentries
    rw [← hmore, hn]
    exact List.take_left' (by simp)
  have hlt : n < f.entries.length := by
    have := hentries.length_le
    simp only [List.length_append, List.length_singleton] at this
    omega
  have hversion : f.versionAt o (.index n) = .ok ⟨t, some n, f.entries.length⟩ := by
    refine TrackedFile.versionAt_index hlt ?_
    rw [htake, hbase]
    exact ht
  refine ⟨f.entries.length, ?_⟩
  simp only [History.version, History.tracked, hf, bind, Except.bind, hversion]

/-- **What becomes of an entry**: where it was added, what it leads to, and how that is read from
then on. -/
theorem Inv.appends_version (h : Inv o requests w)
    (hclock : ∀ m' ∈ m :: rest, m'.now.Storable) {found : Option TrackedFile} {e : Entry} {n : Nat}
    (ha : Appends requests w m found e n) :
    ∃ f g head t, found = some f ∧ w.store.find (requests m.call).name = .ok (some g) ∧
      g.base = f.base ∧ g.entries = f.entries ∧ n = f.entries.length ∧
      replay o 0 f.base f.entries = .ok head ∧ (requests m.call).result o head = .ok t ∧
      replay o 0 f.base (f.entries ++ [e]) = .ok t ∧
      ∃ total, History.version o (World.run o requests w (m :: rest)).store (requests m.call).name
        (.index n) = .ok ⟨t, some n, total⟩ := by
  obtain ⟨f, g, us, t, hfound, hg, hbase, hentries, hn, hl, hresult, hentry⟩ := h.appends ha
  have hsnoc := (hl.snoc hentry).replay 0
  rw [List.getLastD_concat] at hsnoc
  exact ⟨f, g, us.getLastD f.base, t, hfound, hg, hbase, hentries, hn, hl.replay 0, hresult,
    hsnoc, version_of_appends h.sound hclock ha hg (by rw [hbase, hentries, hsnoc])⟩

/-! ## Refused calls -/

theorem store_step_or (hs : w.store.Sound) :
    (step o requests w m).store = w.store ∨ ((step o requests w m).phase m.call).Committed := by
  have ht := transition o requests m hs
  generalize (step o requests w m).store = s' at ht ⊢
  generalize (step o requests w m).phase m.call = p' at ht ⊢
  generalize w.phase m.call = p at ht
  cases ht with
  | create read base hfind => exact Or.inr trivial
  | append read patch hfind => exact Or.inr trivial
  | _ => exact Or.inl rfl

/-- What a call has written stays written. -/
theorem committed_step (h : Inv o requests w) {i : Nat} (hp : (w.phase i).Committed) :
    ((step o requests w m).phase i).Committed := by
  by_cases hi : i = m.call
  · subst hi
    have ht := transition o requests m h.sound
    have happended := h.appended m.call
    generalize (step o requests w m).store = s' at ht
    generalize (step o requests w m).phase m.call = p' at ht ⊢
    generalize w.phase m.call = p at ht hp happended
    cases ht with
    | reread n hfind => exact trivial
    | vanished n hfind =>
        -- the file that the entry is in is still there
        obtain ⟨g, hg, -⟩ := happended n rfl
        rw [hfind] at hg
        cases hg
    | done answer => exact hp
    | _ => exact absurd hp id
  · rwa [phase_step_of_ne hi]

theorem committed_run
    (hinv : ∀ before, before <+: moves → Inv o requests (run o requests w before)) {i : Nat}
    (hp : (w.phase i).Committed) : ((run o requests w moves).phase i).Committed := by
  induction moves generalizing w with
  | nil => exact hp
  | cons m moves ih =>
      refine ih (fun before hbefore => ?_) (committed_step (hinv [] List.nil_prefix) hp)
      exact hinv (m :: before) ((List.prefix_cons_inj m).mpr hbefore)

/-- **A call that is answered with an error has written nothing.** -/
theorem store_of_refused
    (hinv : ∀ before, before <+: m :: rest → Inv o requests (run o requests w before))
    {e : Error} (hp : (run o requests w (m :: rest)).phase m.call = .answered (.error e)) :
    (step o requests w m).store = w.store := by
  rcases store_step_or (o := o) (m := m) (hinv [] List.nil_prefix).sound with hsame | hcommitted
  · exact hsame
  · have hfinal := committed_run
      (fun before hbefore => hinv (m :: before) ((List.prefix_cons_inj m).mpr hbefore)) hcommitted
    rw [← run_cons, hp] at hfinal
    exact absurd hfinal id

/-- **A call adds one entry at most**, for after that it has no plan any more. -/
theorem not_appends_again {x : Move}
    (hinv : ∀ before, before <+: m :: rest → Inv o requests (run o requests w before))
    {found found' : Option TrackedFile} {e e' : Entry} {n n' : Nat}
    (ha : Appends requests w m found e n) (hcall : x.call = m.call) :
    ¬Appends requests (run o requests w (m :: rest)) x found' e' n' := by
  rintro ⟨hphase, -⟩
  have hsound : w.store.Sound := (hinv [] List.nil_prefix).sound
  obtain ⟨g, -, -, -, hadded⟩ := ha.store_eq (o := o) hsound
  have hcommitted : ((step o requests w m).phase m.call).Committed := by
    rw [hadded]
    trivial
  have hfinal := committed_run
    (fun before hbefore => hinv (m :: before) ((List.prefix_cons_inj m).mpr hbefore)) hcommitted
  rw [← run_cons, ← hcall, hphase] at hfinal
  exact absurd hfinal id

/-! ## The whole run -/

theorem inv_after (hm : o.patchMargin < sizeLimit) (hrequests : ∀ i, (requests i).Short)
    (hclock : ∀ m ∈ moves, m.now.Storable)
    (hshort : ∀ before, before <+: moves → (after o requests before).Short o) (before : List Move)
    (hbefore : before <+: moves) : Inv o requests (after o requests before) :=
  (inv_empty o requests).run hm hrequests (fun b hb => hshort b (hb.trans hbefore))
    fun m hmem => hclock m (hbefore.subset hmem)

/-! ## Runs of texts alone -/

/-- All writes are texts that can be. -/
def TextsOnly (requests : Nat → Write) : Prop :=
  ∀ i, ∃ q, requests i = .text q ∧ q.content.length < sizeLimit

/-- Every text in the store or on its way there is one that can be. -/
structure Bounded (o : Tuning) (w : World) : Prop where
  stored : ∀ name f us, w.store.find name = .ok (some f) → Leads o f.base f.entries us →
    ∀ t ∈ f.base :: us, t.length < sizeLimit
  planned : ∀ i found base, w.phase i = .planned found (.create base) → base.length < sizeLimit

theorem Bounded.short (hb : Bounded o w) (h : Inv o requests w) : w.Short o := by
  intro name which v hv
  obtain ⟨f, hf, hv⟩ := Outcome.bind_eq_ok_iff.mp hv
  obtain ⟨found, hfind, hf⟩ := Outcome.bind_eq_ok_iff.mp hf
  cases found with
  | none => cases hf
  | some g =>
      cases hf
      obtain ⟨us, hl⟩ := h.leads name f hfind
      rw [TrackedFile.versionAt_eq hl] at hv
      cases hv
      refine hb.stored name f us hfind hl _ ?_
      generalize entriesUpTo (which.resolve us.length) = k
      have hmem : (us.take k).getLastD f.base ∈ f.base :: us.take k := List.getLastD_mem_cons
      rcases List.mem_cons.mp hmem with hmem | hmem
      · rw [hmem]
        exact List.mem_cons_self
      · exact List.mem_cons_of_mem _ (List.mem_of_mem_take hmem)

/-- The base in the plan for a text is that text. -/
theorem base_of_planText {found : Option TrackedFile} {q : Submission} {base : Text}
    (h : History.planText o found q = .ok (.create base)) : base = q.content := by
  cases found with
  | none =>
      obtain ⟨-, -, h⟩ := Outcome.bind_eq_ok_iff.mp h
      cases h
      rfl
  | some f =>
      obtain ⟨-, -, h⟩ := Outcome.bind_eq_ok_iff.mp h
      obtain ⟨head, -, h⟩ := Outcome.bind_eq_ok_iff.mp h
      split at h <;> cases h

theorem Bounded.step (hb : Bounded o w) (h : Inv o requests w) (htexts : TextsOnly requests)
    (hnow : m.now.Storable) : Bounded o (step o requests w m) where
  stored := by
    intro name f us hf hl
    obtain ⟨q, hq, hshort⟩ := htexts m.call
    have ht := transition o requests m h.sound
    have hplan := h.planned m.call
    have hbase := hb.planned m.call
    generalize (World.step o requests w m).store = s' at ht hf
    generalize (World.step o requests w m).phase m.call = p' at ht
    generalize w.phase m.call = p at ht hplan hbase
    cases ht with
    | create read base hfind =>
        rw [Store.find_create h.sound hnow.stored base hfind] at hf
        split at hf
        · cases hf
          cases hl
          intro t ht
          rw [List.mem_singleton.mp ht]
          exact hbase _ _ rfl
        · exact hb.stored name f us hf hl
    | append read patch hfind =>
        rw [Store.find_insert h.sound hnow.stored hnow.made hfind] at hf
        split at hf
        · next g _ =>
          obtain ⟨f', us', t, -, hbase', hentries, hl', hresult, hentry⟩ :=
            (hplan _ _ rfl).eq_of_length hfind
          cases hf
          -- the texts of the chain are the earlier ones and the content of this call
          have hnew := hl'.snoc (hentry m.now.made (requests m.call).author)
          rw [← hentries, ← hbase'] at hnew
          obtain rfl := hl.unique hnew
          rw [hq] at hresult
          cases hresult
          have hold := hb.stored _ g us' hfind (by rw [hbase', hentries]; exact hl')
          intro u hu
          rw [← List.cons_append] at hu
          rcases List.mem_append.mp hu with hu | hu
          · exact hold u hu
          · rw [List.mem_singleton.mp hu]
            exact hshort
        · exact hb.stored name f us hf hl
    | _ => exact hb.stored name f us hf hl
  planned := by
    intro i found base hp
    by_cases hi : i = m.call
    · subst hi
      obtain ⟨q, hq, hshort⟩ := htexts m.call
      have ht := transition o requests m h.sound
      rw [hp] at ht
      generalize (World.step o requests w m).store = s' at ht
      generalize w.phase m.call = p at ht
      cases ht with
      | plan hbegin =>
          rw [hq] at hbegin
          obtain ⟨found', -, hbegin⟩ := Outcome.bind_eq_ok_iff.mp hbegin
          obtain ⟨plan, hplan, hbegin⟩ := Outcome.bind_eq_ok_iff.mp hbegin
          cases hbegin
          rw [base_of_planText hplan]
          exact hshort
    · rw [phase_step_of_ne hi] at hp
      exact hb.planned i found base hp

/-- **Where only texts are written** it is enough that each of them is one that can be. -/
theorem short_after (hm : o.patchMargin < sizeLimit) (htexts : TextsOnly requests)
    (hclock : ∀ m ∈ moves, m.now.Storable) : (after o requests moves).Short o := by
  have hrequests : ∀ i, (requests i).Short := by
    intro i
    obtain ⟨q, hq, hshort⟩ := htexts i
    rw [hq]
    exact hshort
  have hrun : ∀ w : World, Inv o requests w → Bounded o w →
      Inv o requests (run o requests w moves) ∧ Bounded o (run o requests w moves) := by
    induction moves with
    | nil => exact fun w h hb => ⟨h, hb⟩
    | cons m moves ih =>
        intro w h hb
        have hnow := hclock m List.mem_cons_self
        exact ih (fun m' hm' => hclock m' (List.mem_cons_of_mem _ hm')) _
          (h.step hm hrequests (hb.short h) hnow) (hb.step h htexts hnow)
  have hempty : Bounded o {} := by
    constructor
    · intro name f us h
      cases h
    · intro i found base h
      cases h
  obtain ⟨hinv, hbounded⟩ := hrun {} (inv_empty o requests) hempty
  exact hbounded.short hinv

/-! ## The result -/

/-- **No stale patch is ever chained.** However the steps of any number of calls follow on each
other, every beginning of every chain can be replayed. A call that adds an entry does so on the
base and the entries it has read; its entry leads from there to the text it was to make, and that
is what is read under the place of the entry ever after. A call that is answered with an error has
not changed the store. -/
theorem appends_to_chain_read (o : Tuning) (hm : o.patchMargin < sizeLimit)
    (requests : Nat → Write) (hrequests : ∀ i, (requests i).Short) (moves : List Move)
    (hclock : ∀ m ∈ moves, m.now.Storable)
    (hshort : ∀ before, before <+: moves → (after o requests before).Short o) :
    (∀ name, ∃ found, (after o requests moves).store.find name = .ok found ∧
      ∀ f, found = some f → ∀ n, ∃ t, replay o 0 f.base (f.entries.take n) = .ok t) ∧
    (∀ before m rest found e n, moves = before ++ m :: rest →
      Appends requests (after o requests before) m found e n →
      ∃ f g head t, found = some f ∧
        (after o requests before).store.find (requests m.call).name = .ok (some g) ∧
        g.base = f.base ∧ g.entries = f.entries ∧ n = f.entries.length ∧
        replay o 0 f.base f.entries = .ok head ∧
        (requests m.call).result o head = .ok t ∧
        replay o 0 f.base (f.entries ++ [e]) = .ok t ∧
        ∃ total, History.version o (after o requests moves).store (requests m.call).name (.index n)
          = .ok ⟨t, some n, total⟩) ∧
    ∀ i e, (after o requests moves).phase i = .answered (.error e) →
      ∀ before m rest, moves = before ++ m :: rest → m.call = i →
        (after o requests (before ++ [m])).store = (after o requests before).store := by
  have hinv := inv_after hm hrequests hclock hshort
  have hend := hinv moves List.prefix_rfl
  refine ⟨fun name => ?_, ?_, ?_⟩
  · obtain ⟨found, hfind⟩ := Store.find_ok hend.sound name
    refine ⟨found, hfind, ?_⟩
    rintro f rfl n
    obtain ⟨us, hl⟩ := hend.leads name f hfind
    exact ⟨_, (hl.take n).replay 0⟩
  · rintro before m rest found e n rfl ha
    rw [after_append]
    exact (hinv before (List.prefix_append _ _)).appends_version
      (fun m hmem => hclock m (List.mem_append_right _ hmem)) ha
  · rintro i e hp before m rest rfl rfl
    rw [after_append] at hp
    rw [after_snoc]
    refine store_of_refused (fun more hmore => ?_) hp
    rw [← after_append]
    exact hinv _ ((List.prefix_append_right_inj before).mpr hmore)

end World

/-! ## A race -/

/-- Writers of one file: the first two add a text each, and any other begins the file. -/
def race (i : Nat) : Write :=
  .text { name := ['a'], content := if i = 0 then ['y'] else if i = 1 then ['z'] else ['x'] }

/-- The file is begun, the first writer adds its entry, the second one does its whole write, and
only then the first one reads the file again. -/
def overtaking : List Move :=
  [2, 2, 0, 0, 1, 1, 1, 0].map fun i => ⟨i, .newYear⟩

theorem race_textsOnly : World.TextsOnly race := by
  intro i
  refine ⟨_, rfl, ?_⟩
  dsimp only
  split
  · decide
  · split <;> decide

theorem overtaking_storable : ∀ m ∈ overtaking, m.now.Storable := by
  intro m hm
  obtain ⟨i, -, rfl⟩ := List.mem_map.mp hm
  exact Clock.storable_newYear

theorem race_short (i : Nat) : (race i).Short := by
  obtain ⟨q, hq, hcontent⟩ := race_textsOnly i
  rw [hq]
  exact hcontent

theorem short_after_race (before : List Move) (h : before <+: overtaking) :
    (World.after {} race before).Short {} :=
  World.short_after (by decide) race_textsOnly fun m hm => overtaking_storable m (h.subset hm)

/-- Whatever is found after the race can be replayed. -/
theorem World.appends_to_chain_read_race :
    (∀ i, (race i).Short) ∧ (∀ m ∈ overtaking, m.now.Storable) ∧
      (∀ before, before <+: overtaking → (World.after {} race before).Short {}) ∧
      ∀ name, ∃ found, (World.after {} race overtaking).store.find name = .ok found ∧
        ∀ f, found = some f → ∀ n, ∃ t, replay {} 0 f.base (f.entries.take n) = .ok t :=
  ⟨race_short, overtaking_storable, short_after_race,
    (World.appends_to_chain_read {} (by decide) race race_short overtaking overtaking_storable
      short_after_race).1⟩

end TextHistory
