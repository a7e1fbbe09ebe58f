import Mathlib.Data.List.Induction
import TextHistory.Proofs.History.Commit
import TextHistory.Proofs.History.Snapshots

/-!
# What a receipt tells

The receipt for an entry is written after the file was read once more, and by then other calls may
have added entries of their own. So it tells how long the chain is at that moment, which is the
number of the latest version then, and not of the version the call has made
(`World.receipt_tells_length`). The two agree exactly when nobody else has added to the file in
between. That they can differ is shown by a race in which two writers are told the same version
(`World.same_version_told_twice`).
-/

set_option autoImplicit false

namespace TextHistory

namespace World

variable {o : Tuning} {requests : Nat → Write} {w : World} {m : Move}
  {moves before mid rest : List Move}

/-! ## Where a receipt comes from -/

/-- A call that waits to read its file again has just added an entry. -/
theorem appends_of_step (hs : w.store.Sound) {n : Nat}
    (hp : (step o requests w m).phase m.call = .appended n) :
    ∃ found e, Appends requests w m found e n := by
  have ht := transition o requests m hs
  rw [hp] at ht
  generalize (step o requests w m).store = s' at ht
  generalize hq : w.phase m.call = p at ht
  cases ht with
  | append read patch hfind =>
      refine ⟨read, ⟨m.now.made, patch, (requests m.call).author⟩, hq, rfl, ?_⟩
      exact ⟨_, (Store.insert_of_found m.now.stored _ hfind _).trans (if_pos rfl)⟩

theorem appends_of_appended
    (hinv : ∀ before, before <+: moves → Inv o requests (after o requests before)) {i n : Nat}
    (hp : (after o requests moves).phase i = .appended n) :
    ∃ before m mid found e, moves = before ++ m :: mid ∧ m.call = i ∧
      Appends requests (after o requests before) m found e n := by
  induction moves using List.reverseRecOn with
  | nil => cases hp
  | append_singleton moves x ih =>
      have hprefix : moves <+: moves ++ [x] := List.prefix_append _ _
      rw [after_snoc] at hp
      -- the last step of the run is the one that added the entry, or it is another call's
      by_cases hi : i = x.call
      · subst hi
        obtain ⟨found, e, ha⟩ := appends_of_step (hinv moves hprefix).sound hp
        exact ⟨moves, x, [], found, e, rfl, rfl, ha⟩
      · rw [phase_step_of_ne hi] at hp
        obtain ⟨before, m, mid, found, e, rfl, hm, ha⟩ :=
          ih (fun b hb => hinv b (hb.trans hprefix)) hp
        exact ⟨before, m, mid ++ [x], found, e, by simp, hm, ha⟩

/-- A receipt for an entry gives the length of the chain as it was when it was read again. -/
theorem reread_of_receipt
    (hinv : ∀ before, before <+: moves → Inv o requests (after o requests before)) {i : Nat}
    {r : Receipt} (hp : (after o requests moves).phase i = .answered (.ok r))
    (heffect : r.effect = .patchAppended) :
    ∃ before m rest n f, moves = before ++ m :: rest ∧ m.call = i ∧
      (after o requests before).phase i = .appended n ∧
      (after o requests before).store.find (requests i).name = .ok (some f) ∧
      r = .ofCount .patchAppended f.entries.length := by
  induction moves using List.reverseRecOn with
  | nil => cases hp
  | append_singleton moves x ih =>
      have hprefix : moves <+: moves ++ [x] := List.prefix_append _ _
      have hearlier := fun h => ih (fun b hb => hinv b (hb.trans hprefix)) h
      have h := hinv moves hprefix
      rw [after_snoc] at hp
      by_cases hi : i = x.call
      · subst hi
        have ht := transition o requests x h.sound
        have hplanned := h.planned x.call
        rw [hp] at ht
        generalize (step o requests (after o requests moves) x).store = s' at ht
        generalize hq : (after o requests moves).phase x.call = p at ht hplanned hearlier
        cases ht with
        | answer read receipt =>
            -- a plan that is an answer changes nothing
            have hbehind := hplanned _ _ rfl
            cases read with
            | none =>
                obtain ⟨base, hbase⟩ := hbehind
                cases hbase
            | some f =>
                obtain ⟨⟨us, -, hplan⟩, -⟩ := hbehind
                rcases hplan with ⟨receipt', hanswer, hno⟩ | ⟨delta, t, hanswer, -⟩
                · cases hanswer
                  rw [hno] at heffect
                  cases heffect
                · cases hanswer
        | create read base hfind => cases heffect
        | reread n hfind => exact ⟨moves, x, [], n, _, rfl, rfl, hq, hfind, rfl⟩
        | done answer =>
            obtain ⟨before, m, rest, n, f, rfl, hrest⟩ := hearlier rfl
            exact ⟨before, m, rest ++ [x], n, f, by simp, hrest⟩
      · rw [phase_step_of_ne hi] at hp
        obtain ⟨before, m, rest, n, f, rfl, hrest⟩ := hearlier hp
        exact ⟨before, m, rest ++ [x], n, f, by simp, hrest⟩

/-! ## How long a chain is -/

/-- A step either leaves a chain alone or adds an entry to it. -/
theorem entries_step (hs : w.store.Sound) (hnow : m.now.Storable) {name : Text}
    {g : TrackedFile} (hg : w.store.find name = .ok (some g)) :
    (∃ g', (step o requests w m).store.find name = .ok (some g') ∧ g'.entries = g.entries) ∨
      (requests m.call).name = name ∧ ∃ found e n, Appends requests w m found e n := by
  have ht := transition o requests m hs
  generalize hstep : (step o requests w m).store = s' at ht ⊢
  generalize hp' : (step o requests w m).phase m.call = p' at ht
  generalize w.phase m.call = p at ht
  cases ht with
  | create read base hfind =>
      refine Or.inl ⟨g, ?_, rfl⟩
      have hne : name ≠ (requests m.call).name := by
        rintro rfl
        rw [hfind] at hg
        cases hg
      rw [Store.find_create hs hnow.stored base hfind, if_neg hne, hg]
  | append read patch hfind =>
      by_cases hname : name = (requests m.call).name
      · obtain ⟨found, e, ha⟩ := appends_of_step hs hp'
        exact Or.inr ⟨hname.symm, found, e, _, ha⟩
      · refine Or.inl ⟨g, ?_, rfl⟩
        rw [Store.find_insert hs hnow.stored hnow.made hfind, if_neg hname, hg]
  | _ => exact Or.inl ⟨g, hg, rfl⟩

/-- While nobody adds to a file its chain stays as long as it is. -/
theorem entries_run (mid : List Move) (hs : w.store.Sound) (hclock : ∀ m ∈ mid, m.now.Storable)
    {name : Text} {g : TrackedFile} (hg : w.store.find name = .ok (some g))
    (hquiet : ∀ earlier x later found e n, mid = earlier ++ x :: later →
      (requests x.call).name = name →
      ¬Appends requests (run o requests w earlier) x found e n) :
    ∃ f, (run o requests w mid).store.find name = .ok (some f) ∧ f.entries = g.entries := by
  induction mid generalizing w g with
  | nil => exact ⟨g, hg, rfl⟩
  | cons m mid ih =>
      have hnow := hclock m List.mem_cons_self
      rcases entries_step (o := o) (m := m) hs hnow hg with
        ⟨g', hg', hsame⟩ | ⟨hname, found, e, n, ha⟩
      · obtain ⟨f, hf, hentries⟩ := ih (grows_step o requests hs hnow).1
          (fun m' hm' => hclock m' (List.mem_cons_of_mem _ hm')) hg'
          (fun earlier x later found e n hmid =>
            hquiet (m :: earlier) x later found e n (by rw [hmid]; rfl))
        exact ⟨f, hf, hentries.trans hsame⟩
      · exact absurd ha (hquiet [] m mid found e n rfl hname)

/-- The place of an entry is in the chain from then on. -/
theorem place_lt_length (hs : w.store.Sound) (hclock : ∀ m' ∈ m :: rest, m'.now.Storable)
    {found : Option TrackedFile} {e : Entry} {n : Nat} (ha : Appends requests w m found e n)
    {f : TrackedFile}
    (hf : (run o requests w (m :: rest)).store.find (requests m.call).name = .ok (some f)) :
    n < f.entries.length := by
  obtain ⟨g, hg, -⟩ := ha.store_eq (o := o) hs
  obtain ⟨hn, f', hf', -, hentries⟩ := found_of_appends (o := o) hs hclock ha hg
  obtain rfl : f = f' := by simpa [hf] using hf'
  have hle := hentries.length_le
  rw [List.length_append, List.length_singleton] at hle
  omega

/-- Of two entries of one file the later one has the higher place. -/
theorem place_lt (hs : w.store.Sound) (hclock : ∀ m' ∈ m :: mid, m'.now.Storable) {x : Move}
    {found found' : Option TrackedFile} {e e' : Entry} {n n' : Nat}
    (ha : Appends requests w m found e n)
    (hx : Appends requests (run o requests w (m :: mid)) x found' e' n')
    (hname : (requests x.call).name = (requests m.call).name) : n < n' := by
  obtain ⟨g, hg, hn', -⟩ := hx.store_eq (o := o) (grows_run o requests hs hclock).1
  rw [hname] at hg
  rw [hn']
  exact place_lt_length hs hclock ha hg

/-- An entry is the last one of its chain exactly as long as nobody else adds to the file. -/
theorem place_last_iff (hs : w.store.Sound) (hclock : ∀ m' ∈ m :: mid, m'.now.Storable)
    {found : Option TrackedFile} {e : Entry} {n : Nat} (ha : Appends requests w m found e n)
    {f : TrackedFile}
    (hf : (run o requests w (m :: mid)).store.find (requests m.call).name = .ok (some f)) :
    f.entries.length = n + 1 ↔ ∀ earlier x later found e k, mid = earlier ++ x :: later →
      (requests x.call).name = (requests m.call).name →
      ¬Appends requests (run o requests w (m :: earlier)) x found e k := by
  constructor
  · rintro hlast earlier x later found' e' k rfl hname hx
    -- the other entry is behind this one, and it is in the chain as well
    rw [← List.cons_append] at hclock hf
    have hclock₁ : ∀ y ∈ m :: earlier, y.now.Storable :=
      fun y hy => hclock y (List.mem_append_left _ hy)
    have hclock₂ : ∀ y ∈ x :: later, y.now.Storable :=
      fun y hy => hclock y (List.mem_append_right _ hy)
    have hlt := place_lt hs hclock₁ ha hx hname
    rw [run_append, ← hname] at hf
    have hlt' := place_lt_length (grows_run o requests hs hclock₁).1 hclock₂ hx hf
    omega
  · intro hquiet
    have hnow := hclock m List.mem_cons_self
    obtain ⟨g, hg, -⟩ := ha.store_eq (o := o) hs
    obtain ⟨hn, hadded⟩ := find_of_appends (o := o) hs hnow ha hg
    obtain ⟨f', hf', hentries⟩ := entries_run (o := o) mid (grows_step o requests hs hnow).1
      (fun y hy => hclock y (List.mem_cons_of_mem _ hy)) hadded hquiet
    obtain rfl : f = f' := by
      rw [run_cons] at hf
      simpa [hf] using hf'
    rw [hentries, List.length_append, List.length_singleton, hn]

/-- After a call has added its entry, it adds none at any later place of the run. -/
theorem not_appends_after
    (hinv : ∀ before, before <+: moves → Inv o requests (after o requests before))
    {found found' : Option TrackedFile} {e e' : Entry} {n n' : Nat} {x : Move}
    (hmoves : moves = before ++ m :: (mid ++ x :: rest)) (hcall : x.call = m.call)
    (ha : Appends requests (after o requests before) m found e n) :
    ¬Appends requests (after o requests (before ++ m :: mid)) x found' e' n' := by
  rw [after_append]
  refine not_appends_again (fun b hb => ?_) ha hcall
  rw [← after_append]
  refine hinv _ (((List.prefix_append_right_inj before).mpr hb).trans ⟨x :: rest, ?_⟩)
  simp [hmoves]

/-- **A call adds its entry in one place of the run.** -/
theorem appends_unique
    (hinv : ∀ before, before <+: moves → Inv o requests (after o requests before))
    {before' rest' : List Move} {x : Move} {found found' : Option TrackedFile} {e e' : Entry}
    {n n' : Nat} (hmoves : moves = before ++ m :: rest) (hmoves' : moves = before' ++ x :: rest')
    (hcall : x.call = m.call) (ha : Appends requests (after o requests before) m found e n)
    (ha' : Appends requests (after o requests before') x found' e' n') : before' = before := by
  rcases List.append_eq_append_iff.mp (hmoves.symm.trans hmoves') with
    ⟨more, rfl, hrest⟩ | ⟨more, rfl, hrest⟩
  · cases more with
    | nil => exact List.append_nil before
    | cons y more =>
        obtain ⟨rfl, rfl⟩ := List.cons.inj hrest
        exact absurd ha' (not_appends_after hinv hmoves hcall ha)
  · cases more with
    | nil => exact (List.append_nil before').symm
    | cons y more =>
        obtain ⟨rfl, rfl⟩ := List.cons.inj hrest
        exact absurd ha (not_appends_after hinv hmoves' hcall.symm ha')

/-! ## What a receipt is worth -/

/-- **What the receipt for an entry tells.** The call has added one entry, at the place `n`, and
the text it has made of the chain it read is read there ever after. The receipt gives the length of
the chain when the file was read again, so the version it names is `n` or a later one, and it is `n`
exactly when in between nobody else has added to the file. No two entries of a file have the same
place. -/
theorem receipt_tells_length (o : Tuning) (hm : o.patchMargin < sizeLimit)
    (requests : Nat → Write) (hrequests : ∀ i, (requests i).Short) (moves : List Move)
    (hclock : ∀ m ∈ moves, m.now.Storable)
    (hshort : ∀ before, before <+: moves → (after o requests before).Short o) :
    (∀ i r, (after o requests moves).phase i = .answered (.ok r) → r.effect = .patchAppended →
      ∃ before m mid m' rest g e n f head t v total, moves = before ++ m :: (mid ++ m' :: rest) ∧
        m.call = i ∧ m'.call = i ∧ Appends requests (after o requests before) m (some g) e n ∧
        (∀ before' x rest' found e' n', moves = before' ++ x :: rest' → x.call = i →
          Appends requests (after o requests before') x found e' n' → before' = before) ∧
        replay o 0 g.base g.entries = .ok head ∧ (requests i).result o head = .ok t ∧
        History.version o (after o requests moves).store (requests i).name (.index n)
          = .ok ⟨t, some n, total⟩ ∧
        (after o requests (before ++ m :: mid)).store.find (requests i).name = .ok (some f) ∧
        r = .ofCount .patchAppended f.entries.length ∧
        r.version = some v ∧ r.versionCount = v + 1 ∧ n ≤ v ∧
        (v = n ↔ ∀ earlier x later found e k, mid = earlier ++ x :: later →
          (requests x.call).name = (requests i).name →
          ¬Appends requests (after o requests (before ++ m :: earlier)) x found e k)) ∧
    ∀ before m mid m' rest found found' e e' n n', moves = before ++ m :: (mid ++ m' :: rest) →
      Appends requests (after o requests before) m found e n →
      Appends requests (after o requests (before ++ m :: mid)) m' found' e' n' →
      (requests m'.call).name = (requests m.call).name → n < n' := by
  have hinv := inv_after hm hrequests hclock hshort
  constructor
  · intro i r hp heffect
    obtain ⟨before', m', rest, n, f, rfl, hm', hphase, hf, rfl⟩ := reread_of_receipt hinv hp heffect
    obtain ⟨before, m, mid, found, e, rfl, rfl, ha⟩ := appends_of_appended
      (fun b hb => hinv b (hb.trans (List.prefix_append _ _))) hphase
    rw [List.append_assoc] at hinv hclock hp ⊢
    have hbefore := hinv before (List.prefix_append _ _)
    have hclock' : ∀ x ∈ m :: (mid ++ m' :: rest), x.now.Storable :=
      fun x hx => hclock x (List.mem_append_right _ hx)
    have hclock'' : ∀ x ∈ m :: mid, x.now.Storable :=
      fun x hx => hclock' x (List.mem_append_left (m' :: rest) hx)
    obtain ⟨g, -, head, t, rfl, -, -, -, -, hhead, hresult, -, total, hversion⟩ :=
      hbefore.appends_version hclock' ha
    have hreread := hf
    rw [after_append] at hreread
    have hlt := place_lt_length hbefore.sound hclock'' ha hreread
    have hlast := place_last_iff hbefore.sound hclock'' ha hreread
    have hcount : Receipt.ofCount .patchAppended f.entries.length
        = .ofCount .patchAppended (f.entries.length - 1 + 1) := by
      rw [Nat.sub_add_cancel (by omega)]
    refine ⟨before, m, mid, m', rest, g, e, n, f, head, t, f.entries.length - 1, total, rfl, rfl,
      hm', ha, ?_, hhead, hresult, ?_, hf, rfl, by rw [hcount]; rfl, by rw [hcount]; rfl,
      by omega, ?_⟩
    · intro before' x rest' found e' n' hmoves hcall hx
      exact appends_unique hinv rfl hmoves hcall ha hx
    · rw [after_append]
      exact hversion
    · simp only [after_append]
      rw [← hlast]
      omega
  · rintro before m mid m' rest found found' e e' n n' rfl ha ha' hname
    rw [after_append] at ha'
    exact place_lt (hinv before (List.prefix_append _ _)).sound
      (fun x hx => hclock x (List.mem_append_right _ (List.mem_append_left (m' :: rest) hx)))
      ha ha' hname

/-! ## The race -/

/-- A call that makes its steps in a row does the whole write. -/
theorem run_alone (o : Tuning) (requests : Nat → Write) (w : World) {i : Nat} (now : Clock)
    (hi : w.phase i = .waiting) :
    (run o requests w [⟨i, now⟩, ⟨i, now⟩, ⟨i, now⟩]).store
        = ((requests i).save o w.store now).1 ∧
      (run o requests w [⟨i, now⟩, ⟨i, now⟩, ⟨i, now⟩]).phase i
        = .answered ((requests i).save o w.store now).2 ∧
      ∀ j, j ≠ i → (run o requests w [⟨i, now⟩, ⟨i, now⟩, ⟨i, now⟩]).phase j = w.phase j := by
  have halone := (requests i).step_alone o w.store now
  simp only [run, List.foldl_cons, List.foldl_nil, step, if_true, hi]
  dsimp only at halone
  rw [halone]
  refine ⟨rfl, rfl, fun j hj => ?_⟩
  rw [if_neg hj, if_neg hj, if_neg hj]

/-- The first two steps of a call with a new text add its entry. -/
theorem run_two {o : Tuning} (hm : o.patchMargin < sizeLimit) (requests : Nat → Write) {w : World}
    {m : Snapshots} (h : Snapshots.Refines o w.store m) (i : Nat) {now : Clock}
    (hnow : now.Storable) (hi : w.phase i = .waiting) {q : Submission}
    (hq : requests i = .text q) {r : Revisions} (hr : m q.name = some r)
    (hlen : History.checkLength q.name q.expected r.later.length = .ok ())
    (hnew : q.content ≠ r.head) (hhead : r.head.length < sizeLimit)
    (hcontent : q.content.length < sizeLimit) :
    Snapshots.Refines o (run o requests w [⟨i, now⟩, ⟨i, now⟩]).store
        (m.set q.name (r.push q.content)) ∧
      (run o requests w [⟨i, now⟩, ⟨i, now⟩]).phase i = .appended r.later.length ∧
      ∀ j, j ≠ i → (run o requests w [⟨i, now⟩, ⟨i, now⟩]).phase j = w.phase j := by
  obtain ⟨f, hfind, hbase, hl⟩ := h.find_some q.name r hr
  have hhead' : r.later.getLastD f.base = r.head := by rw [hbase, Revisions.head]
  obtain ⟨delta, hplan, hentry⟩ := History.planText_found hl hm q hlen (hhead' ▸ hhead) hcontent
  rw [hhead'] at hplan hentry
  rw [if_neg hnew] at hplan
  have hbegin : (requests i).begin o w.store = .ok (some f, .append delta r.later.length) := by
    rw [hq]
    simp only [Write.begin, hfind, hplan, bind, Except.bind]
    rfl
  have hinsert := Store.insert_of_found now.stored ⟨now.made, delta, q.author⟩ hfind r.later.length
  rw [if_pos hl.length_eq] at hinsert
  have hname : (requests i).name = q.name := by rw [hq]; rfl
  have hauthor : (requests i).author = q.author := by rw [hq]; rfl
  have hrefines := h.withEntry hnow hr (hentry now.made q.author)
  simp only [run, List.foldl_cons, List.foldl_nil, step, if_true, hi, Write.step, hbegin, hname,
    hauthor, hinsert]
  refine ⟨hrefines, trivial, fun j hj => ?_⟩
  rw [if_neg hj, if_neg hj]

end World

/-- The two writers of the race and the texts that can be read after it. -/
theorem overtaking_outcome :
    let w := World.after {} race overtaking
    w.phase 0 = .answered (.ok ⟨.patchAppended, 2, some 1⟩) ∧
      w.phase 1 = .answered (.ok ⟨.patchAppended, 2, some 1⟩) ∧
      ∀ which, History.version {} w.store ['a'] which
        = .ok (Revisions.version ⟨['x'], [['y'], ['z']]⟩ which) := by
  intro w
  -- the file is begun
  let begun := World.after {} race (overtaking.take 2)
  have h₁ : Snapshots.Refines {} begun.store (Snapshots.empty.set ['a'] ⟨['x'], []⟩) :=
    (Snapshots.refines_empty {}).withFile Clock.storable_newYear.stored ['x'] rfl
  -- the first writer adds its entry
  let added := World.run {} race begun [⟨0, .newYear⟩, ⟨0, .newYear⟩]
  obtain ⟨h₂, hphase₂, hothers₂⟩ := World.run_two (by decide) race h₁ 0
    Clock.storable_newYear rfl rfl rfl rfl (by decide) (by decide) (by decide)
  -- the second writer does its whole write
  let done := World.run {} race added [⟨1, .newYear⟩, ⟨1, .newYear⟩, ⟨1, .newYear⟩]
  obtain ⟨hstore₃, hphase₃, hothers₃⟩ := World.run_alone {} race added .newYear
    (hothers₂ 1 (by decide))
  obtain ⟨h₃, hanswer₃⟩ := h₂.write (by decide) Clock.storable_newYear (race 1)
    (((Snapshots.short_empty.set ['a'] (by decide)).set ['a'] (by decide)).set ['a'] (by decide))
  rw [← hstore₃] at h₃
  rw [hanswer₃] at hphase₃
  -- the first writer reads the file again
  obtain ⟨f, hfind, -, hl⟩ := h₃.find_some ['a'] ⟨['x'], [['y'], ['z']]⟩ rfl
  have hphase : w.phase 0 = ((race 0).step {} done.store .newYear (done.phase 0)).2 := rfl
  have hzero : done.phase 0 = .appended 0 := (hothers₃ 0 (by decide)).trans hphase₂
  have hreread : done.store.reread (race 0).name = .ok f := by
    simp only [Store.reread, bind, Except.bind]
    rw [show (race 0).name = ['a'] from rfl, hfind]
  have hstore : w.store = ((race 0).step {} done.store .newYear (done.phase 0)).1 := rfl
  rw [hzero] at hphase hstore
  refine ⟨?_, ?_, ?_⟩
  · rw [hphase, Write.step, hreread]
    show Phase.answered (.ok (Receipt.ofCount .patchAppended f.entries.length)) = _
    rw [← hl.length_eq]
    rfl
  · exact hphase₃
  · intro which
    rw [hstore]
    exact h₃.version ['a'] which

/-- **Two writers can be told the same version**, which only one of them has made: what is read
under the version that the first writer is told is not its text. -/
theorem World.same_version_told_twice :
    let w := World.after {} race overtaking
    (¬∀ i r v head t, w.phase i = .answered (.ok r) → r.effect = .patchAppended →
      r.version = some v → r.versionCount = v + 1 → (race i).result {} head = .ok t →
      ∃ total, History.version {} w.store (race i).name (.index v)
        = .ok ⟨t, some v, total⟩) ∧
    ¬∀ i j r r', i ≠ j → (race i).name = (race j).name → w.phase i = .answered (.ok r) →
      w.phase j = .answered (.ok r') → r.effect = .patchAppended → r'.effect = .patchAppended →
      r.version ≠ r'.version := by
  intro w
  obtain ⟨hfirst, hsecond, hreads⟩ := overtaking_outcome
  constructor
  · intro h
    obtain ⟨total, htotal⟩ := h 0 _ 1 [] ['y'] hfirst rfl rfl rfl rfl
    have hread : Except.ok (Revisions.version ⟨['x'], [['y'], ['z']]⟩ (.index 1))
        = Except.ok ⟨['y'], some 1, total⟩ := (hreads (.index 1)).symm.trans htotal
    have hcontent : ['z'] = ['y'] := congrArg VersionText.content (Except.ok.inj hread)
    exact absurd hcontent (by decide)
  · intro h
    exact h 0 1 _ _ (by decide) rfl hfirst hsecond rfl rfl rfl

/-- What the first writer has made is at the place that the theorem speaks of. -/
theorem World.receipt_tells_length_race :
    (∀ i, (race i).Short) ∧ (∀ m ∈ overtaking, m.now.Storable) ∧
      (∀ before, before <+: overtaking → (World.after {} race before).Short {}) ∧
      ∃ n head t total, n ≤ 1 ∧ (race 0).result {} head = .ok t ∧
        History.version {} (World.after {} race overtaking).store ['a'] (.index n)
          = .ok ⟨t, some n, total⟩ := by
  refine ⟨race_short, overtaking_storable, short_after_race, ?_⟩
  obtain ⟨hfirst, -, -⟩ := overtaking_outcome
  obtain ⟨before, m, mid, m', rest, g, e, n, f, head, t, v, total, -, -, -, -, -, -, hresult,
    hversion, -, -, hv, -, hle, -⟩ := (World.receipt_tells_length {} (by decide) race race_short
      overtaking overtaking_storable short_after_race).1 0 _ hfirst rfl
  obtain rfl : 1 = v := Option.some.inj hv
  exact ⟨n, head, t, total, hle, hresult, hversion⟩

end TextHistory
