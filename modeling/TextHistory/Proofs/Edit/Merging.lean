import TextHistory.Proofs.Edit.NormalForm
import TextHistory.Proofs.Edit.Stretch

/-!
# What merging does to a stretch of edits

Merging reduces each stretch of edits (`Script.Reduces`): what the deleted and the inserted text
begin and end with in common goes to the equalities beside it, and a core of settled edits is left.
The core is empty when the stretch deletes what it inserts; then the equalities on both sides become
one (`Script.merge_cut`).

A script in normal form has nothing to reduce, so merging leaves it as it is, and merging twice is
merging once (`Script.merge_normalizes`). Merging does not part a stretch, so there are no more
stretches afterwards (`Script.length_stretches_merge_le`). It makes equalities longer and edits
shorter, so what it leaves outweighed, in a lasting script, was joined across a stretch that
vanished (`Script.idle_of_outweighed_merge`).
-/

set_option autoImplicit false

namespace TextHistory

namespace Script

/-! ## Equalities in front -/

/-- Two equalities put in front become one. -/
theorem prepend_equal_prepend (a b : Text) (s : Script) :
    prepend ⟨.equal, a⟩ (prepend ⟨.equal, b⟩ s) = prepend ⟨.equal, a ++ b⟩ s := by
  by_cases ha : a = []
  · rw [ha, prepend_of_empty _ rfl, List.nil_append]
  · by_cases hb : b = []
    · rw [hb, prepend_of_empty s rfl, List.append_nil]
    · cases s with
      | nil => simp [prepend, ha, hb]
      | cons e s =>
          by_cases he : EditKind.equal = e.kind
          · simp [prepend, ha, hb, ← he]
          · simp [prepend, ha, hb, he]

theorem prepend_append {r : Script} (hr : r ≠ []) (e : Edit) (s : Script) :
    prepend e r ++ s = prepend e (r ++ s) := by
  obtain ⟨f, r, rfl⟩ := List.exists_cons_of_ne_nil hr
  unfold prepend
  split
  · rfl
  · simp only [List.cons_append]
    split <;> rfl

theorem head?_prepend_equal {s : Script} (hs : ∀ f ∈ s.head?, f.kind = .equal) (t : Text) :
    ∀ f ∈ (prepend ⟨.equal, t⟩ s).head?, f.kind = .equal := by
  by_cases ht : t = []
  · rw [prepend_of_empty s ht]
    exact hs
  · exact head?_prepend s ht

/-- What follows on a settled stretch is joined with its own kind only. -/
theorem coalesce_pair (gone come : Text) {s : Script} (hs : ∀ f ∈ s.head?, f.kind = .equal) :
    prepend ⟨.delete, gone⟩ (prepend ⟨.insert, come⟩ s)
      = coalesce [⟨.delete, gone⟩, ⟨.insert, come⟩] ++ s := by
  have hinsert : prepend ⟨.insert, come⟩ s = prepend ⟨.insert, come⟩ [] ++ s := by
    by_cases hcome : come = []
    · rw [prepend_of_empty s hcome, prepend_of_empty [] hcome]
      rfl
    · rw [prepend_eq_cons hcome fun f hf => by simp [hs f hf], prepend_eq_cons hcome (by simp)]
      rfl
  show _ = prepend ⟨.delete, gone⟩ (prepend ⟨.insert, come⟩ []) ++ s
  rw [hinsert]
  by_cases hcome : come = []
  · rw [prepend_of_empty [] hcome, List.nil_append]
    by_cases hgone : gone = []
    · rw [prepend_of_empty s hgone, prepend_of_empty [] hgone]
      rfl
    · rw [prepend_eq_cons hgone fun f hf => by simp [hs f hf], prepend_eq_cons hgone (by simp)]
      rfl
  · have hne : prepend ⟨.insert, come⟩ [] ≠ [] := by simp [prepend, hcome]
    rw [← prepend_append hne]

/-! ## A deletion and an insertion -/

section Pair

variable (gone come : Text)

theorem coalesce_pair_spells :
    Spells (coalesce [⟨.delete, gone⟩, ⟨.insert, come⟩]) gone come :=
  Spells.coalesce ⟨by simp [source_cons], by simp [target_cons]⟩

theorem editsOnly_coalesce_pair : EditsOnly (coalesce [⟨.delete, gone⟩, ⟨.insert, come⟩]) := by
  by_cases hgone : gone = [] <;> by_cases hcome : come = [] <;>
    simp [coalesce, prepend, hgone, hcome]

variable {gone come}

theorem normal_coalesce_pair
    (h : gone ≠ [] → come ≠ [] → gone.head? ≠ come.head? ∧ gone.getLast? ≠ come.getLast?) :
    Normal (coalesce [⟨.delete, gone⟩, ⟨.insert, come⟩]) := by
  show Normal (prepend ⟨.delete, gone⟩ (prepend ⟨.insert, come⟩ []))
  refine normal_prepend (normal_prepend normal_nil (by simp)) ?_
  intro hgone f hf
  by_cases hcome : come = []
  · rw [prepend_of_empty [] hcome] at hf
    cases hf
  · rw [prepend_eq_cons hcome (by simp)] at hf
    cases hf
    exact ⟨by simp, Or.inr (Or.inr ⟨rfl, h hgone hcome⟩)⟩

end Pair

/-! ## Reducing a stretch -/

/-- A stretch of edits reduces to a settled core between what goes to the equalities beside it. -/
structure Reduces (r : Script) (lead : Text) (core : Script) (trail : Text) : Prop where
  editsOnly : core.EditsOnly
  normal : core.Normal
  source : r.source = lead ++ core.source ++ trail
  target : r.target = lead ++ core.target ++ trail

/-- Settled edits are told by what they delete and what they insert. -/
theorem Normal.eq_coalesce {r : Script} (hn : r.Normal) (hr : r.EditsOnly) :
    r = coalesce [⟨.delete, r.source⟩, ⟨.insert, r.target⟩] := by
  have hne := hn.nonempty
  -- no edits, one deletion, one insertion, or one of each
  have hsettled := hn.settled [] r [] (by simp) hr
  cases hsettled with
  | none => rfl
  | deletion t => simp_all [coalesce, prepend, source_cons, target_cons]
  | insertion t => simp_all [coalesce, prepend, source_cons, target_cons]
  | both hhead hlast => simp_all [coalesce, prepend, source_cons, target_cons]

theorem Normal.ext {r s : Script} (hn : r.Normal) (hr : r.EditsOnly) (hn' : s.Normal)
    (hs : s.EditsOnly) (hsource : r.source = s.source) (htarget : r.target = s.target) : r = s := by
  rw [hn.eq_coalesce hr, hn'.eq_coalesce hs, hsource, htarget]

namespace Reduces

variable {r core : Script} {lead trail : Text}

/-- A stretch with an empty core deletes what it inserts. -/
theorem source_eq_target (h : Reduces r lead core trail) (hcore : core = []) :
    r.source = r.target := by
  rw [h.source, h.target, hcore]
  rfl

/-- Nothing comes of no edits. -/
theorem core_eq_nil (h : Reduces r lead core trail) (hr : r = []) : core = [] := by
  have hsource := h.source
  have htarget := h.target
  simp only [hr, source_nil, target_nil, List.nil_eq, List.append_eq_nil_iff] at hsource htarget
  refine h.normal.ext h.editsOnly normal_nil editsOnly_nil ?_ ?_
  · exact hsource.1.2
  · exact htarget.1.2

/-- The core inserts and deletes no more than the stretch does. -/
theorem size_le (h : Reduces r lead core trail) (hr : r.EditsOnly) :
    core.extent.size ≤ r.extent.size := by
  rw [extent_eq_lengths h.editsOnly, extent_eq_lengths hr, h.source, h.target]
  simp only [Extent.size, List.length_append]
  omega

/-- A settled stretch reduces to itself. -/
theorem of_normal (h : Reduces r lead core trail) (hn : r.Normal) (hr : r.EditsOnly) :
    lead = [] ∧ core = r ∧ trail = [] := by
  have hends : lead = [] ∧ trail = [] := by
    have hsource := h.source
    have htarget := h.target
    cases hn.settled [] r [] (by simp) hr with
    | none => simp_all
    | deletion t => simp_all [target_cons]
    | insertion t => simp_all [source_cons]
    | both hhead hlast =>
        simp only [source_cons, target_cons, reduceCtorEq, if_false, if_true, source_nil,
          target_nil, List.append_nil, List.nil_append] at hsource htarget
        constructor
        · -- a common beginning would be one of the two texts
          cases lead with
          | nil => rfl
          | cons c lead => exact absurd (by simp [hsource, htarget]) hhead
        · by_contra htrail
          refine hlast ?_
          rw [hsource, htarget, List.getLast?_append_of_ne_nil _ htrail,
            List.getLast?_append_of_ne_nil _ htrail]
  obtain ⟨rfl, rfl⟩ := hends
  refine ⟨rfl, h.normal.ext h.editsOnly hn hr ?_ ?_, rfl⟩
  · simpa using h.source.symm
  · simpa using h.target.symm

end Reduces

/-! ## Merging stretch by stretch -/

theorem settleRuns_append {r : Script} (hr : r.EditsOnly) (deleted inserted : Text) (s : Script) :
    settleRuns deleted inserted (r ++ s)
      = settleRuns (deleted ++ r.source) (inserted ++ r.target) s := by
  induction r generalizing deleted inserted with
  | nil => simp
  | cons e r ih =>
      obtain ⟨he, hrest⟩ := editsOnly_cons.mp hr
      obtain ⟨kind, t⟩ := e
      cases kind with
      | equal => exact absurd rfl he
      | delete => simp [settleRuns, ih hrest, source_cons, target_cons]
      | insert => simp [settleRuns, ih hrest, source_cons, target_cons]

/-- What settling leaves of two texts. -/
theorem exists_reduces (r : Script) :
    ∃ lead core trail, Reduces r lead core trail ∧
      ∀ s, (∀ f ∈ (coalesce s).head?, f.kind = .equal) →
        coalesce (settle r.source r.target ++ s)
          = prepend ⟨.equal, lead⟩ (core ++ prepend ⟨.equal, trail⟩ (coalesce s)) := by
  obtain ⟨lead, gone, come, trail, hsettle, hends⟩ : ∃ lead gone come trail,
      settle r.source r.target
          = [⟨.equal, lead⟩, ⟨.delete, gone⟩, ⟨.insert, come⟩, ⟨.equal, trail⟩] ∧
        (gone ≠ [] → come ≠ [] → gone.head? ≠ come.head? ∧ gone.getLast? ≠ come.getLast?) :=
    ⟨_, _, _, _, rfl, settled_ends r.source r.target⟩
  have hspells := settle_spells r.source r.target
  have hpair := coalesce_pair_spells gone come
  refine ⟨lead, coalesce [⟨.delete, gone⟩, ⟨.insert, come⟩], trail,
    ⟨editsOnly_coalesce_pair gone come, normal_coalesce_pair hends, ?_, ?_⟩, fun s hs => ?_⟩
  · rw [hpair.source, ← hspells.source, hsettle]
    simp [source_cons]
  · rw [hpair.target, ← hspells.target, hsettle]
    simp [target_cons]
  · rw [hsettle]
    show prepend ⟨.equal, lead⟩ (prepend ⟨.delete, gone⟩ (prepend ⟨.insert, come⟩
      (prepend ⟨.equal, trail⟩ (coalesce s)))) = _
    rw [coalesce_pair gone come (head?_prepend_equal hs trail)]

/-- Merging reduces the first stretch and goes on behind the equality after it. -/
theorem merge_cut {r : Script} (hr : r.EditsOnly) :
    ∃ lead core trail, Reduces r lead core trail ∧
      merge r = prepend ⟨.equal, lead⟩ (core ++ prepend ⟨.equal, trail⟩ []) ∧
      ∀ t s, t ≠ [] → merge (r ++ ⟨.equal, t⟩ :: s)
        = prepend ⟨.equal, lead⟩ (core ++ prepend ⟨.equal, trail ++ t⟩ (merge s)) := by
  obtain ⟨lead, core, trail, hreduces, hcoalesce⟩ := exists_reduces r
  refine ⟨lead, core, trail, hreduces, ?_, fun t s ht => ?_⟩
  · have hruns := settleRuns_append hr [] [] []
    simp only [List.append_nil, List.nil_append] at hruns
    have hnone := hcoalesce [] (by simp [coalesce])
    rw [List.append_nil] at hnone
    rw [merge, hruns]
    exact hnone
  · rw [merge, settleRuns_append hr, ← prepend_equal_prepend]
    exact hcoalesce _ (head?_prepend _ ht)

/-! ## Merging what is merged -/

/-- A script in normal form has nothing to merge. -/
theorem merge_of_normal {s : Script} (hs : s.Normal) : merge s = s := by
  induction s using stretchInduction with
  | edits r hr =>
      obtain ⟨lead, core, trail, hreduces, hmerge, -⟩ := merge_cut hr
      obtain ⟨rfl, rfl, rfl⟩ := hreduces.of_normal hs hr
      simpa [prepend] using hmerge
  | cut r t s hr ih =>
      obtain ⟨hne, hchain⟩ := normal_iff_isChain.mp hs
      obtain ⟨lead, core, trail, hreduces, -, hmerge⟩ := merge_cut hr
      -- the stretch is settled, and the equality is not joined with what follows
      have hr' : r.Normal := normal_iff_isChain.mpr
        ⟨fun e he => hne e (List.mem_append_left _ he), hchain.left_of_append⟩
      have hs' : Normal s := normal_iff_isChain.mpr
        ⟨fun e he => hne e (by simp [he]), hchain.right_of_append.tail⟩
      have ht : t ≠ [] := hne ⟨.equal, t⟩ (by simp)
      have hnext : ∀ f ∈ s.head?, EditKind.equal ≠ f.kind := fun f hf =>
        (List.isChain_cons.mp hchain.right_of_append).1 f hf |>.1
      obtain ⟨rfl, rfl, rfl⟩ := hreduces.of_normal hr' hr
      rw [hmerge t s ht, ih hs', List.nil_append, prepend_of_empty _ rfl, prepend_eq_cons ht hnext]

/-- **Merging normalises.** It changes neither text of a script. If no equality is empty, it leaves
the script in normal form, and merging once more changes nothing. -/
theorem merge_normalizes (s : Script) :
    (merge s).Spells s.source s.target ∧
      ((∀ e ∈ s, e.kind = .equal → e.text ≠ []) → (merge s).Normal ∧ merge (merge s) = merge s) :=
  ⟨(spells_self s).merge, fun hs => ⟨normal_merge hs, merge_of_normal (normal_merge hs)⟩⟩

/-- The insertion comes first and is longer, an edit is empty, and what the two texts begin with in
common is also what they end with. A stretch that deletes what it inserts vanishes. -/
theorem merge_normalizes_overlap :
    let s : Script := [⟨.insert, ['a', 'a', 'a']⟩, ⟨.delete, []⟩, ⟨.delete, ['a', 'a']⟩,
      ⟨.equal, ['b']⟩, ⟨.delete, ['c']⟩, ⟨.insert, ['c']⟩, ⟨.equal, ['d']⟩]
    (∀ e ∈ s, e.kind = .equal → e.text ≠ []) ∧
      merge s = [⟨.equal, ['a', 'a']⟩, ⟨.insert, ['a']⟩, ⟨.equal, ['b', 'c', 'd']⟩] ∧
      (merge s).Normal ∧ merge (merge s) = merge s := by
  intro s
  have hs : ∀ e ∈ s, e.kind = .equal → e.text ≠ [] := by decide
  obtain ⟨hnormal, htwice⟩ := (merge_normalizes s).2 hs
  exact ⟨hs, by decide, hnormal, htwice⟩

/-! ## Stretches of a merged script -/

theorem stretches_prepend_equal (t : Text) (s : Script) :
    stretches (prepend ⟨.equal, t⟩ s) = stretches s := by
  unfold prepend
  split
  · rfl
  · split
    · rfl
    · next e s =>
      split
      · next he =>
        obtain ⟨kind, u⟩ := e
        cases he
        simp
      · simp

theorem exists_prepend_equal {t : Text} (ht : t ≠ []) (s : Script) :
    ∃ u r, prepend ⟨.equal, t⟩ s = ⟨.equal, u⟩ :: r := by
  unfold prepend
  rw [if_neg (by simpa using ht)]
  split
  · exact ⟨t, [], rfl⟩
  · split
    · exact ⟨_, _, rfl⟩
    · exact ⟨_, _, rfl⟩

/-- An equality that is put in front of a script still parts it from what is before. -/
theorem stretches_append_prepend {t : Text} (ht : t ≠ []) (s r : Script) :
    stretches (s ++ prepend ⟨.equal, t⟩ r) = stretches s ++ stretches r := by
  obtain ⟨u, rest, hprepend⟩ := exists_prepend_equal ht r
  have hrest := stretches_prepend_equal t r
  rw [hprepend, stretches_equal_cons] at hrest
  rw [hprepend, stretches_cut, hrest]

theorem Reduces.length_stretches_le {r core : Script} {lead trail : Text}
    (h : Reduces r lead core trail) (hr : r.EditsOnly) :
    core.stretches.length ≤ r.stretches.length := by
  rw [stretches_of_editsOnly h.editsOnly, stretches_of_editsOnly hr]
  by_cases hnil : r = []
  · rw [if_pos hnil, if_pos (h.core_eq_nil hnil)]
  · rw [if_neg hnil]
    split <;> simp

/-- Merging makes no stretch into two. -/
theorem length_stretches_merge_le {s : Script} (hs : ∀ e ∈ s, e.kind = .equal → e.text ≠ []) :
    (merge s).stretches.length ≤ s.stretches.length := by
  induction s using stretchInduction with
  | edits r hr =>
      obtain ⟨lead, core, trail, hreduces, hmerge, -⟩ := merge_cut hr
      rw [hmerge, stretches_prepend_equal]
      by_cases htrail : trail = []
      · rw [prepend_of_empty _ htrail, List.append_nil]
        exact hreduces.length_stretches_le hr
      · rw [stretches_append_prepend htrail, List.length_append]
        exact hreduces.length_stretches_le hr
  | cut r t s hr ih =>
      obtain ⟨lead, core, trail, hreduces, -, hmerge⟩ := merge_cut hr
      have ht : t ≠ [] := hs ⟨.equal, t⟩ (by simp) rfl
      have hrest := ih fun e he => hs e (by simp [he])
      have hcore := hreduces.length_stretches_le hr
      rw [hmerge t s ht, stretches_prepend_equal, stretches_append_prepend (by simp [ht]),
        stretches_cut, List.length_append, List.length_append]
      omega

/-! ## Equalities outweighed after merging -/

/-- Between two equalities of a script stands a stretch of edits that deletes what it inserts; the
three spell `u`. -/
def Idle (s : Script) (u : Text) : Prop :=
  ∃ (pre : Script) (a : Text) (r : Script) (b : Text) (post : Script),
    s = pre ++ ⟨.equal, a⟩ :: (r ++ ⟨.equal, b⟩ :: post) ∧ r ≠ [] ∧ r.EditsOnly ∧
      r.source = r.target ∧ u = a ++ r.source ++ b

/-- No equality of a script stands next to another. -/
def Spaced (s : Script) : Prop := s.IsChain fun a b => a.kind = .equal → b.kind ≠ .equal

theorem Idle.append {s : Script} {u : Text} (h : Idle s u) (r : Script) : Idle (r ++ s) u := by
  obtain ⟨pre, a, run, b, post, rfl, hrun⟩ := h
  exact ⟨r ++ pre, a, run, b, post, by simp, hrun⟩

theorem outweighed_prepend_equal {t u : Text} {s : Script} :
    (prepend ⟨.equal, t⟩ s).Outweighed u ↔ s.Outweighed u := by
  unfold prepend
  split
  · rfl
  · split
    · exact outweighed_equal_cons
    · next e s =>
      split
      · next he =>
        obtain ⟨kind, v⟩ := e
        cases he
        rw [outweighed_equal_cons, outweighed_equal_cons]
      · exact outweighed_equal_cons

theorem firstEdits_of_equal {s : Script} (hs : ∀ f ∈ s.head?, f.kind = .equal) :
    firstEdits s = [] := by
  cases s with
  | nil => rfl
  | cons e s => simp [firstEdits, hs e rfl]

/-- An equality that is put before a core joins nothing: it is outweighed by the edits before it and
the core, or what is outweighed is farther on. -/
theorem outweighed_before_core {m core s : Script} (hm : m.EditsOnly) (hcore : core.EditsOnly)
    (hne : core ≠ []) (hs : ∀ f ∈ s.head?, f.kind = .equal) {t u : Text} (ht : t ≠ [])
    (h : (m ++ prepend ⟨.equal, t⟩ (core ++ s)).Outweighed u) :
    (core ++ s).Outweighed u ∨ (u = t ∧ Outweighs m t core) := by
  obtain ⟨e, core, rfl⟩ := List.exists_cons_of_ne_nil hne
  have hedit := (editsOnly_cons.mp hcore).1
  rw [List.cons_append, prepend_eq_cons ht (by simpa using hedit.symm), ← List.cons_append,
    outweighed_cut_iff, firstEdits_append hcore, firstEdits_of_equal hs, List.append_nil,
    lastEdits_eq_self hm] at h
  rcases h with h | h | h
  · exact absurd h (hm.lasting u)
  · exact Or.inl h
  · exact Or.inr h

theorem not_outweighed_last {m : Script} (hm : m.EditsOnly) (t u : Text) :
    ¬(m ++ prepend ⟨.equal, t⟩ []).Outweighed u := by
  by_cases ht : t = []
  · rw [prepend_of_empty _ ht, List.append_nil]
    exact hm.lasting u
  · rw [prepend_eq_cons ht (by simp), outweighed_cut_iff]
    rintro (h | h | ⟨-, h⟩)
    · exact hm.lasting u h
    · exact editsOnly_nil.lasting u h
    · exact h.after_ne_nil rfl

namespace Reduces

variable {r core m : Script} {lead trail t : Text}

theorem outweighs_of_lead (h : Reduces r lead core trail) (hr : r.EditsOnly)
    (ho : Outweighs m (t ++ lead) core) : Outweighs m t r where
  before_ne_nil := ho.before_ne_nil
  after_ne_nil := fun hnil => ho.after_ne_nil (h.core_eq_nil hnil)
  le_before := le_trans (by simp) ho.le_before
  le_after := le_trans (le_trans (by simp) ho.le_after) (h.size_le hr)

theorem outweighs_of_trail (h : Reduces r lead core trail) (hr : r.EditsOnly)
    (ho : Outweighs core (trail ++ t) m) : Outweighs r t m where
  before_ne_nil := fun hnil => ho.before_ne_nil (h.core_eq_nil hnil)
  after_ne_nil := ho.after_ne_nil
  le_before := le_trans (le_trans (by simp) ho.le_before) (h.size_le hr)
  le_after := le_trans (by simp) ho.le_after

end Reduces

/-- What merging leaves outweighed behind some edits `m` and an equality `t`, which ends with the
equality `a` of the script before: it holds a text of `I`, where the idle stretches are. The
equality `t` itself is either not outweighed yet, or holds such a text already. -/
theorem idle_of_outweighed_behind {I : Text → Prop} {s m : Script} {a t u : Text}
    (hs : s.Lasting) (htexts : ∀ e ∈ s, e.kind = .equal → e.text ≠ [])
    (hspaced : Spaced (⟨.equal, a⟩ :: s)) (hidle : ∀ v, Idle (⟨.equal, a⟩ :: s) v → I v)
    (hm : m.EditsOnly) (ht : t ≠ []) (ha : a <:+ t)
    (hout : Outweighs m t s.firstEdits → ∃ v, I v ∧ v <:+: t)
    (h : (m ++ prepend ⟨.equal, t⟩ (merge s)).Outweighed u) : ∃ v, I v ∧ v <:+: u := by
  -- by the stretches of the script: a core in front of them ends what can be joined with `t`, and
  -- without one `t` grows to the next equality and on
  induction s using stretchInduction generalizing m a t with
  | edits r hr =>
      obtain ⟨lead, core, trail, hreduces, hmerge, -⟩ := merge_cut hr
      rw [hmerge, prepend_equal_prepend] at h
      by_cases hcore : core = []
      · rw [hcore, List.nil_append, prepend_equal_prepend] at h
        exact absurd h (not_outweighed_last hm _ u)
      · rcases outweighed_before_core hm hreduces.editsOnly hcore
          (head?_prepend_equal (by simp) trail) (by simp [ht]) h with hcut | ⟨rfl, hcut⟩
        · exact absurd hcut (not_outweighed_last hreduces.editsOnly trail u)
        · rw [firstEdits_eq_self hr] at hout
          obtain ⟨v, hv, hin⟩ := hout (hreduces.outweighs_of_lead hr hcut)
          exact ⟨v, hv, hin.trans (List.prefix_append t lead).isInfix⟩
  | cut r b s hr ih =>
      have hb : b ≠ [] := htexts ⟨.equal, b⟩ (by simp) rfl
      have htexts' : ∀ e ∈ s, e.kind = .equal → e.text ≠ [] := fun e he => htexts e (by simp [he])
      obtain ⟨-, hs', hkept⟩ := lasting_cut_iff.mp hs
      have hspaced' : Spaced (⟨.equal, b⟩ :: s) := hspaced.tail.right_of_append
      have hidle' : ∀ v, Idle (⟨.equal, b⟩ :: s) v → I v := fun v hv =>
        hidle v (hv.append (⟨.equal, a⟩ :: r))
      obtain ⟨lead, core, trail, hreduces, -, hmerge⟩ := merge_cut hr
      rw [hmerge b s hb, prepend_equal_prepend] at h
      by_cases hcore : core = []
      · -- the equalities on both sides are joined across the stretch
        have hne : r ≠ [] := by
          rintro rfl
          exact (List.isChain_cons_cons.mp hspaced).1 rfl rfl
        have hv : I (a ++ r.source ++ b) := hidle _
          ⟨[], a, r, b, s, by simp, hne, hr, hreduces.source_eq_target hcore, rfl⟩
        have hin : a ++ r.source ++ b <:+: t ++ lead ++ (trail ++ b) := by
          obtain ⟨p, rfl⟩ := ha
          rw [hreduces.source, hcore]
          exact ⟨p, [], by simp⟩
        rw [hcore, List.nil_append, prepend_equal_prepend] at h
        exact ih hs' htexts' hspaced' hidle' hm (by simp [ht]) ⟨t ++ lead ++ trail, by simp⟩
          (fun _ => ⟨_, hv, hin⟩) h
      · rcases outweighed_before_core hm hreduces.editsOnly hcore
          (head?_prepend _ (by simp [hb])) (by simp [ht]) h with hcut | ⟨rfl, hcut⟩
        · refine ih hs' htexts' hspaced' hidle' hreduces.editsOnly (by simp [hb])
            (List.suffix_append trail b) (fun ho => ?_) hcut
          -- the equality was not outweighed before it grew
          rw [lastEdits_eq_self hr] at hkept
          exact absurd (hreduces.outweighs_of_trail hr ho) hkept
        · rw [firstEdits_cut, firstEdits_eq_self hr] at hout
          obtain ⟨v, hv, hin⟩ := hout (hreduces.outweighs_of_lead hr hcut)
          exact ⟨v, hv, hin.trans (List.prefix_append t lead).isInfix⟩

/-- **What is outweighed after merging was joined across an idle stretch**, if nothing was
outweighed before. -/
theorem idle_of_outweighed_merge {s : Script} (hs : s.Lasting)
    (htexts : ∀ e ∈ s, e.kind = .equal → e.text ≠ []) (hspaced : Spaced s) {u : Text}
    (h : (merge s).Outweighed u) : ∃ v, Idle s v ∧ v <:+: u := by
  induction s using stretchInduction with
  | edits r hr =>
      obtain ⟨lead, core, trail, hreduces, hmerge, -⟩ := merge_cut hr
      rw [hmerge, outweighed_prepend_equal] at h
      exact absurd h (not_outweighed_last hreduces.editsOnly trail u)
  | cut r t s hr _ =>
      have ht : t ≠ [] := htexts ⟨.equal, t⟩ (by simp) rfl
      obtain ⟨-, hs', hkept⟩ := lasting_cut_iff.mp hs
      obtain ⟨lead, core, trail, hreduces, -, hmerge⟩ := merge_cut hr
      rw [hmerge t s ht, outweighed_prepend_equal] at h
      refine idle_of_outweighed_behind hs' (fun e he => htexts e (by simp [he]))
        hspaced.right_of_append (fun v hv => hv.append r) hreduces.editsOnly (by simp [ht])
        (List.suffix_append trail t) (fun ho => ?_) h
      rw [lastEdits_eq_self hr] at hkept
      exact absurd (hreduces.outweighs_of_trail hr ho) hkept

end Script

end TextHistory
