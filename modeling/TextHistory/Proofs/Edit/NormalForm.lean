import Mathlib.Data.List.Chain
import TextHistory.Proofs.Edit.Soundness

/-!
# Scripts in normal form

A script is in *normal form* (`Script.Normal`) when no run is empty, no run stands next to one of
its own kind, and the edits between two equalities, or at either end, are settled: a deletion, an
insertion, or a deletion and then an insertion, which neither begin nor end with the same character.
Neighbours are enough to tell (`Script.normal_iff_isChain`).

Merging settles the edits between equalities and joins what is left, so it leaves a script in normal
form, whatever the edits were, as long as every equality is there for something
(`Script.normal_merge`). Scripts between texts are merged last, and they are merged once more
where equalities were absorbed, so they are in normal form (`Tuning.script_normal`).
-/

set_option autoImplicit false

namespace TextHistory

/-! ## Where two texts part -/

namespace Text

variable {α : Type} [DecidableEq α]

/-- Behind their common beginning two lists go on differently. -/
theorem head?_drop_commonLead (xs ys : List α) (hx : xs.drop (commonLead xs ys) ≠ [])
    (hy : ys.drop (commonLead xs ys) ≠ []) :
    (xs.drop (commonLead xs ys)).head? ≠ (ys.drop (commonLead xs ys)).head? := by
  fun_induction commonLead xs ys with
  | case1 x xs ys ih =>
      simp only [List.drop_succ_cons] at hx hy ⊢
      exact ih hx hy
  | case2 x xs y ys hne => simpa using hne
  | case3 xs ys hshort =>
      -- one of the lists is at its end
      cases xs with
      | nil => exact absurd rfl hx
      | cons x xs =>
          cases ys with
          | nil => exact absurd rfl hy
          | cons y ys => exact (hshort x xs y ys rfl rfl).elim

theorem getLast?_take_commonTail (xs ys : List α)
    (hx : xs.take (xs.length - commonTail xs ys) ≠ [])
    (hy : ys.take (ys.length - commonTail xs ys) ≠ []) :
    (xs.take (xs.length - commonTail xs ys)).getLast?
      ≠ (ys.take (ys.length - commonTail xs ys)).getLast? := by
  have h := head?_drop_commonLead xs.reverse ys.reverse
  rw [List.drop_reverse, List.drop_reverse, List.head?_reverse, List.head?_reverse] at h
  exact h (List.reverse_ne_nil_iff.mpr hx) (List.reverse_ne_nil_iff.mpr hy)

omit [DecidableEq α] in
theorem head?_take_of_ne_nil {xs : List α} {n : Nat} (h : xs.take n ≠ []) :
    (xs.take n).head? = xs.head? := by
  rw [List.head?_take, if_neg]
  rintro rfl
  exact h List.take_zero

end Text

/-! ## The normal form -/

/-- One run may stand directly before another: they are of different kinds, and if neither is an
equality, they are a deletion and an insertion that differ in their first and last characters. -/
def Edit.MayPrecede (a b : Edit) : Prop :=
  a.kind ≠ b.kind ∧ (a.kind = .equal ∨ b.kind = .equal ∨
    (a.kind = .delete ∧ a.text.head? ≠ b.text.head? ∧ a.text.getLast? ≠ b.text.getLast?))

instance : DecidableRel Edit.MayPrecede := fun _ _ => inferInstanceAs (Decidable (_ ∧ _))

/-- Any edit may precede an equality. -/
theorem Edit.mayPrecede_equal {a b : Edit} (ha : a.kind ≠ .equal) (hb : b.kind = .equal) :
    a.MayPrecede b :=
  ⟨hb ▸ ha, Or.inr (Or.inl hb)⟩

namespace Script

/-- The edits between two equalities, with nothing left that could be merged. -/
inductive Settled : Script → Prop where
  | none : Settled []
  | deletion (t : Text) : Settled [⟨.delete, t⟩]
  | insertion (t : Text) : Settled [⟨.insert, t⟩]
  | both {gone come : Text} : gone.head? ≠ come.head? → gone.getLast? ≠ come.getLast? →
      Settled [⟨.delete, gone⟩, ⟨.insert, come⟩]

/-- A script in normal form: no run is empty, no two neighbours are of one kind, and every stretch
without an equality is settled. -/
structure Normal (s : Script) : Prop where
  nonempty : ∀ e ∈ s, e.text ≠ []
  alternates : s.IsChain fun a b => a.kind ≠ b.kind
  settled : ∀ pre run post, s = pre ++ run ++ post → (∀ e ∈ run, e.kind ≠ .equal) → Settled run

/-- Two neighbours without an equality are settled together when one may precede the other. -/
theorem settled_pair_iff {a b : Edit} (ha : a.kind ≠ .equal) (hb : b.kind ≠ .equal) :
    Settled [a, b] ↔ a.MayPrecede b := by
  constructor
  · rintro (_ | _ | _ | ⟨hhead, hlast⟩)
    exact ⟨EditKind.noConfusion, Or.inr (Or.inr ⟨rfl, hhead, hlast⟩)⟩
  · rintro ⟨hkind, h | h | ⟨hdelete, hhead, hlast⟩⟩
    · exact absurd h ha
    · exact absurd h hb
    · obtain ⟨_, gone⟩ := a
      obtain ⟨kind, come⟩ := b
      cases hdelete
      cases kind with
      | equal => exact absurd rfl hb
      | delete => exact absurd rfl hkind
      | insert => exact .both hhead hlast

/-- A chain of runs without an equality has two members at most. -/
theorem settled_of_isChain {run : Script} (hrun : ∀ e ∈ run, e.kind ≠ .equal)
    (h : run.IsChain Edit.MayPrecede) : Settled run := by
  match run with
  | [] => exact .none
  | [⟨.equal, t⟩] => exact absurd rfl (hrun _ List.mem_cons_self)
  | [⟨.delete, t⟩] => exact .deletion t
  | [⟨.insert, t⟩] => exact .insertion t
  | [a, b] =>
      exact (settled_pair_iff (hrun a (by simp)) (hrun b (by simp))).mpr (List.isChain_pair.mp h)
  | a :: b :: c :: rest =>
      -- the second one would have to be an insertion and a deletion
      obtain ⟨⟨hab, hab'⟩, ⟨hbc, hbc'⟩, -⟩ : a.MayPrecede b ∧ b.MayPrecede c ∧ _ := by
        simpa only [List.isChain_cons_cons] using h
      have ha := hrun a (by simp)
      have hb := hrun b (by simp)
      have hc := hrun c (by simp)
      have hda : a.kind = .delete := by tauto
      have hdb : b.kind = .delete := by tauto
      exact absurd (hda.trans hdb.symm) hab

/-- Whether a script is in normal form can be told from its runs and its pairs of neighbours. -/
theorem normal_iff_isChain {s : Script} :
    Normal s ↔ (∀ e ∈ s, e.text ≠ []) ∧ s.IsChain Edit.MayPrecede := by
  constructor
  · intro h
    refine ⟨h.nonempty, List.isChain_iff_forall_rel_of_append_cons_cons.mpr ?_⟩
    intro a b pre post hs
    have hkind : a.kind ≠ b.kind :=
      List.isChain_iff_forall_rel_of_append_cons_cons.mp h.alternates hs
    by_cases ha : a.kind = .equal
    · exact ⟨hkind, Or.inl ha⟩
    · by_cases hb : b.kind = .equal
      · exact ⟨hkind, Or.inr (Or.inl hb)⟩
      · refine (settled_pair_iff ha hb).mp (h.settled pre [a, b] post (by simpa using hs) ?_)
        simp [ha, hb]
  · rintro ⟨hne, hchain⟩
    refine ⟨hne, hchain.imp fun a b hab => hab.1, ?_⟩
    rintro pre run post rfl hrun
    exact settled_of_isChain hrun hchain.left_of_append.right_of_append

instance : DecidablePred Normal := fun _ => decidable_of_iff _ normal_iff_isChain.symm

example : Normal [⟨.delete, ['a', 'b']⟩, ⟨.insert, ['b', 'a']⟩, ⟨.equal, ['c']⟩] := by decide

example : ¬Normal [⟨.insert, ['a']⟩, ⟨.delete, ['b']⟩] := by decide

theorem normal_nil : Normal [] := normal_iff_isChain.mpr ⟨by simp, .nil⟩

theorem normal_cons {e : Edit} {s : Script} (hs : Normal s) (he : e.text ≠ [])
    (h : ∀ f ∈ s.head?, e.MayPrecede f) : Normal (e :: s) := by
  obtain ⟨hne, hchain⟩ := normal_iff_isChain.mp hs
  exact normal_iff_isChain.mpr ⟨List.forall_mem_cons.mpr ⟨he, hne⟩, hchain.cons h⟩

/-! ## Putting runs in front -/

theorem prepend_of_empty {e : Edit} (s : Script) (he : e.text = []) : prepend e s = s :=
  if_pos (List.isEmpty_iff.mpr he)

/-- A run that is not joined with the first one stands before it. -/
theorem prepend_eq_cons {e : Edit} {s : Script} (he : e.text ≠ [])
    (h : ∀ f ∈ s.head?, e.kind ≠ f.kind) : prepend e s = e :: s := by
  unfold prepend
  rw [if_neg (by simpa using he)]
  split
  · rfl
  · next f rest => exact if_neg (h f rfl)

theorem head?_prepend {e : Edit} (s : Script) (he : e.text ≠ []) :
    ∀ f ∈ (prepend e s).head?, f.kind = e.kind := by
  unfold prepend
  rw [if_neg (by simpa using he)]
  intro f hf
  split at hf
  · cases hf
    rfl
  · split at hf
    · cases hf
      rfl
    · cases hf
      rfl

theorem normal_prepend {e : Edit} {s : Script} (hs : Normal s)
    (h : e.text ≠ [] → ∀ f ∈ s.head?, e.MayPrecede f) : Normal (prepend e s) := by
  by_cases he : e.text = []
  · rw [prepend_of_empty s he]
    exact hs
  · rw [prepend_eq_cons he fun f hf => (h he f hf).1]
    exact normal_cons hs he (h he)

/-- An equality may come before any script in normal form; it joins one that is there. -/
theorem normal_prepend_equal {s : Script} (hs : Normal s) (t : Text) :
    Normal (prepend ⟨.equal, t⟩ s) := by
  by_cases hjoin : t ≠ [] ∧ ∃ f ∈ s.head?, EditKind.equal = f.kind
  · obtain ⟨ht, f, hf, hkind⟩ := hjoin
    obtain ⟨rest, rfl⟩ := List.head?_eq_some_iff.mp hf
    obtain ⟨hne, hchain⟩ := normal_iff_isChain.mp hs
    have hprepend : prepend ⟨.equal, t⟩ (f :: rest) = ⟨.equal, t ++ f.text⟩ :: rest := by
      rw [prepend, if_neg (by simpa using ht)]
      exact if_pos hkind
    rw [hprepend]
    rw [List.forall_mem_cons] at hne
    -- what may follow an equality does not depend on its text
    refine normal_iff_isChain.mpr ⟨List.forall_mem_cons.mpr ⟨by simp [ht], hne.2⟩, ?_⟩
    exact hchain.imp_head fun {g} hg => ⟨hkind ▸ hg.1, Or.inl rfl⟩
  · refine normal_prepend hs fun ht f hf => ⟨fun hkind => ?_, Or.inl rfl⟩
    exact hjoin ⟨ht, f, hf, hkind⟩

/-! ## Merging -/

/-- What is left of two texts without their common ends differs in its own ends. -/
theorem settled_ends (deleted inserted : Text) :
    let lead := Text.commonLead deleted inserted
    let gone := deleted.drop lead
    let come := inserted.drop lead
    let tail := Text.commonTail gone come
    gone.take (gone.length - tail) ≠ [] → come.take (come.length - tail) ≠ [] →
      (gone.take (gone.length - tail)).head? ≠ (come.take (come.length - tail)).head? ∧
      (gone.take (gone.length - tail)).getLast? ≠ (come.take (come.length - tail)).getLast? := by
  intro lead gone come tail hgone hcome
  refine ⟨?_, Text.getLast?_take_commonTail gone come hgone hcome⟩
  rw [Text.head?_take_of_ne_nil hgone, Text.head?_take_of_ne_nil hcome]
  refine Text.head?_drop_commonLead deleted inserted ?_ ?_
  · rintro hnil
    exact hgone (by rw [show gone = [] from hnil, List.take_nil])
  · rintro hnil
    exact hcome (by rw [show come = [] from hnil, List.take_nil])

/-- Settled edits may come before what begins with an equality. -/
theorem normal_settle {s : Script} (deleted inserted : Text) (hs : Normal (coalesce s))
    (hhead : ∀ f ∈ (coalesce s).head?, f.kind = .equal) :
    Normal (coalesce (settle deleted inserted ++ s)) := by
  obtain ⟨lead, gone, come, tail, hsettle, hends⟩ : ∃ lead gone come tail,
      settle deleted inserted
          = [⟨.equal, lead⟩, ⟨.delete, gone⟩, ⟨.insert, come⟩, ⟨.equal, tail⟩] ∧
        (gone ≠ [] → come ≠ [] → gone.head? ≠ come.head? ∧ gone.getLast? ≠ come.getLast?) :=
    ⟨_, _, _, _, rfl, settled_ends deleted inserted⟩
  rw [hsettle]
  show Normal (prepend ⟨.equal, lead⟩ (prepend ⟨.delete, gone⟩ (prepend ⟨.insert, come⟩
    (prepend ⟨.equal, tail⟩ (coalesce s)))))
  have htail : ∀ f ∈ (prepend ⟨.equal, tail⟩ (coalesce s)).head?, f.kind = .equal := by
    by_cases ht : tail = []
    · rw [ht]
      exact hhead
    · exact head?_prepend _ ht
  have hnormal := normal_prepend_equal hs tail
  have hinsert : Normal (prepend ⟨.insert, come⟩ (prepend ⟨.equal, tail⟩ (coalesce s))) :=
    normal_prepend hnormal fun _ f hf => Edit.mayPrecede_equal EditKind.noConfusion (htail f hf)
  refine normal_prepend_equal (normal_prepend hinsert fun hgone f hf => ?_) lead
  by_cases hcome : come = []
  · -- without an insertion an equality comes next
    rw [prepend_of_empty _ hcome] at hf
    exact Edit.mayPrecede_equal EditKind.noConfusion (htail f hf)
  · rw [prepend_eq_cons hcome fun g hg => by simp [htail g hg]] at hf
    cases hf
    exact ⟨by simp, Or.inr (Or.inr ⟨rfl, hends hgone hcome⟩)⟩

theorem normal_settleRuns (deleted inserted : Text) {s : Script}
    (hs : ∀ e ∈ s, e.kind = .equal → e.text ≠ []) :
    Normal (coalesce (settleRuns deleted inserted s)) := by
  fun_induction settleRuns deleted inserted s with
  | case1 deleted inserted =>
      rw [← List.append_nil (settle deleted inserted)]
      exact normal_settle deleted inserted normal_nil (by simp [coalesce])
  | case2 deleted inserted t rest ih => exact ih (List.forall_mem_cons.mp hs).2
  | case3 deleted inserted t rest ih => exact ih (List.forall_mem_cons.mp hs).2
  | case4 deleted inserted t rest ih =>
      obtain ⟨ht, hrest⟩ := List.forall_mem_cons.mp hs
      exact normal_settle deleted inserted (normal_prepend_equal (ih hrest) t)
        (head?_prepend _ (ht rfl))

/-- **Merging leaves a script in normal form**, if no equality in it is empty. -/
theorem normal_merge {s : Script} (hs : ∀ e ∈ s, e.kind = .equal → e.text ≠ []) :
    Normal (merge s) :=
  normal_settleRuns [] [] hs

/-! ## Scripts between texts -/

theorem text_ne_nil_of_mem_coalesce (s : Script) : ∀ e ∈ coalesce s, e.text ≠ [] := by
  induction s with
  | nil => simp [coalesce]
  | cons e s ih =>
      show ∀ f ∈ prepend e (coalesce s), f.text ≠ []
      unfold prepend
      split
      · exact ih
      · next he =>
        have he : e.text ≠ [] := by simpa using he
        split
        · simpa using he
        · next f rest hrest =>
          rw [hrest, List.forall_mem_cons] at ih
          split
          · exact List.forall_mem_cons.mpr ⟨by simp [he], ih.2⟩
          · exact List.forall_mem_cons.mpr ⟨he, List.forall_mem_cons.mpr ih⟩

theorem normal_betweenBy (search : Aligner) (old new : Text) :
    Normal (betweenBy search old new) := by
  unfold betweenBy
  split
  · exact normal_prepend_equal normal_nil old
  · exact normal_merge fun e he _ => text_ne_nil_of_mem_coalesce _ e he

end Script

/-! ## Absorbing equalities -/

namespace Scan

/-- A step writes no empty run, and it touches the script only when it absorbs an equality. -/
theorem step_nonempty {s s' : Scan} (h : s.step = some s') (hs : ∀ e ∈ s.edits, e.text ≠ []) :
    (∀ e ∈ s'.edits, e.text ≠ []) ∧
      (s'.changed = false → s.changed = false ∧ s'.edits = s.edits) := by
  unfold step at h
  split at h
  · cases h
  · cases h
    exact ⟨hs, fun hc => ⟨hc, rfl⟩⟩
  · split at h
    · next i t outer ha =>
      cases h
      have ht : t ≠ [] := hs _ (List.mem_of_getElem? (getElem?_of_absorbable ha))
      refine ⟨?_, Bool.noConfusion⟩
      intro e he
      simp only [absorb, split, List.mem_append, List.mem_cons] at he
      rcases he with he | rfl | rfl | he
      · exact hs e (List.mem_of_mem_take he)
      · exact ht
      · exact ht
      · exact hs e (List.mem_of_mem_drop he)
    · cases h
      exact ⟨hs, fun hc => ⟨hc, rfl⟩⟩

theorem run_nonempty (s : Scan) (hs : ∀ e ∈ s.edits, e.text ≠ []) :
    (∀ e ∈ s.run.edits, e.text ≠ []) ∧
      (s.run.changed = false → s.changed = false ∧ s.run.edits = s.edits) := by
  fun_induction run s with
  | case1 s h => exact ⟨hs, fun hc => ⟨hc, rfl⟩⟩
  | case2 s s' h ih =>
      obtain ⟨hne, hsame⟩ := step_nonempty h hs
      obtain ⟨hne', hsame'⟩ := ih hne
      refine ⟨hne', fun hc => ?_⟩
      obtain ⟨hc', hedits⟩ := hsame' hc
      obtain ⟨hc'', hedits'⟩ := hsame hc'
      exact ⟨hc'', hedits.trans hedits'⟩

end Scan

/-- Absorption keeps the normal form: what it splits is merged again. -/
theorem Script.normal_absorb {s : Script} (hs : Normal s) : Normal (absorb s) := by
  obtain ⟨hne, hsame⟩ := Scan.run_nonempty { edits := s } hs.nonempty
  simp only [absorb]
  split
  · exact normal_merge fun e he _ => hne e he
  · next hc =>
    rw [(hsame (by simpa using hc)).2]
    exact hs

/-- **Scripts are sound and in normal form.** The script from which a patch is made leads from the
old text to the new one. None of its runs is empty, neighbours are of different kinds, and between
two equalities, or at either end, there is at most one deletion and then at most one insertion,
which differ in their first and in their last characters. -/
theorem Tuning.script_normal (o : Tuning) (old new : Text) :
    (o.script old new).Spells old new ∧ (o.script old new).Normal := by
  refine ⟨o.script_spells old new, ?_⟩
  unfold Tuning.script
  split
  · exact Script.normal_absorb (Script.normal_betweenBy _ old new)
  · exact Script.normal_betweenBy _ old new

end TextHistory
