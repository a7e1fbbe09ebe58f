import TextHistory.Tuning

/-!
# Scripts spell the texts they were made from

`Script.Spells s old new` says that the script `s` leads from `old` to `new`. Every pass over a
script keeps both texts: joining neighbours (`Spells.coalesce`), merging the edits between
equalities (`Spells.merge`) and absorbing short equalities (`Spells.absorb`). The script that an
alignment gives spells the two aligned texts (`spells_ofBlocks`), so the script of a tuning leads
from the old text to the new one (`Tuning.script_spells`).
-/

set_option autoImplicit false

namespace TextHistory

namespace Script

/-! ## The texts of a script -/

/-- A script leads from one text to another. -/
structure Spells (s : Script) (old new : Text) : Prop where
  source : s.source = old
  target : s.target = new

theorem spells_self (s : Script) : Spells s s.source s.target := ⟨rfl, rfl⟩

theorem Spells.append {s t : Script} {old new old' new' : Text} (hs : Spells s old new)
    (ht : Spells t old' new') : Spells (s ++ t) (old ++ old') (new ++ new') :=
  ⟨by rw [source_append, hs.source, ht.source], by rw [target_append, hs.target, ht.target]⟩

/-! ## Joining neighbours -/

theorem source_prepend (e : Edit) (s : Script) : source (prepend e s) = source (e :: s) := by
  unfold prepend
  split
  · next h => simp [source_cons, List.isEmpty_iff.mp h]
  · split
    · rfl
    · next f rest =>
      split
      · next hk =>
        simp only [source_cons, hk]
        split <;> simp
      · rfl

theorem target_prepend (e : Edit) (s : Script) : target (prepend e s) = target (e :: s) := by
  unfold prepend
  split
  · next h => simp [target_cons, List.isEmpty_iff.mp h]
  · split
    · rfl
    · next f rest =>
      split
      · next hk =>
        simp only [target_cons, hk]
        split <;> simp
      · rfl

theorem Spells.coalesce {s : Script} {old new : Text} (h : Spells s old new) :
    Spells (coalesce s) old new := by
  obtain ⟨rfl, rfl⟩ := h
  induction s with
  | nil => exact ⟨rfl, rfl⟩
  | cons e s ih =>
      constructor
      · show Script.source (prepend e (Script.coalesce s)) = _
        rw [source_prepend, source_cons, source_cons, ih.source]
      · show Script.target (prepend e (Script.coalesce s)) = _
        rw [target_prepend, target_cons, target_cons, ih.target]

/-! ## Merging -/

/-- The text before the common beginning and end of two texts is cut into these and the rest. -/
theorem lead_body_tail (xs ys : Text) :
    let lead := Text.commonLead xs ys
    let tail := Text.commonTail (xs.drop lead) (ys.drop lead)
    xs = ys.take lead ++ ((xs.drop lead).take ((xs.drop lead).length - tail)
        ++ (ys.drop lead).drop ((ys.drop lead).length - tail)) := by
  intro lead tail
  rw [← Text.drop_commonTail, List.take_append_drop, ← Text.take_commonLead,
    List.take_append_drop]

theorem settle_spells (deleted inserted : Text) :
    Spells (settle deleted inserted) deleted inserted := by
  constructor
  · simp only [settle, source_cons, source_nil, reduceCtorEq, if_false, if_true, List.append_nil,
      List.nil_append]
    exact (lead_body_tail deleted inserted).symm
  · simp only [settle, target_cons, target_nil, reduceCtorEq, if_false, if_true, List.append_nil,
      List.nil_append, List.take_append_drop]

theorem settleRuns_spells (deleted inserted : Text) (s : Script) :
    Spells (settleRuns deleted inserted s) (deleted ++ s.source) (inserted ++ s.target) := by
  fun_induction settleRuns deleted inserted s with
  | case1 deleted inserted => simpa using settle_spells deleted inserted
  | case2 deleted inserted t rest ih => simpa [source_cons, target_cons] using ih
  | case3 deleted inserted t rest ih => simpa [source_cons, target_cons] using ih
  | case4 deleted inserted t rest ih =>
      have ht : Spells (⟨.equal, t⟩ :: settleRuns [] [] rest)
          (Script.source (⟨.equal, t⟩ :: rest)) (Script.target (⟨.equal, t⟩ :: rest)) :=
        ⟨by simp [source_cons, ih.source], by simp [target_cons, ih.target]⟩
      exact (settle_spells deleted inserted).append ht

theorem Spells.merge {s : Script} {old new : Text} (h : Spells s old new) :
    Spells (merge s) old new := by
  have := settleRuns_spells [] [] s
  rw [h.source, h.target] at this
  exact this.coalesce

end Script

/-! ## Absorbing equalities -/

namespace Scan

theorem split_spells {edits : Script} {i : Nat} {t : Text} (h : edits[i]? = some ⟨.equal, t⟩) :
    Script.Spells (split edits i t) edits.source edits.target := by
  obtain ⟨hi, hx⟩ := List.getElem?_eq_some_iff.mp h
  have hcut : edits = edits.take i ++ ⟨.equal, t⟩ :: edits.drop (i + 1) := by
    rw [← hx, ← List.drop_eq_getElem_cons hi, List.take_append_drop]
  constructor
  · conv => rhs; rw [hcut]
    simp [split, Script.source_append, Script.source_cons]
  · conv => rhs; rw [hcut]
    simp [split, Script.target_append, Script.target_cons]

/-- A step keeps the two texts of the script. -/
theorem step_spells {s s' : Scan} (h : s.step = some s') :
    Script.Spells s'.edits s.edits.source s.edits.target := by
  unfold step at h
  split at h
  · cases h
  · cases h
    exact Script.spells_self _
  · split at h
    · next i t outer ha =>
      cases h
      exact split_spells (getElem?_of_absorbable ha)
    · cases h
      exact Script.spells_self _

theorem run_spells (s : Scan) : Script.Spells s.run.edits s.edits.source s.edits.target := by
  fun_induction run s with
  | case1 s h => exact Script.spells_self _
  | case2 s s' h ih =>
      have hs := step_spells h
      rwa [hs.source, hs.target] at ih

end Scan

namespace Script

theorem Spells.absorb {s : Script} {old new : Text} (h : Spells s old new) :
    Spells (absorb s) old new := by
  obtain ⟨rfl, rfl⟩ := h
  have hrun := Scan.run_spells { edits := s }
  simp only [Script.absorb]
  split
  · exact hrun.merge
  · exact hrun

/-! ## Scripts from alignments -/

theorem flatten_drop_eq (tokens : List Text) (i k : Nat) :
    (tokens.drop i).flatten = pick tokens i k ++ (tokens.drop (i + k)).flatten := by
  rw [pick, ← List.drop_drop, ← List.flatten_append, List.take_append_drop]

/-- The script of some blocks leads from the old tokens to the new ones, from the place on where
the blocks begin. -/
theorem spells_ofBlocks {a b : List Text} {refine : Text → Text → Script}
    (hr : ∀ old new, Spells (refine old new) old new) {blocks : List Block} {i j : Nat}
    (h : Block.Path a b blocks i j a.length b.length) :
    Spells (blocks.flatMap (ofBlock a b refine)) (a.drop i).flatten (b.drop j).flatten := by
  induction blocks generalizing i j with
  | nil =>
      obtain ⟨rfl, rfl⟩ := h
      rw [List.drop_length, List.drop_length]
      exact ⟨rfl, rfl⟩
  | cons block rest ih =>
      obtain ⟨p, q, hblock, hrest⟩ := h
      rw [List.flatMap_cons]
      cases block with
      | equal o n k =>
          -- the tokens are the same on both sides, so either side spells them
          obtain ⟨rfl, rfl, rfl, rfl, hsame⟩ := hblock
          rw [flatten_drop_eq a o k, flatten_drop_eq b n k]
          refine Spells.append ⟨?_, ?_⟩ (ih hrest)
          · simp [ofBlock, source_cons]
          · simp [ofBlock, target_cons, pick, hsame.take_drop_eq]
      | delete o k n =>
          obtain ⟨rfl, rfl, rfl, -⟩ := hblock
          rw [flatten_drop_eq a o k, ← List.nil_append (b.drop q).flatten]
          refine Spells.append ⟨?_, ?_⟩ (ih hrest)
          · simp [ofBlock, source_cons]
          · simp [ofBlock, target_cons]
      | insert o n k =>
          obtain ⟨rfl, rfl, rfl, -⟩ := hblock
          rw [flatten_drop_eq b n k, ← List.nil_append (a.drop p).flatten]
          refine Spells.append ⟨?_, ?_⟩ (ih hrest)
          · simp [ofBlock, source_cons]
          · simp [ofBlock, target_cons]
      | replace o k n k' =>
          obtain ⟨rfl, rfl, rfl, rfl, -⟩ := hblock
          rw [flatten_drop_eq a o k, flatten_drop_eq b n k']
          exact Spells.append (hr _ _) (ih hrest)

theorem align_spells {refine : Text → Text → Script}
    (hr : ∀ old new, Spells (refine old new) old new) {a b : List Text} (g : Alignment a b) :
    Spells (g.blocks.flatMap (ofBlock a b refine)) a.flatten b.flatten :=
  spells_ofBlocks hr g.path

theorem swap_spells (old new : Text) : Spells (swap old new) old new :=
  ⟨by simp [swap, source_cons], by simp [swap, target_cons]⟩

theorem flatten_map_singleton (t : Text) : (t.map fun c => [c]).flatten = t := by
  induction t with
  | nil => rfl
  | cons c t ih => simp [ih]

theorem betweenChars_spells (search : Aligner) (old new : Text) :
    Spells (betweenChars search old new) old new := by
  have h := align_spells swap_spells (search (old.map fun c => [c]) (new.map fun c => [c]))
  rwa [flatten_map_singleton, flatten_map_singleton] at h

theorem betweenLines_spells (search : Aligner) (old new : Text) :
    Spells (betweenLines search old new) old new := by
  have h := align_spells (betweenChars_spells search) (search (Text.lines old) (Text.lines new))
  rwa [Text.flatten_lines, Text.flatten_lines] at h

/-- The script between two texts leads from the one to the other, whatever the search finds. -/
theorem betweenBy_spells (search : Aligner) (old new : Text) :
    Spells (betweenBy search old new) old new := by
  unfold betweenBy
  split
  · next h =>
    subst h
    exact Spells.coalesce ⟨by simp [source_cons], by simp [target_cons]⟩
  · exact (betweenLines_spells search old new).coalesce.merge

end Script

/-- **Scripts are sound.** The script from which a patch is made leads from the old text to the
new one, whether or not short equalities are absorbed, and however early the search is cut short. -/
theorem Tuning.script_spells (o : Tuning) (old new : Text) :
    (o.script old new).Spells old new := by
  unfold Tuning.script
  split
  · exact (Script.betweenBy_spells _ old new).absorb
  · exact Script.betweenBy_spells _ old new

end TextHistory
