import TextHistory.Alignment.Path
import TextHistory.Alignment.Slide

/-!
# Sliding keeps a path

The spans around a moving edit lead from corner to corner (`Slide.Zip.Fits`). The edit may be joined
with its neighbour, and a deletion and an insertion may change places, since neither takes tokens
from the list of the other (`Slide.Zip.Fits.swap`). Past kept tokens it moves only as far as they
are like its own (`Slide.Zip.Fits.move_up`, `Slide.Zip.Fits.move_down`). So all edits can be moved,
one after the other (`Slide.path_settle`).
-/

set_option autoImplicit false

namespace TextHistory

namespace Slide

variable {α : Type} {old new : List α} {i j i' j' : Nat}

/-! ## Spans before and after the moving one -/

variable {s : Span} {spans rest : List Span} {length : Nat}

theorem path_reverse_cons : Span.Path old new (s :: rest).reverse i j i' j' ↔
    ∃ m n, Span.Path old new rest.reverse i j m n ∧
      (Block.ofSpan s).Covers old new m n i' j' := by
  rw [List.reverse_cons, Span.path_append]
  simp only [Span.path_singleton]

theorem path_giveAfter (hsame : Alike old new i j length)
    (h : Span.Path old new spans (i + length) (j + length) i' j') :
    Span.Path old new (giveAfter length i j spans) i j i' j' := by
  unfold giveAfter
  split
  · next o n k rest =>
    obtain ⟨m, n, ⟨rfl, rfl, rfl, rfl, hkept⟩, hrest⟩ := h
    rw [Nat.add_sub_cancel, Nat.add_sub_cancel, Nat.add_comm k]
    refine ⟨_, _, ⟨rfl, rfl, rfl, rfl, hsame.append hkept⟩, ?_⟩
    rwa [← Nat.add_assoc, ← Nat.add_assoc]
  · exact ⟨_, _, ⟨rfl, rfl, rfl, rfl, hsame⟩, h⟩

theorem path_giveBefore {m n : Nat} (hsame : Alike old new m n length)
    (h : Span.Path old new spans.reverse i j m n) :
    Span.Path old new (giveBefore length m n spans).reverse i j (m + length) (n + length) := by
  unfold giveBefore
  split
  · next o' n' k rest =>
    obtain ⟨p, q, hrest, rfl, rfl, rfl, rfl, hkept⟩ := path_reverse_cons.mp h
    exact path_reverse_cons.mpr ⟨_, _, hrest, rfl, rfl, Nat.add_assoc _ _ _, Nat.add_assoc _ _ _,
      hkept.append hsame⟩
  · exact path_reverse_cons.mpr ⟨m, n, h, rfl, rfl, rfl, rfl, hsame⟩

/-! ## Zippers -/

/-- A zipper at an edit of a path from corner to corner. -/
structure Zip.Fits (old new : List α) (z : Zip) : Prop where
  isEdit : z.this.isDelete = true ∨ z.this.isInsert = true
  path : ∃ i j i' j', Span.Path old new z.before.reverse 0 0 i j ∧
    (Block.ofSpan z.this).Covers old new i j i' j' ∧
    Span.Path old new z.after i' j' old.length new.length

namespace Zip.Fits

variable {z : Zip} {this : Span} {before after : List Span} {o n : Nat}

theorem path_spans (h : z.Fits old new) :
    Span.Path old new ((z.this :: z.before).reverse ++ z.after) 0 0 old.length new.length := by
  obtain ⟨-, i, j, i', j', hbefore, hthis, hafter⟩ := h
  exact Span.path_append.mpr ⟨i', j', path_reverse_cons.mpr ⟨i, j, hbefore, hthis⟩, hafter⟩

theorem of_path_spans (hedit : this.isDelete = true ∨ this.isInsert = true)
    (h : Span.Path old new (before.reverse ++ this :: after) 0 0 old.length new.length) :
    Fits old new ⟨before, this, after⟩ := by
  obtain ⟨i, j, hbefore, i', j', hthis, hafter⟩ := Span.path_append.mp h
  exact ⟨hedit, i, j, i', j', hbefore, hthis, hafter⟩

theorem drop_before (h : Fits old new ⟨.equal o n 0 :: rest, this, after⟩) :
    Fits old new ⟨rest, this, after⟩ := by
  obtain ⟨hedit, i, j, i', j', hbefore, hthis, hafter⟩ := h
  obtain ⟨p, q, hrest, rfl, rfl, rfl, rfl, -⟩ := path_reverse_cons.mp hbefore
  exact ⟨hedit, _, _, i', j', hrest, hthis, hafter⟩

theorem drop_after (h : Fits old new ⟨before, this, .equal o n 0 :: rest⟩) :
    Fits old new ⟨before, this, rest⟩ := by
  obtain ⟨hedit, i, j, i', j', hbefore, hthis, p, q, ⟨rfl, rfl, rfl, rfl, -⟩, hrest⟩ := h
  exact ⟨hedit, i, j, _, _, hbefore, hthis, hrest⟩

theorem join_before {joined : Span} (h : Fits old new ⟨s :: rest, this, after⟩)
    (hjoin : (Block.ofSpan s).join? this = some (Block.ofSpan joined))
    (hedit : joined.isDelete = true ∨ joined.isInsert = true) :
    Fits old new ⟨rest, joined, after⟩ := by
  obtain ⟨-, i, j, i', j', hbefore, hthis, hafter⟩ := h
  obtain ⟨p, q, hrest, hs⟩ := path_reverse_cons.mp hbefore
  exact ⟨hedit, p, q, i', j', hrest, hs.join hthis hjoin, hafter⟩

theorem join_after {joined : Span} (h : Fits old new ⟨before, this, s :: rest⟩)
    (hjoin : (Block.ofSpan this).join? s = some (Block.ofSpan joined))
    (hedit : joined.isDelete = true ∨ joined.isInsert = true) :
    Fits old new ⟨before, joined, rest⟩ := by
  obtain ⟨-, i, j, i', j', hbefore, hthis, p, q, hs, hrest⟩ := h
  exact ⟨hedit, i, j, p, q, hbefore, hthis.join hs hjoin, hrest⟩

/-- A deletion and an insertion that meet may change places. -/
theorem swap {s t : Span} {m n : Nat} (hs : (Block.ofSpan s).Covers old new i j m n)
    (ht : (Block.ofSpan t).Covers old new m n i' j')
    (hkinds : s.isDelete = true ∧ t.isInsert = true ∨ s.isInsert = true ∧ t.isDelete = true) :
    ∃ p q, (Block.ofSpan t).Covers old new i j p q ∧ (Block.ofSpan s).Covers old new p q i' j' := by
  cases s <;> cases t <;>
    simp only [Span.isDelete, Span.isInsert, reduceCtorEq, and_self, and_false, false_and, or_self]
      at hkinds
  case delete.insert o k n' o' l k' =>
    obtain ⟨rfl, rfl, rfl, hold⟩ := hs
    obtain ⟨rfl, rfl, rfl, hnew⟩ := ht
    exact ⟨_, _, ⟨rfl, rfl, rfl, hnew⟩, ⟨rfl, rfl, rfl, hold⟩⟩
  case insert.delete o l k o' k' n' =>
    obtain ⟨rfl, rfl, rfl, hnew⟩ := hs
    obtain ⟨rfl, rfl, rfl, hold⟩ := ht
    exact ⟨_, _, ⟨rfl, rfl, rfl, hold⟩, ⟨rfl, rfl, rfl, hnew⟩⟩

theorem swap_before (h : Fits old new ⟨s :: rest, this, after⟩)
    (hkinds : s.isDelete = true ∧ this.isInsert = true ∨
      s.isInsert = true ∧ this.isDelete = true) :
    Fits old new ⟨rest, this, s :: after⟩ := by
  obtain ⟨hedit, i, j, i', j', hbefore, hthis, hafter⟩ := h
  obtain ⟨p, q, hrest, hs⟩ := path_reverse_cons.mp hbefore
  obtain ⟨m, n, hthis, hs⟩ := swap hs hthis hkinds
  exact ⟨hedit, p, q, m, n, hrest, hthis, i', j', hs, hafter⟩

theorem swap_after (h : Fits old new ⟨before, this, s :: rest⟩)
    (hkinds : this.isDelete = true ∧ s.isInsert = true ∨
      this.isInsert = true ∧ s.isDelete = true) :
    Fits old new ⟨s :: before, this, rest⟩ := by
  obtain ⟨hedit, i, j, i', j', hbefore, hthis, p, q, hs, hrest⟩ := h
  obtain ⟨m, n, hs, hthis⟩ := swap hthis hs hkinds
  exact ⟨hedit, m, n, p, q, path_reverse_cons.mpr ⟨i, j, hbefore, hs⟩, hthis, hrest⟩

end Zip.Fits

/-! ## Moving -/

theorem isInsert_of_ne_delete (hedit : s.isDelete = true ∨ s.isInsert = true)
    (h : ∀ o k n, s = .delete o k n → False) : s.isInsert = true := by
  cases s with
  | equal => simp [Span.isDelete, Span.isInsert] at hedit
  | delete o k n => exact (h o k n rfl).elim
  | insert => rfl

theorem isDelete_of_ne_insert (hedit : s.isDelete = true ∨ s.isInsert = true)
    (h : ∀ o n k, s = .insert o n k → False) : s.isDelete = true := by
  cases s with
  | equal => simp [Span.isDelete, Span.isInsert] at hedit
  | delete => rfl
  | insert o n k => exact (h o n k rfl).elim

section Moving

variable [DecidableEq α] {a b : Array α} {z : Zip} {this : Span} {before after rest : List Span}
  {o n k : Nat}

/-- The tokens that two stretches end with in common are alike. -/
theorem alike_commonTail {k l : Nat} (hi : i + k ≤ old.length) (hj : j + l ≤ new.length) :
    let s := Text.commonTail ((old.drop i).take k) ((new.drop j).take l)
    s ≤ k ∧ s ≤ l ∧ Alike old new (i + k - s) (j + l - s) s := by
  intro s
  obtain ⟨hk, hl⟩ := Text.commonTail_le ((old.drop i).take k) ((new.drop j).take l)
  have hsame := Text.drop_commonTail ((old.drop i).take k) ((new.drop j).take l)
  change s ≤ _ at hk hl
  change List.drop (_ - s) _ = List.drop (_ - s) _ at hsame
  have hold : ((old.drop i).take k).length = k := by
    rw [List.length_take, List.length_drop]
    omega
  have hnew : ((new.drop j).take l).length = l := by
    rw [List.length_take, List.length_drop]
    omega
  rw [hold] at hk
  rw [hnew] at hl
  rw [hold, hnew, List.drop_take, List.drop_take, List.drop_drop, List.drop_drop,
    Nat.sub_sub_self hk, Nat.sub_sub_self hl] at hsame
  refine ⟨hk, hl, Alike.of_take_drop_eq (by omega) (by omega) ?_⟩
  rwa [Nat.add_sub_assoc hk, Nat.add_sub_assoc hl]

/-- The tokens that two stretches begin with in common are alike. -/
theorem alike_commonLead {k l : Nat} (hi : i + k ≤ old.length) (hj : j + l ≤ new.length) :
    let s := Text.commonLead ((old.drop i).take k) ((new.drop j).take l)
    s ≤ k ∧ s ≤ l ∧ Alike old new i j s := by
  intro s
  obtain ⟨hk, hl⟩ := Text.commonLead_le ((old.drop i).take k) ((new.drop j).take l)
  have hsame := Text.take_commonLead ((old.drop i).take k) ((new.drop j).take l)
  change s ≤ _ at hk hl
  change List.take s _ = List.take s _ at hsame
  rw [List.length_take, List.length_drop] at hk hl
  rw [List.take_take, List.take_take, Nat.min_eq_left (by omega), Nat.min_eq_left (by omega)]
    at hsame
  exact ⟨by omega, by omega, Alike.of_take_drop_eq (by omega) (by omega) hsame⟩

theorem upBy_insert (a b : Array α) (o k o' n l : Nat) :
    upBy a b o k (.insert o' n l)
      = Text.commonTail ((a.toList.drop o).take k) ((b.toList.drop n).take l) := by
  rw [upBy, inserted, Array.toList_extract, Array.toList_extract, List.extract_eq_take_drop,
    List.extract_eq_take_drop, Nat.add_sub_cancel_left, Nat.add_sub_cancel_left]

theorem upBy_delete (a b : Array α) (o k o' k' n : Nat) : upBy a b o k (.delete o' k' n) = 0 :=
  Nat.le_zero.mp (Text.commonTail_le (a.extract o (o + k)).toList []).2

theorem downBy_insert (a b : Array α) (o k o' n l : Nat) :
    downBy a b o k (.insert o' n l)
      = Text.commonLead ((a.toList.drop o).take k) ((b.toList.drop n).take l) := by
  rw [downBy, inserted, Array.toList_extract, Array.toList_extract, List.extract_eq_take_drop,
    List.extract_eq_take_drop, Nat.add_sub_cancel_left, Nat.add_sub_cancel_left]

theorem downBy_delete (a b : Array α) (o k o' k' n : Nat) : downBy a b o k (.delete o' k' n) = 0 :=
  Nat.le_zero.mp (Text.commonLead_le (a.extract o (o + k)).toList []).2

/-- The moving edit goes up past tokens that are like the ones it ends with. -/
theorem Zip.Fits.move_up {s : Nat}
    (h : Fits a.toList b.toList ⟨.equal o n k :: rest, this, after⟩)
    (hs : s = upBy a b o k this) (hpos : 0 < s) :
    s ≤ k ∧ Fits a.toList b.toList ⟨.equal o n (k - s) :: rest, earlier s this,
      giveAfter s (o + k - s) (newEnd this - s) after⟩ := by
  obtain ⟨hedit, i, j, i', j', hbefore, hthis, hafter⟩ := h
  obtain ⟨p, q, hrest, rfl, rfl, rfl, rfl, hkept⟩ := path_reverse_cons.mp hbefore
  cases this with
  | equal => simp [Span.isDelete, Span.isInsert] at hedit
  | delete =>
      rw [upBy_delete] at hs
      omega
  | insert o' n' l =>
      obtain ⟨rfl, rfl, rfl, hnew⟩ := hthis
      obtain ⟨hk, hl, hsame⟩ := alike_commonTail hkept.old_le hnew
      rw [← upBy_insert a b o k o' (n + k) l, ← hs] at hk hl hsame
      have hwhole : Alike a.toList b.toList o n (k - s + s) := by
        rwa [Nat.sub_add_cancel hk]
      refine ⟨hk, .inr rfl, o + (k - s), n + (k - s), o + (k - s), n + (k - s) + l,
        path_reverse_cons.mpr ⟨o, n, hrest, rfl, rfl, rfl, rfl, hwhole.left⟩, ?_, ?_⟩
      · exact ⟨Nat.add_sub_assoc hk n, rfl, rfl, by omega⟩
      · have hold : o + (k - s) = o + k - s := by omega
        have hnew : n + (k - s) + l = n + k + l - s := by omega
        rw [hold, hnew, newEnd]
        refine path_giveAfter hsame ?_
        rwa [Nat.sub_add_cancel (Nat.le_add_left_of_le hk),
          Nat.sub_add_cancel (Nat.le_add_left_of_le hl)]

/-- The moving edit goes down past tokens that are like the ones it begins with. -/
theorem Zip.Fits.move_down {s : Nat}
    (h : Fits a.toList b.toList ⟨before, this, .equal o n k :: rest⟩)
    (hs : s = downBy a b o k this) (hpos : 0 < s) :
    s ≤ k ∧ Fits a.toList b.toList ⟨giveBefore s o (newStart this) before, later s this,
      .equal (o + s) (n + s) (k - s) :: rest⟩ := by
  obtain ⟨hedit, i, j, i', j', hbefore, hthis, p, q, ⟨rfl, rfl, rfl, rfl, hkept⟩, hrest⟩ := h
  cases this with
  | equal => simp [Span.isDelete, Span.isInsert] at hedit
  | delete =>
      rw [downBy_delete] at hs
      omega
  | insert o' n' l =>
      obtain ⟨rfl, rfl, rfl, hnew⟩ := hthis
      obtain ⟨hk, hl, hsame⟩ := alike_commonLead hkept.old_le hnew
      rw [← downBy_insert a b o k o' n' l, ← hs] at hk hl hsame
      have hkeep : Alike a.toList b.toList (o + s) (n' + l + s) (k - s) :=
        Alike.right (by rwa [Nat.add_sub_cancel' hk])
      have hend := hkept.new_le
      refine ⟨hk, .inr rfl, o + s, n' + s, o + s, n' + s + l, path_giveBefore hsame hbefore, ?_,
        o + k, n' + l + k, ?_, hrest⟩
      · exact ⟨rfl, rfl, rfl, by omega⟩
      · have hplace : n' + s + l = n' + l + s := by omega
        rw [hplace]
        exact ⟨rfl, rfl, by omega, by omega, hkeep⟩

theorem Zip.Fits.up (h : z.Fits a.toList b.toList) : (Slide.up a b z).Fits a.toList b.toList := by
  fun_induction Slide.up a b z with
  | case1 => exact h
  -- kept tokens: past some of them, past all of them, past none where none are left, or no further
  | case2 z o n k rest hz s hs after hk ih =>
      obtain ⟨before, this, after⟩ := z
      obtain rfl : before = _ := hz
      exact ih (h.move_up rfl hs).2
  | case3 z o n k rest hz s hs after hk ih =>
      obtain ⟨before, this, after⟩ := z
      obtain rfl : before = _ := hz
      obtain ⟨hle, hmoved⟩ := h.move_up rfl hs
      have hzero : k - s = 0 := by omega
      rw [hzero] at hmoved
      exact ih hmoved.drop_before
  | case4 z o n rest hz s hs ih =>
      obtain ⟨before, this, after⟩ := z
      obtain rfl : before = _ := hz
      exact ih h.drop_before
  | case5 => exact h
  -- a deletion: joined with another one, or passed by an insertion
  | case6 z o k n rest hz o' k' n' hthis ih =>
      obtain ⟨before, this, after⟩ := z
      obtain rfl : before = _ := hz
      obtain rfl : this = _ := hthis
      exact ih (h.join_before rfl (.inl rfl))
  | case7 z o k n rest hz hother ih =>
      obtain ⟨before, this, after⟩ := z
      obtain rfl : before = _ := hz
      exact ih (h.swap_before (.inl ⟨rfl, isInsert_of_ne_delete h.isEdit hother⟩))
  -- an insertion: joined with another one, or passed by a deletion
  | case8 z o n k rest hz o' n' k' hthis ih =>
      obtain ⟨before, this, after⟩ := z
      obtain rfl : before = _ := hz
      obtain rfl : this = _ := hthis
      exact ih (h.join_before rfl (.inr rfl))
  | case9 z o n k rest hz hother ih =>
      obtain ⟨before, this, after⟩ := z
      obtain rfl : before = _ := hz
      exact ih (h.swap_before (.inr ⟨rfl, isDelete_of_ne_insert h.isEdit hother⟩))

theorem Zip.Fits.down (h : z.Fits a.toList b.toList) :
    (Slide.down a b z).Fits a.toList b.toList := by
  fun_induction Slide.down a b z with
  | case1 => exact h
  -- kept tokens: past some of them, past all of them, past none where none are left, or no further
  | case2 z o n k rest hz s hs before hk ih =>
      obtain ⟨before, this, after⟩ := z
      obtain rfl : after = _ := hz
      exact ih (h.move_down rfl hs).2
  | case3 z o n k rest hz s hs before hk ih =>
      obtain ⟨before, this, after⟩ := z
      obtain rfl : after = _ := hz
      obtain ⟨hle, hmoved⟩ := h.move_down rfl hs
      have hzero : k - s = 0 := by omega
      rw [hzero] at hmoved
      exact ih hmoved.drop_after
  | case4 z o n rest hz s hs ih =>
      obtain ⟨before, this, after⟩ := z
      obtain rfl : after = _ := hz
      exact ih h.drop_after
  | case5 => exact h
  -- a deletion: joined with another one, or passed by an insertion
  | case6 z o k n rest hz o' k' n' hthis ih =>
      obtain ⟨before, this, after⟩ := z
      obtain rfl : after = _ := hz
      obtain rfl : this = _ := hthis
      exact ih (h.join_after rfl (.inl rfl))
  | case7 z o k n rest hz hother ih =>
      obtain ⟨before, this, after⟩ := z
      obtain rfl : after = _ := hz
      exact ih (h.swap_after (.inr ⟨isInsert_of_ne_delete h.isEdit hother, rfl⟩))
  -- an insertion: joined with another one, or passed by a deletion
  | case8 z o n k rest hz o' n' k' hthis ih =>
      obtain ⟨before, this, after⟩ := z
      obtain rfl : after = _ := hz
      obtain rfl : this = _ := hthis
      exact ih (h.join_after rfl (.inr rfl))
  | case9 z o n k rest hz hother ih =>
      obtain ⟨before, this, after⟩ := z
      obtain rfl : after = _ := hz
      exact ih (h.swap_after (.inl ⟨isDelete_of_ne_insert h.isEdit hother, rfl⟩))

/-! ## Sweeping -/

/-- Moving all edits of a kind keeps a path from corner to corner. -/
theorem path_sweep {kind : Span → Bool}
    (hkind : ∀ s, kind s = true → s.isDelete = true ∨ s.isInsert = true) (rounds : Nat)
    (h : Span.Path a.toList b.toList (before.reverse ++ after) 0 0 a.toList.length
      b.toList.length) :
    Span.Path a.toList b.toList (sweep kind a b rounds before after) 0 0 a.toList.length
      b.toList.length := by
  induction rounds generalizing before after with
  | zero => exact h
  | succ rounds ih =>
      rw [sweep]
      split
      · exact h
      · next this rest hdrop =>
        have hthis : kind this = true := by
          have hfirst := List.head?_dropWhile_not (fun s => !kind s) after
          simpa [hdrop] using hfirst
        have hafter : after.takeWhile (!kind ·) ++ this :: rest = after := by
          rw [← hdrop, List.takeWhile_append_dropWhile]
        rw [← hafter] at h
        have hfits : Zip.Fits a.toList b.toList
            ⟨(after.takeWhile (!kind ·)).reverse ++ before, this, rest⟩ :=
          Zip.Fits.of_path_spans (hkind this hthis) (by simpa using h)
        exact ih hfits.up.down.path_spans

/-- **Sliding keeps a path from corner to corner.** -/
theorem path_settle {spans : List Span}
    (h : Span.Path a.toList b.toList spans 0 0 a.toList.length b.toList.length) :
    Span.Path a.toList b.toList (settle a b spans) 0 0 a.toList.length b.toList.length :=
  path_sweep (fun _ => .inr) _ (path_sweep (fun _ => .inl) _ h)

end Moving

end Slide

end TextHistory
