import TextHistory.Alignment.Path
import TextHistory.Alignment.Search

/-!
# The search covers both lists

A box of the grid is crossed by spans that lead from its first corner to its last one
(`Search.Box.Crossed`). What a box begins and ends with in common leads to the rest of it
(`Search.crossed_shrink`), and where the rest is cut in two at any point inside it, spans that cross
both parts cross it (`Search.Box.Crossed.halves`). So the search crosses every box, wherever its
walks meet (`Search.crossed_conquer`), and the whole grid (`Search.path_spans`).
-/

set_option autoImplicit false

namespace TextHistory

variable {α : Type} {a b : Array α}

namespace Search

theorem path_keep {i j length : Nat} (h : Alike a.toList b.toList i j length) :
    Span.Path a.toList b.toList (keep i j length) i j (i + length) (j + length) := by
  rw [keep]
  split
  · next hzero =>
    subst hzero
    exact Span.path_nil
  · exact Span.path_singleton.mpr ⟨rfl, rfl, rfl, rfl, h⟩

/-! ## Boxes -/

/-- A box that lies within both arrays. -/
structure Box.Within (a b : Array α) (c : Box) : Prop where
  old_le : c.old + c.n ≤ a.size
  new_le : c.new + c.m ≤ b.size

/-- The spans of a box lead from its first corner to its last one. -/
def Box.Crossed (a b : Array α) (c : Box) (spans : List Span) : Prop :=
  Span.Path a.toList b.toList spans c.old c.new (c.old + c.n) (c.new + c.m)

namespace Box

variable {c : Box}

/-- A point of a box cuts it into two that lie within both arrays as well. -/
theorem Within.halves {x y : Nat} (hc : c.Within a b) (hx : x ≤ c.n) (hy : y ≤ c.m) :
    Within a b ⟨c.old, c.new, x, y⟩ ∧
      Within a b ⟨c.old + x, c.new + y, c.n - x, c.m - y⟩ := by
  obtain ⟨hold, hnew⟩ := hc
  constructor
  · exact ⟨by dsimp only; omega, by dsimp only; omega⟩
  · exact ⟨by dsimp only; omega, by dsimp only; omega⟩

/-- Two parts of a box, one behind the other, are crossed one after the other. -/
theorem Crossed.halves {x y : Nat} {first second : List Span} (hx : x ≤ c.n) (hy : y ≤ c.m)
    (hfirst : Crossed a b ⟨c.old, c.new, x, y⟩ first)
    (hsecond : Crossed a b ⟨c.old + x, c.new + y, c.n - x, c.m - y⟩ second) :
    c.Crossed a b (first ++ second) := by
  refine Span.path_append.mpr ⟨c.old + x, c.new + y, hfirst, ?_⟩
  have hold : c.old + x + (c.n - x) = c.old + c.n := by omega
  have hnew : c.new + y + (c.m - y) = c.new + c.m := by omega
  rw [Crossed] at hsecond
  dsimp only at hsecond
  rwa [hold, hnew] at hsecond

theorem crossed_delete (hc : c.Within a b) (hm : c.m = 0) :
    c.Crossed a b [.delete c.old c.n c.new] :=
  Span.path_singleton.mpr ⟨rfl, rfl, by rw [hm]; rfl, by simpa using hc.old_le⟩

theorem crossed_insert (hc : c.Within a b) (hn : c.n = 0) :
    c.Crossed a b [.insert c.old c.new c.m] :=
  Span.path_singleton.mpr ⟨rfl, by rw [hn]; rfl, rfl, by simpa using hc.new_le⟩

/-- A box can be crossed without keeping anything. -/
theorem crossed_swap (hc : c.Within a b) :
    c.Crossed a b [.delete c.old c.n c.new, .insert c.old c.new c.m] :=
  Span.path_cons.mpr ⟨c.old + c.n, c.new, ⟨rfl, rfl, rfl, by simpa using hc.old_le⟩,
    Span.path_singleton.mpr ⟨rfl, rfl, rfl, by simpa using hc.new_le⟩⟩

end Box

/-! ## Common runs -/

variable [DecidableEq α]

theorem runForward_le (i j n : Nat) : runForward a b i j n ≤ n := by
  induction n generalizing i j with
  | zero => exact Nat.le_refl 0
  | succ n ih =>
      rw [runForward]
      split
      · exact Nat.succ_le_succ (ih _ _)
      · exact Nat.zero_le _

theorem runBackward_le (i j n : Nat) : runBackward a b i j n ≤ n := by
  induction n generalizing i j with
  | zero => exact Nat.le_refl 0
  | succ n ih =>
      rw [runBackward]
      split
      · exact Nat.succ_le_succ (ih _ _)
      · exact Nat.zero_le _

/-- Tokens that agree, counted forwards, are alike. -/
theorem alike_runForward {i j n : Nat} (hi : i + n ≤ a.size) (hj : j + n ≤ b.size) :
    Alike a.toList b.toList i j (runForward a b i j n) := by
  induction n generalizing i j with
  | zero => exact Alike.empty hi hj
  | succ n ih =>
      rw [runForward]
      split
      · next hsame =>
        have hfirst : Alike a.toList b.toList i j 1 :=
          Alike.single (by simpa using by omega) (by simpa using by omega) (by simpa using hsame)
        rw [Nat.add_comm _ 1]
        exact hfirst.append (ih (by omega) (by omega))
      · exact Alike.empty (by simpa using by omega) (by simpa using by omega)

/-- Tokens that agree, counted backwards, are alike. -/
theorem alike_runBackward {i j n : Nat} (hi : i ≤ a.size) (hj : j ≤ b.size) (hin : n ≤ i)
    (hjn : n ≤ j) :
    Alike a.toList b.toList (i - runBackward a b i j n) (j - runBackward a b i j n)
      (runBackward a b i j n) := by
  induction n generalizing i j with
  | zero => exact Alike.empty hi hj
  | succ n ih =>
      rw [runBackward]
      split
      · next hsame =>
        have hrest := ih (i := i - 1) (j := j - 1) (by omega) (by omega) (by omega) (by omega)
        have hle := runBackward_le (a := a) (b := b) (i - 1) (j - 1) n
        generalize runBackward a b (i - 1) (j - 1) n = r at hrest hle
        have hi' : i - (r + 1) = i - 1 - r := by omega
        have hj' : j - (r + 1) = j - 1 - r := by omega
        rw [hi', hj']
        refine hrest.append ?_
        rw [Nat.sub_add_cancel (by omega), Nat.sub_add_cancel (by omega)]
        exact Alike.single (by simpa using by omega) (by simpa using by omega)
          (by simpa using hsame)
      · exact Alike.empty (by simpa using by omega) (by simpa using by omega)

/-! ## Divide and conquer -/

/-- What a box begins and ends with in common leads to the rest of it and from there on. -/
theorem crossed_shrink {c inner : Box} {lead tail : List Span} (hc : c.Within a b)
    (h : shrink a b c = (lead, inner, tail)) :
    inner.Within a b ∧ ∀ mid, inner.Crossed a b mid → c.Crossed a b (lead ++ mid ++ tail) := by
  obtain ⟨hold, hnew⟩ := hc
  simp only [shrink, Prod.mk.injEq] at h
  obtain ⟨rfl, rfl, rfl⟩ := h
  have hlead := alike_runForward (a := a) (b := b) (i := c.old) (j := c.new)
    (n := min c.n c.m) (by omega) (by omega)
  have hle := runForward_le (a := a) (b := b) c.old c.new (min c.n c.m)
  generalize runForward a b c.old c.new (min c.n c.m) = k at hlead hle
  have htail := alike_runBackward (a := a) (b := b) (i := c.old + c.n) (j := c.new + c.m)
    (n := min (c.n - k) (c.m - k)) hold hnew (by omega) (by omega)
  have hle' := runBackward_le (a := a) (b := b) (c.old + c.n) (c.new + c.m)
    (min (c.n - k) (c.m - k))
  generalize runBackward a b (c.old + c.n) (c.new + c.m) (min (c.n - k) (c.m - k)) = k'
    at htail hle'
  refine ⟨⟨by dsimp only; omega, by dsimp only; omega⟩, fun mid hmid => ?_⟩
  have hold' : c.old + k + (c.n - k - k') = c.old + c.n - k' := by omega
  have hnew' : c.new + k + (c.m - k - k') = c.new + c.m - k' := by omega
  have hend := path_keep htail
  rw [Nat.sub_add_cancel (by omega), Nat.sub_add_cancel (by omega)] at hend
  rw [Box.Crossed] at hmid ⊢
  dsimp only at hmid
  rw [hold', hnew'] at hmid
  exact Span.path_append.mpr ⟨_, _, Span.path_append.mpr ⟨_, _, path_keep hlead, hmid⟩, hend⟩

/-- **The search crosses every box.** -/
theorem crossed_conquer {c : Box} (hc : c.Within a b) (w : Walks) :
    c.Crossed a b (conquer a b c w).2 := by
  rw [conquer]
  split
  next lead inner tail hshrink =>
    obtain ⟨hinner, hcross⟩ := crossed_shrink hc hshrink
    have hle : inner.n + inner.m ≤ c.n + c.m := by
      have hle := shrink_le a b c
      rwa [hshrink] at hle
    split
    · next hempty =>
      have hcrossed : inner.Crossed a b [] := by
        rw [Box.Crossed, hempty.1, hempty.2]
        exact Span.path_nil
      simpa using hcross [] hcrossed
    · split
      · next hm => exact hcross _ (Box.crossed_delete hinner hm)
      · split
        · next hn => exact hcross _ (Box.crossed_insert hinner hn)
        · split
          · next w' x y hmeeting =>
            -- nothing is known of the point but that it cuts the box
            split
            · next hcut =>
              obtain ⟨hfirst, hsecond⟩ := hinner.halves hcut.1 hcut.2.1
              have hhalves := Box.Crossed.halves hcut.1 hcut.2.1 (crossed_conquer hfirst w')
                (crossed_conquer hsecond (conquer a b ⟨inner.old, inner.new, x, y⟩ w').1)
              simpa using hcross _ hhalves
            · exact hcross _ (Box.crossed_swap hinner)
          · exact hcross _ (Box.crossed_swap hinner)
termination_by c.n + c.m

/-- The spans of the search lead from corner to corner. -/
theorem path_spans (a b : Array α) :
    Span.Path a.toList b.toList (spans a b) 0 0 a.toList.length b.toList.length := by
  have hwithin : Box.Within a b ⟨0, 0, a.size, b.size⟩ := ⟨by simp, by simp⟩
  have hcrossed := crossed_conquer hwithin
    ⟨Walk.start (Box.rounds ⟨0, 0, a.size, b.size⟩),
      Walk.start (Box.rounds ⟨0, 0, a.size, b.size⟩)⟩
  simpa [Box.Crossed, spans] using hcrossed

end Search

end TextHistory
