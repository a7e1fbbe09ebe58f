import TextHistory.Alignment.Basic

/-!
# Paths through the grid of two lists

A point of the grid is a position in the old list and one in the new list. A block leads from the
point where it begins to the point where it ends (`Block.Covers`): a kept stretch goes on in both
lists, a deletion in the old one and an insertion in the new one. Blocks that lead from the first
corner to the last one, each from where the one before it ended, are an alignment of the two lists
(`Alignment`). Spans that make a path stay one when they are gathered into blocks
(`Block.path_ofSpans`).
-/

set_option autoImplicit false

namespace TextHistory

variable {α : Type} {old new : List α} {i j i' j' : Nat}

/-! ## Stretches that are alike -/

/-- Two lists hold the same `length` tokens, from two positions on. -/
structure Alike (old new : List α) (i j length : Nat) : Prop where
  old_le : i + length ≤ old.length
  new_le : j + length ≤ new.length
  same : ∀ t < length, old[i + t]? = new[j + t]?

namespace Alike

variable {k k' : Nat}

theorem empty (hi : i ≤ old.length) (hj : j ≤ new.length) : Alike old new i j 0 :=
  ⟨hi, hj, fun t ht => absurd ht (Nat.not_lt_zero t)⟩

theorem single (hi : i < old.length) (hj : j < new.length) (h : old[i]? = new[j]?) :
    Alike old new i j 1 where
  old_le := hi
  new_le := hj
  same t ht := by
    obtain rfl : t = 0 := by omega
    exact h

theorem append (h : Alike old new i j k) (h' : Alike old new (i + k) (j + k) k') :
    Alike old new i j (k + k') where
  old_le := by have := h'.old_le; omega
  new_le := by have := h'.new_le; omega
  same t ht := by
    by_cases hk : t < k
    · exact h.same t hk
    · have hsame := h'.same (t - k) (by omega)
      rwa [show i + k + (t - k) = i + t by omega, show j + k + (t - k) = j + t by omega] at hsame

theorem left (h : Alike old new i j (k + k')) : Alike old new i j k where
  old_le := by have := h.old_le; omega
  new_le := by have := h.new_le; omega
  same t ht := h.same t (by omega)

theorem right (h : Alike old new i j (k + k')) : Alike old new (i + k) (j + k) k' where
  old_le := by have := h.old_le; omega
  new_le := by have := h.new_le; omega
  same t ht := by
    have hsame := h.same (k + t) (by omega)
    rwa [← Nat.add_assoc, ← Nat.add_assoc] at hsame

theorem of_take_drop_eq (hi : i + k ≤ old.length) (hj : j + k ≤ new.length)
    (h : (old.drop i).take k = (new.drop j).take k) : Alike old new i j k where
  old_le := hi
  new_le := hj
  same t ht := by
    have hsame := congrArg (·[t]?) h
    rwa [List.getElem?_take_of_lt ht, List.getElem?_take_of_lt ht, List.getElem?_drop,
      List.getElem?_drop] at hsame

theorem take_drop_eq (h : Alike old new i j k) : (old.drop i).take k = (new.drop j).take k := by
  refine List.ext_getElem? fun t => ?_
  by_cases ht : t < k
  · rw [List.getElem?_take_of_lt ht, List.getElem?_take_of_lt ht, List.getElem?_drop,
      List.getElem?_drop]
    exact h.same t ht
  · rw [List.getElem?_take_eq_none (Nat.le_of_not_lt ht),
      List.getElem?_take_eq_none (Nat.le_of_not_lt ht)]

end Alike

namespace Block

/-! ## Paths -/

/-- A block leads from one point of the grid to another. -/
def Covers (old new : List α) : Block → Nat → Nat → Nat → Nat → Prop
  | equal o n k, i, j, i', j' =>
    o = i ∧ n = j ∧ i' = i + k ∧ j' = j + k ∧ Alike old new i j k
  | delete o k _, i, j, i', j' => o = i ∧ i' = i + k ∧ j' = j ∧ i' ≤ old.length
  | insert _ n k, i, j, i', j' => n = j ∧ i' = i ∧ j' = j + k ∧ j' ≤ new.length
  | replace o k n k', i, j, i', j' =>
    o = i ∧ n = j ∧ i' = i + k ∧ j' = j + k' ∧ i' ≤ old.length ∧ j' ≤ new.length

/-- Blocks lead from one point of the grid to another, one after the other. -/
def Path (old new : List α) : List Block → Nat → Nat → Nat → Nat → Prop
  | [], i, j, i', j' => i = i' ∧ j = j'
  | b :: rest, i, j, i', j' => ∃ a c, b.Covers old new i j a c ∧ Path old new rest a c i' j'

theorem path_append {xs ys : List Block} : Path old new (xs ++ ys) i j i' j' ↔
    ∃ a c, Path old new xs i j a c ∧ Path old new ys a c i' j' := by
  induction xs generalizing i j with
  | nil =>
      constructor
      · exact fun h => ⟨i, j, ⟨rfl, rfl⟩, h⟩
      · rintro ⟨a, c, ⟨rfl, rfl⟩, h⟩
        exact h
  | cons b xs ih =>
      constructor
      · rintro ⟨a, c, hb, h⟩
        obtain ⟨a', c', hxs, hys⟩ := ih.mp h
        exact ⟨a', c', ⟨a, c, hb, hxs⟩, hys⟩
      · rintro ⟨a', c', ⟨a, c, hb, hxs⟩, hys⟩
        exact ⟨a, c, hb, ih.mpr ⟨a', c', hxs, hys⟩⟩

end Block

namespace Span

/-- Spans lead from one point of the grid to another, one after the other. -/
def Path (old new : List α) (spans : List Span) (i j i' j' : Nat) : Prop :=
  Block.Path old new (spans.map Block.ofSpan) i j i' j'

theorem path_nil : Path old new [] i j i j := ⟨rfl, rfl⟩

theorem path_cons {s : Span} {rest : List Span} : Path old new (s :: rest) i j i' j' ↔
    ∃ a c, (Block.ofSpan s).Covers old new i j a c ∧ Path old new rest a c i' j' := Iff.rfl

theorem path_singleton {s : Span} :
    Path old new [s] i j i' j' ↔ (Block.ofSpan s).Covers old new i j i' j' := by
  rw [path_cons]
  constructor
  · rintro ⟨a, c, hs, rfl, rfl⟩
    exact hs
  · exact fun hs => ⟨i', j', hs, path_nil⟩

theorem path_append {xs ys : List Span} : Path old new (xs ++ ys) i j i' j' ↔
    ∃ a c, Path old new xs i j a c ∧ Path old new ys a c i' j' := by
  rw [Path, List.map_append]
  exact Block.path_append

end Span

/-! ## Gathering -/

namespace Block

/-- A block and the span that continues it lead as far as the two of them. -/
theorem Covers.join {b b' : Block} {s : Span} {a c : Nat} (hb : b.Covers old new i j a c)
    (hs : (ofSpan s).Covers old new a c i' j') (h : b.join? s = some b') :
    b'.Covers old new i j i' j' := by
  cases b <;> cases s <;> simp only [join?, Option.some.injEq, reduceCtorEq] at h <;> subst h
  case equal.equal =>
    obtain ⟨rfl, rfl, rfl, rfl, hsame⟩ := hb
    obtain ⟨rfl, rfl, rfl, rfl, hsame'⟩ := hs
    exact ⟨rfl, rfl, Nat.add_assoc _ _ _, Nat.add_assoc _ _ _, hsame.append hsame'⟩
  all_goals
    simp only [Covers, ofSpan] at hb hs ⊢
    omega

theorem path_gather {b : Block} {spans : List Span} {a c : Nat} (hb : b.Covers old new i j a c)
    (h : Span.Path old new spans a c i' j') :
    Path old new (gather (some b) spans) i j i' j' := by
  induction spans generalizing b i j a c with
  | nil => exact ⟨a, c, hb, h⟩
  | cons s rest ih =>
      obtain ⟨a', c', hs, hrest⟩ := h
      rw [gather]
      split
      · next b' hjoin => exact ih (hb.join hs hjoin) hrest
      · exact ⟨a, c, hb, ih hs hrest⟩

/-- The blocks of a path of spans are a path. -/
theorem path_ofSpans {spans : List Span} (h : Span.Path old new spans i j i' j') :
    Path old new (ofSpans spans) i j i' j' := by
  cases spans with
  | nil => exact h
  | cons s rest =>
      obtain ⟨a, c, hs, hrest⟩ := h
      exact path_gather hs hrest

end Block

/-! ## Alignments -/

/-- An alignment of two lists: blocks that cover both of them, in order, and keep only what they
share. -/
structure Alignment (old new : List α) where
  blocks : List Block
  path : Block.Path old new blocks 0 0 old.length new.length

/-- A search for alignments of texts that are cut into tokens. -/
abbrev Aligner := (old new : List Text) → Alignment old new

end TextHistory
