import TextHistory.Alignment.Basic

/-!
# The search for a short alignment

A greedy divide-and-conquer search. A pair of ranges loses the tokens it begins with in common and
those it ends with in common; what is left is cut in two at a point on a shortest path, and both
parts are searched in the same way. The cut is found by walking from both corners at once, one
edit more in each round, until the two walks meet.

A `Walk` notes for every diagonal how far the walk has come on it. The notes of one search are
kept for the next one, so they are passed along.
-/

set_option autoImplicit false

namespace TextHistory.Search

/-! ## Common runs in two arrays -/

/-- How many of the next `n` tokens agree, from positions `i` and `j` on. -/
def runForward {α : Type} [DecidableEq α] (old new : Array α) (i j : Nat) : Nat → Nat
  | 0 => 0
  | n + 1 => if old[i]? = new[j]? then runForward old new (i + 1) (j + 1) n + 1 else 0

/-- How many of the `n` tokens before positions `i` and `j` agree, counted backwards. -/
def runBackward {α : Type} [DecidableEq α] (old new : Array α) (i j : Nat) : Nat → Nat
  | 0 => 0
  | n + 1 =>
    if old[i - 1]? = new[j - 1]? then runBackward old new (i - 1) (j - 1) n + 1 else 0

/-! ## Walks -/

/-- How far a walk has come on each diagonal. Diagonals run from `-origin` on. -/
structure Walk where
  origin : Nat
  reach : Array Nat

namespace Walk

/-- A walk that has not begun, with room for the diagonals from `-n` to `n`. -/
def start (n : Nat) : Walk := ⟨n, Array.replicate (2 * n + 1) 0⟩

def get (w : Walk) (k : Int) : Nat := w.reach.getD (k + w.origin).toNat 0

def set (w : Walk) (k : Int) (x : Nat) : Walk :=
  { w with reach := w.reach.setIfInBounds (k + w.origin).toNat x }

/-- Where a walk enters diagonal `k` in round `d`: from the diagonal above or from the one below,
whichever has come farther. -/
def entry (w : Walk) (d k : Int) : Nat :=
  if k = -d ∨ (k ≠ d ∧ w.get (k - 1) < w.get (k + 1)) then w.get (k + 1) else w.get (k - 1) + 1

end Walk

/-- The walks from the two corners. -/
structure Walks where
  forward : Walk
  backward : Walk

/-- The part of the two arrays that is searched: from `old` and `new` on, `n` and `m` tokens. -/
structure Box where
  old : Nat
  new : Nat
  n : Nat
  m : Nat

namespace Box

/-- The difference of the two lengths: the diagonal that ends in the far corner. -/
def slant (b : Box) : Int := (b.n : Int) - b.m

/-- The walks meet in a forward step exactly if this is odd, otherwise in a backward one. -/
def isOdd (b : Box) : Bool := (b.n + b.m) % 2 == 1

/-- The most rounds a search of the box can need. -/
def rounds (b : Box) : Nat := (b.n + b.m + 1) / 2 + 1

variable {α : Type} [DecidableEq α] (old new : Array α) (b : Box)

/-- Takes the forward walk along diagonal `k` in round `d`. The point where it entered the
diagonal is the answer when it meets the backward walk. -/
def stepForward (d : Int) (w : Walks) (k : Int) : Walks × Option (Nat × Nat) :=
  let x := w.forward.entry d k
  let y := (x : Int) - k
  let far :=
    if x < b.n ∧ 0 ≤ y ∧ y < b.m then
      x + runForward old new (b.old + x) (b.new + y.toNat) (min (b.n - x) (b.m - y.toNat))
    else x
  let w := { w with forward := w.forward.set k far }
  let other := k - b.slant
  if b.isOdd ∧ other.natAbs ≤ d - 1 ∧ b.n ≤ far + w.backward.get (-other) then
    (w, some (x, y.toNat))
  else (w, none)

/-- Takes the backward walk along diagonal `k` in round `d`. The point it comes to is the answer
when it meets the forward walk. -/
def stepBackward (d : Int) (w : Walks) (k : Int) : Walks × Option (Nat × Nat) :=
  let x := w.backward.entry d k
  let y := (x : Int) - k
  let run :=
    if x < b.n ∧ 0 ≤ y ∧ y < b.m then
      runBackward old new (b.old + b.n - x) (b.new + b.m - y.toNat)
        (min (b.n - x) (b.m - y.toNat))
    else 0
  let far := x + run
  let w := { w with backward := w.backward.set k far }
  let other := k - b.slant
  if !b.isOdd ∧ other.natAbs ≤ d ∧ b.n ≤ far + w.forward.get (-other) then
    (w, some (b.n - far, b.m - (y.toNat + run)))
  else (w, none)

end Box

/-- Takes steps until one of them finds a meeting point. -/
def firstMeeting (step : Walks → Int → Walks × Option (Nat × Nat)) :
    Walks → List Int → Walks × Option (Nat × Nat)
  | w, [] => (w, none)
  | w, k :: rest =>
    match step w k with
    | (w, some p) => (w, some p)
    | (w, none) => firstMeeting step w rest

/-- The diagonals that round `d` visits: every second one, from the highest down. -/
def diagonals (d : Nat) : List Int :=
  (List.range (d + 1)).map fun (i : Nat) => (d : Int) - 2 * (i : Int)

/-- A point on a shortest path through the box, relative to its corner, if the walks meet. -/
def meeting {α : Type} [DecidableEq α] (old new : Array α) (b : Box) (w : Walks) :
    Walks × Option (Nat × Nat) :=
  let w := { forward := w.forward.set 1 0, backward := w.backward.set 1 0 }
  (List.range b.rounds).foldl
    (fun state (d : Nat) =>
      match state with
      | (w, some p) => (w, some p)
      | (w, none) =>
        match firstMeeting (b.stepForward old new d) w (diagonals d) with
        | (w, some p) => (w, some p)
        | (w, none) => firstMeeting (b.stepBackward old new d) w (diagonals d))
    (w, none)

/-! ## Divide and conquer -/

/-- A span of kept tokens, unless it is empty. -/
def keep (old new length : Nat) : List Span :=
  if length = 0 then [] else [.equal old new length]

/-- The box without the tokens it begins and ends with in common, and the spans of these. -/
def shrink {α : Type} [DecidableEq α] (old new : Array α) (b : Box) : List Span × Box × List Span :=
  let lead := runForward old new b.old b.new (min b.n b.m)
  let n := b.n - lead
  let m := b.m - lead
  let tail := runBackward old new (b.old + b.n) (b.new + b.m) (min n m)
  (keep b.old b.new lead, ⟨b.old + lead, b.new + lead, n - tail, m - tail⟩,
    keep (b.old + b.n - tail) (b.new + b.m - tail) tail)

theorem shrink_le {α : Type} [DecidableEq α] (old new : Array α) (b : Box) :
    (shrink old new b).2.1.n + (shrink old new b).2.1.m ≤ b.n + b.m := by
  simp only [shrink]
  omega

/-- The spans of an alignment of the box, with the walks as the search leaves them. A meeting point
in a corner would not divide the box; the search then gives up and keeps nothing. -/
def conquer {α : Type} [DecidableEq α] (old new : Array α) (b : Box) (w : Walks) :
    Walks × List Span :=
  match _hs : shrink old new b with
  | (lead, c, tail) =>
    if c.n = 0 ∧ c.m = 0 then (w, lead ++ tail)
    else if c.m = 0 then (w, lead ++ [.delete c.old c.n c.new] ++ tail)
    else if c.n = 0 then (w, lead ++ [.insert c.old c.new c.m] ++ tail)
    else
      match meeting old new c w with
      | (w, some (x, y)) =>
        if h : x ≤ c.n ∧ y ≤ c.m ∧ 0 < x + y ∧ x + y < c.n + c.m then
          let (w, first) := conquer old new ⟨c.old, c.new, x, y⟩ w
          let (w, second) := conquer old new ⟨c.old + x, c.new + y, c.n - x, c.m - y⟩ w
          (w, lead ++ first ++ second ++ tail)
        else (w, lead ++ [.delete c.old c.n c.new, .insert c.old c.new c.m] ++ tail)
      | (w, none) => (w, lead ++ [.delete c.old c.n c.new, .insert c.old c.new c.m] ++ tail)
termination_by b.n + b.m
decreasing_by
  all_goals
    have hle := shrink_le old new b
    rw [_hs] at hle
    simp only at hle ⊢
    omega

/-- The spans of a short alignment of two arrays. -/
def spans {α : Type} [DecidableEq α] (old new : Array α) : List Span :=
  let b : Box := ⟨0, 0, old.size, new.size⟩
  (conquer old new b ⟨Walk.start b.rounds, Walk.start b.rounds⟩).2

end TextHistory.Search
