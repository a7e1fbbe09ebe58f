import TextHistory.Alignment.Basic

/-!
# Sliding edits

An insertion between kept tokens often fits as well a little earlier or later: when the tokens
before it end like the insertion, it may move up past them, and when the tokens after it begin
like it, it may move down. Every insertion is moved up as far as it goes and then down as far as
it goes; on the way, neighbouring edits of one kind become one, and a deletion and an insertion
that meet change places. Deletions go through the same motions but only meet other edits.

The spans around the moving one are kept as a zipper: those before it, nearest first, and those
after it.
-/

set_option autoImplicit false

namespace TextHistory.Slide

variable {α : Type} [DecidableEq α]

/-- A span between its neighbours. -/
structure Zip where
  before : List Span
  this : Span
  after : List Span

/-- The new tokens that a span inserts: none for a deletion. -/
def inserted (new : Array α) : Span → Array α
  | .insert _ n k => new.extract n (n + k)
  | _ => #[]

/-- How many of the old tokens before the span equal the ones it inserts, from the end. -/
def upBy (old new : Array α) (o k : Nat) (this : Span) : Nat :=
  Text.commonTail (old.extract o (o + k)).toList (inserted new this).toList

/-- How many of the old tokens after the span equal the ones it inserts, from the front. -/
def downBy (old new : Array α) (o k : Nat) (this : Span) : Nat :=
  Text.commonLead (old.extract o (o + k)).toList (inserted new this).toList

/-! ## Moving a span -/

/-- The span `s` places earlier in both lists. -/
def earlier (s : Nat) : Span → Span
  | .insert o n k => .insert (o - s) (n - s) k
  | .delete o k n => .delete (o - s) k (n - s)
  | .equal o n k => .equal (o - s) (n - s) k

/-- The span `s` places later in both lists. -/
def later (s : Nat) : Span → Span
  | .insert o n k => .insert (o + s) (n + s) k
  | .delete o k n => .delete (o + s) k (n + s)
  | .equal o n k => .equal (o + s) (n + s) k

/-- The place after a span in the new list, as far as the span itself extends there. -/
def newEnd : Span → Nat
  | .insert _ n k => n + k
  | .delete _ _ n => n
  | .equal _ n k => n + k

/-- The place of a span in the new list. -/
def newStart : Span → Nat
  | .insert _ n _ => n
  | .delete _ _ n => n
  | .equal _ n _ => n

/-- The span with `s` more tokens at its end. -/
def extend (s : Nat) : Span → Span
  | .insert o n k => .insert o n (k + s)
  | .delete o k n => .delete o (k + s) n
  | .equal o n k => .equal o n (k + s)

/-- The sum of the lengths and the number of some spans: what a moving span has before it. -/
def weight (spans : List Span) : Nat := spans.foldr (fun s n => s.length + 1 + n) 0

@[simp] theorem weight_nil : weight [] = 0 := rfl

@[simp] theorem weight_cons (s : Span) (rest : List Span) :
    weight (s :: rest) = s.length + 1 + weight rest := rfl

/-- Gives `s` kept tokens back to the spans after the moving one. -/
def giveAfter (s o n : Nat) : List Span → List Span
  | .equal o' n' k :: rest => .equal (o' - s) (n' - s) (k + s) :: rest
  | rest => .equal o n s :: rest

/-- Gives `s` kept tokens to the spans before the moving one. -/
def giveBefore (s o n : Nat) : List Span → List Span
  | .equal o' n' k :: rest => .equal o' n' (k + s) :: rest
  | rest => .equal o n s :: rest

/-- Moves a span up as far as it goes. -/
def up (old new : Array α) (z : Zip) : Zip :=
  match _hz : z.before with
  | [] => z
  | .equal o n k :: rest =>
    let s := upBy old new o k z.this
    if _hs : 0 < s then
      let after := giveAfter s (o + k - s) (newEnd z.this - s) z.after
      if _hk : s < k then up old new ⟨.equal o n (k - s) :: rest, earlier s z.this, after⟩
      else up old new ⟨rest, earlier s z.this, after⟩
    else if k = 0 then up old new ⟨rest, z.this, z.after⟩
    else z
  | .delete o k n :: rest =>
    match z.this with
    | .delete _ k' _ => up old new ⟨rest, .delete o (k + k') n, z.after⟩
    | this => up old new ⟨rest, this, .delete o k n :: z.after⟩
  | .insert o n k :: rest =>
    match z.this with
    | .insert _ _ k' => up old new ⟨rest, .insert o n (k + k'), z.after⟩
    | this => up old new ⟨rest, this, .insert o n k :: z.after⟩
termination_by weight z.before
decreasing_by all_goals rw [_hz]; simp only [weight_cons, Span.length]; omega

/-- Moves a span down as far as it goes. -/
def down (old new : Array α) (z : Zip) : Zip :=
  match _hz : z.after with
  | [] => z
  | .equal o n k :: rest =>
    let s := downBy old new o k z.this
    if _hs : 0 < s then
      let before := giveBefore s o (newStart z.this) z.before
      if _hk : s < k then
        down old new ⟨before, later s z.this, .equal (o + s) (n + s) (k - s) :: rest⟩
      else down old new ⟨before, later s z.this, rest⟩
    else if k = 0 then down old new ⟨z.before, z.this, rest⟩
    else z
  | .delete o k n :: rest =>
    match z.this with
    | .delete _ _ _ => down old new ⟨z.before, extend k z.this, rest⟩
    | this => down old new ⟨.delete o k n :: z.before, this, rest⟩
  | .insert o n k :: rest =>
    match z.this with
    | .insert _ _ _ => down old new ⟨z.before, extend k z.this, rest⟩
    | this => down old new ⟨.insert o n k :: z.before, this, rest⟩
termination_by weight z.after
decreasing_by all_goals rw [_hz]; simp only [weight_cons, Span.length]; omega

/-! ## All spans of one kind -/

/-- Moves the spans of one kind, first to last, each up and then down; `rounds` bounds their
number. A moved span is left where it came to rest, and the next one is looked for after it. -/
def sweep (kind : Span → Bool) (old new : Array α) : Nat → List Span → List Span → List Span
  | 0, before, after => before.reverse ++ after
  | rounds + 1, before, after =>
    match after.dropWhile (!kind ·) with
    | [] => before.reverse ++ after
    | this :: rest =>
      let passed := after.takeWhile (!kind ·)
      let z := down old new (up old new ⟨passed.reverse ++ before, this, rest⟩)
      sweep kind old new rounds (z.this :: z.before) z.after

/-- The spans after the deletions and then the insertions have been moved. -/
def settle (old new : Array α) (spans : List Span) : List Span :=
  let spans := sweep Span.isDelete old new (spans.countP Span.isDelete) [] spans
  sweep Span.isInsert old new (spans.countP Span.isInsert) [] spans

end TextHistory.Slide
