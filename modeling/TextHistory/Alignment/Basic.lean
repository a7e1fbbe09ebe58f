import TextHistory.Text.Basic

/-!
# Alignments

An alignment of two token lists says, stretch by stretch, which tokens of the old list are kept,
which are deleted, and which tokens of the new list are inserted. A `Span` is one such stretch
with its place in both lists; a `Block` may also replace old tokens by new ones.

The place of a stretch in the list that it takes no tokens from is kept for display only.
-/

set_option autoImplicit false

namespace TextHistory

/-- A stretch of an alignment. Positions count tokens of the old and of the new list. -/
inductive Span where
  | equal (old new length : Nat)
  | delete (old length new : Nat)
  | insert (old new length : Nat)
  deriving DecidableEq, Repr

namespace Span

/-- The number of tokens in a stretch. -/
def length : Span → Nat
  | equal _ _ n => n
  | delete _ n _ => n
  | insert _ _ n => n

def isDelete : Span → Bool
  | delete .. => true
  | _ => false

def isInsert : Span → Bool
  | insert .. => true
  | _ => false

end Span

/-- A stretch of an alignment in which a deletion and an insertion at one place are one. -/
inductive Block where
  | equal (old new length : Nat)
  | delete (old length new : Nat)
  | insert (old new length : Nat)
  | replace (old oldLength new newLength : Nat)
  deriving DecidableEq, Repr

namespace Block

def ofSpan : Span → Block
  | .equal o n k => equal o n k
  | .delete o k n => delete o k n
  | .insert o n k => insert o n k

/-- The stretch that continues a block by a span at the same place, if the two are one block. -/
def join? : Block → Span → Option Block
  | equal o n k, .equal _ _ k' => some (equal o n (k + k'))
  | delete o k n, .delete _ k' _ => some (delete o (k + k') n)
  | insert o n k, .insert _ _ k' => some (insert o n (k + k'))
  | delete o k _, .insert _ n k' => some (replace o k n k')
  | insert _ n k, .delete o k' _ => some (replace o k' n k)
  | replace o k n k', .delete _ d _ => some (replace o (k + d) n k')
  | replace o k n k', .insert _ _ d => some (replace o k n (k' + d))
  | _, _ => none

/-- Spans as blocks, where `open?` is the block still being gathered. -/
def gather : Option Block → List Span → List Block
  | none, [] => []
  | some b, [] => [b]
  | none, s :: rest => gather (some (ofSpan s)) rest
  | some b, s :: rest =>
    match b.join? s with
    | some b' => gather (some b') rest
    | none => b :: gather (some (ofSpan s)) rest

/-- The blocks of a list of spans. -/
def ofSpans (spans : List Span) : List Block := gather none spans

end Block

end TextHistory
