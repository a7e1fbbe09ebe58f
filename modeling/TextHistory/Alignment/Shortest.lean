import TextHistory.Proofs.Alignment.Search
import TextHistory.Proofs.Alignment.Slide

/-!
# Short alignments

The search for a short alignment: the spans that the walks through the grid find, with their edits
slid into place and gathered into blocks.
-/

set_option autoImplicit false

namespace TextHistory

/-- The alignment that the search finds when nothing cuts it short. -/
def Alignment.shortest {α : Type} [DecidableEq α] (old new : List α) : Alignment old new where
  blocks :=
    let a := old.toArray
    let b := new.toArray
    Block.ofSpans (Slide.settle a b (Search.spans a b))
  path := Block.path_ofSpans (Slide.path_settle (Search.path_spans old.toArray new.toArray))

end TextHistory
