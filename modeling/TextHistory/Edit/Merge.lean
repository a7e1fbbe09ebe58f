import TextHistory.Edit.Basic

/-!
# Merging the edits between equalities

`Script.merge` gathers everything deleted and everything inserted between two equalities into at
most one deletion followed by one insertion. What the two begin with in common goes to the
equality before them, and of the rest what they end with in common goes to the one after.
-/

set_option autoImplicit false

namespace TextHistory.Script

/-- One deleted and one inserted text as runs, with what they share at the ends kept. -/
def settle (deleted inserted : Text) : Script :=
  let lead := Text.commonLead deleted inserted
  let gone := deleted.drop lead
  let come := inserted.drop lead
  let tail := Text.commonTail gone come
  [⟨.equal, inserted.take lead⟩,
   ⟨.delete, gone.take (gone.length - tail)⟩,
   ⟨.insert, come.take (come.length - tail)⟩,
   ⟨.equal, come.drop (come.length - tail)⟩]

/-- Settles the edits between equalities, where `deleted` and `inserted` were gathered since the
last one. -/
def settleRuns (deleted inserted : Text) : Script → Script
  | [] => settle deleted inserted
  | ⟨.delete, t⟩ :: rest => settleRuns (deleted ++ t) inserted rest
  | ⟨.insert, t⟩ :: rest => settleRuns deleted (inserted ++ t) rest
  | ⟨.equal, t⟩ :: rest => settle deleted inserted ++ ⟨.equal, t⟩ :: settleRuns [] [] rest

/-- The script with each stretch of edits merged and nothing empty left. -/
def merge (s : Script) : Script := coalesce (settleRuns [] [] s)

end TextHistory.Script
