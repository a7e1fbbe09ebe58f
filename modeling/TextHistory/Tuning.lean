import TextHistory.Edit.Between
import TextHistory.Edit.Semantic
import TextHistory.Json.Decode
import TextHistory.Patch.Apply
import TextHistory.Patch.Build

/-!
# Tuning

The settings with which patches are made and applied, and the three operations of a history that
depend on them: the script between two texts, the patch for it, and the application of a patch.
-/

set_option autoImplicit false

namespace TextHistory

/-- How patches are made and applied. -/
structure Tuning where
  /-- The longest time to look for a script, in milliseconds. -/
  diffTimeout : Option Nat := some 1000
  /-- Whether short equalities are absorbed into the edits around them. -/
  semanticCleanup : Bool := true
  /-- The characters of context around a hunk. -/
  patchMargin : Nat := 4
  /-- How far from its place a hunk may be found. -/
  matchDistance : Nat := 1000
  /-- What is found out about two lists of tokens in a given time; no setting, but what a machine
  makes of one. By default, all there is to find. -/
  search : Option Nat → Aligner := fun _ => Alignment.shortest

namespace Tuning

/-- The settings that concern the application of a patch. -/
def reach (o : Tuning) : Reach := ⟨o.patchMargin, o.matchDistance⟩

/-- The script from which a patch is made. -/
def script (o : Tuning) (old new : Text) : Script :=
  let s := Script.betweenBy (o.search o.diffTimeout) old new
  if o.semanticCleanup then Script.absorb s else s

/-- The patch that leads from `old` to `new`. -/
def patch? (o : Tuning) (old new : Text) : Option Patch :=
  Patch.make? old (o.script old new) o.patchMargin

/-- The text that a patch makes of `text`, or the first hunk that finds no place. -/
def applyStrict (o : Tuning) (p : Patch) (text : Text) : Except PatchFault Text :=
  p.applyStrict text o.reach

/-! ## JSON -/

/-- The fields of the settings; every one may be left out. -/
def fields : List Json.Field :=
  [Json.field "diff_timeout_ms" .defaulted (Json.optional Json.natural),
   Json.field "semantic_cleanup" .defaulted Json.boolean,
   Json.field "patch_margin" .defaulted Json.natural,
   Json.field "match_distance" .defaulted Json.natural]

/-- Settings from JSON. -/
def decode : Json.Decoder Tuning := fun r => do
  let fs ← Json.fieldsOf fields r
  let initial : Tuning := {}
  return {
    diffTimeout := ← fs.getD "diff_timeout_ms" (Json.optional Json.natural) initial.diffTimeout
    semanticCleanup := ← fs.getD "semantic_cleanup" Json.boolean initial.semanticCleanup
    patchMargin := ← fs.getD "patch_margin" Json.natural initial.patchMargin
    matchDistance := ← fs.getD "match_distance" Json.natural initial.matchDistance }

/-- Settings as JSON. -/
def toJson (o : Tuning) : Json :=
  .record [("diff_timeout_ms", Json.ofOption Json.nat o.diffTimeout),
    ("semantic_cleanup", .bool o.semanticCleanup),
    ("patch_margin", .nat o.patchMargin),
    ("match_distance", .nat o.matchDistance)]

end Tuning

end TextHistory
