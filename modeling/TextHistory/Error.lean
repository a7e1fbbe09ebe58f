import TextHistory.Patch.Basic
import TextHistory.Time.Reader

/-!
# Errors of a history

Every way in which a request to a history can fail, and its wording.
-/

set_option autoImplicit false

namespace TextHistory

/-- Why a request failed. -/
inductive Error where
  | notFound (name : Text)
  | alreadyExists (name : Text)
  /-- A text that names no version. -/
  | invalidVersion (raw : Text)
  /-- An entry of a chain cannot be read or applied: the chain is corrupt. -/
  | patchApplication (name : Text) (index : Nat) (cause : PatchFault)
  /-- A patch that was handed in cannot be read or applied. -/
  | invalidPatch (cause : PatchFault)
  /-- A patch does not lead to the text that was handed in with it. -/
  | contentMismatch (name : Text)
  /-- The chain is not as long as the caller expected. -/
  | conflict (name : Text) (expected actual : Nat)
  /-- A stored time cannot be read. -/
  | persistence (cause : TimeFault)
  /-- No patch can be made with the margin in force. -/
  | unbuildable
  deriving DecidableEq, Repr

/-- The wording of an error. -/
def Error.message : Error → String
  | .notFound name => "file not found: " ++ String.ofList name
  | .alreadyExists name => "file is already tracked: " ++ String.ofList name
  | .invalidVersion raw => "invalid version: " ++ String.ofList (Quoted.text raw)
  | .patchApplication name index cause =>
    let file := String.ofList name
    let reason := cause.message
    s!"patch {index} of {file} failed to apply: {reason}"
  | .invalidPatch cause => "invalid patch: " ++ cause.message
  | .contentMismatch name =>
    "patched content does not match the submitted content for " ++ String.ofList name
  | .conflict name expected actual =>
    let file := String.ofList name
    s!"stale head for {file}: expected {expected} versions, found {actual}"
  | .persistence cause => "persistence error: date/time parse error: " ++ cause.message
  | .unbuildable => "the patch margin is out of range"

end TextHistory
