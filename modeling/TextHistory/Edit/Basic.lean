import TextHistory.Text.Basic

/-!
# Edit scripts

A script is a list of runs of text, each kept, deleted or inserted. Read left to right, the kept
and deleted runs spell the source text and the kept and inserted runs spell the target text.
`coalesce` joins neighbouring runs of one kind and leaves out empty ones, which changes neither
text.
-/

set_option autoImplicit false

namespace TextHistory

/-- What happens to a run of text. -/
inductive EditKind where
  | equal
  | delete
  | insert
  deriving DecidableEq, Repr

/-- A run of text and what happens to it. -/
structure Edit where
  kind : EditKind
  text : Text
  deriving DecidableEq, Repr

/-- An edit script: runs in the order of both texts. -/
abbrev Script := List Edit

namespace Script

/-- The text a script starts from. -/
def source (s : Script) : Text := (s.filter (·.kind != .insert)).flatMap Edit.text

/-- The text a script leads to. -/
def target (s : Script) : Text := (s.filter (·.kind != .delete)).flatMap Edit.text

/-- Puts a run in front of a script: an empty one is dropped, and one of the kind of the first run
is joined with it. -/
def prepend (e : Edit) (s : Script) : Script :=
  if e.text.isEmpty then s
  else match s with
    | [] => [e]
    | f :: rest => if e.kind = f.kind then ⟨e.kind, e.text ++ f.text⟩ :: rest else e :: f :: rest

/-- A script without empty runs and without neighbouring runs of one kind. -/
def coalesce (s : Script) : Script := s.foldr prepend []

/-! ## The two texts, run by run -/

@[simp] theorem source_nil : source [] = [] := rfl

@[simp] theorem target_nil : target [] = [] := rfl

theorem source_cons (e : Edit) (s : Script) :
    source (e :: s) = (if e.kind = .insert then [] else e.text) ++ source s := by
  cases h : e.kind <;> simp [source, h]

theorem target_cons (e : Edit) (s : Script) :
    target (e :: s) = (if e.kind = .delete then [] else e.text) ++ target s := by
  cases h : e.kind <;> simp [target, h]

theorem source_append (s t : Script) : source (s ++ t) = source s ++ source t := by
  simp [source]

theorem target_append (s t : Script) : target (s ++ t) = target s ++ target t := by
  simp [target]

end Script

end TextHistory
