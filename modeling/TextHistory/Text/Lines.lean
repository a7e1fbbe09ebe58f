import TextHistory.Text.Basic

/-!
# Lines

Two ways to cut a text at its line ends. `lines` cuts after every line end and keeps it, so the
lines spell out the text again; a carriage return followed by a newline is one line end.
`rows` cuts at newlines alone and drops them, so there is always one row more than there are
newlines.
-/

set_option autoImplicit false

namespace TextHistory.Text

/-! ## Lines with their ends -/

/-- Puts a character in front of the first line. -/
def extendFirst (c : Char) : List Text → List Text
  | [] => [[c]]
  | line :: rest => (c :: line) :: rest

/-- The lines of a text, each with its own end; the last one may lack it. -/
def lines : Text → List Text
  | [] => []
  | '\r' :: '\n' :: rest => ['\r', '\n'] :: lines rest
  | c :: rest => if c = '\n' ∨ c = '\r' then [c] :: lines rest else extendFirst c (lines rest)

/-- A line that carries no end: only the last one of a text can be such. -/
def lacksEnd (line : Text) : Bool :=
  line.getLast? != some '\n' && line.getLast? != some '\r'

/-! ## Rows between newlines -/

/-- The pieces of a text between its newlines. -/
def rows : Text → List Text
  | [] => [[]]
  | c :: rest => if c = '\n' then [] :: rows rest else extendFirst c (rows rest)

/-- Lines spell out the text they were cut from. -/
theorem flatten_extendFirst (c : Char) (ls : List Text) :
    (extendFirst c ls).flatten = c :: ls.flatten := by
  cases ls <;> simp [extendFirst]

theorem flatten_lines (t : Text) : (lines t).flatten = t := by
  fun_induction lines t with
  | case1 => rfl
  | case2 rest ih => simp [ih]
  | case3 c rest _ hc ih => simp [ih]
  | case4 c rest _ hc ih => rw [flatten_extendFirst, ih]

end TextHistory.Text
