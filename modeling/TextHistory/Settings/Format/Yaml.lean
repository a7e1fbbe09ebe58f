import TextHistory.Settings.Value
import TextHistory.Text.Hex

/-!
# YAML files

One document of mappings, sequences and scalars, in block form, where the columns of the lines say
what belongs together, and in flow form, between brackets. Anchors, aliases and the usual tags are
known; keys are scalars.
-/

set_option autoImplicit false

namespace TextHistory.Settings.Yaml

/-! ## Scalars -/

/-- The value of a scalar without quotes; none if it is a number that cannot be held. -/
def ofPlain (t : Text) : Option Setting :=
  let based := match t with
    | '0' :: 'x' :: digits => Hex.read? 16 digits
    | '0' :: 'o' :: digits => Hex.read? 8 digits
    | _ => none
  match based.map Int.ofNat |>.filter Numeral.isSignedWord, Numeral.readSigned t with
  | some n, _ => some (.integer n)
  | none, some n => some (.integer n)
  | none, none =>
    match String.ofList t with
    | "" | "~" | "null" => some .nothing
    | "true" => some (.boolean true)
    | "false" => some (.boolean false)
    | s =>
      let special := [".inf", ".Inf", ".INF", "+.inf", "+.Inf", "+.INF", "-.inf", "-.Inf", "-.INF",
        ".nan", ".NaN", ".NAN"]
      if special.contains s then none
      else if t.any Char.isDigit then
        match Double.read? t with
        | some x => some (.float x)
        | none => some (.text t)
      else some (.text t)

/-- The value of a scalar without quotes and with a tag. What does not fit the tag is nothing. -/
def ofTagged (tag : String) (t : Text) : Option Setting :=
  match tag with
  | "!!bool" =>
    match String.ofList t with
    | "true" => some (.boolean true)
    | "false" => some (.boolean false)
    | _ => some .nothing
  | "!!int" => some (((Numeral.readSigned t).map Setting.integer).getD .nothing)
  | "!!float" => if t.any Char.isDigit then some (((Double.read? t).map .float).getD .nothing)
    else if (ofPlain t).isNone then none else some .nothing
  | "!!null" => some .nothing
  | _ => some (.text t)

/-- The text of a key. -/
def keyText? : Setting → Option Text
  | .boolean b => some (toString b).toList
  | .integer n => some (Numeral.printSigned n)
  | .text t => some t
  | _ => none

/-! ## Places in a document -/

/-- A place in a document: the text from there on and the column, and the anchors before it. -/
structure Cursor where
  rest : Text
  column : Nat := 0
  anchors : List (Text × Setting) := []

namespace Cursor

/-- The place behind a number of characters of the same line. -/
def skip (c : Cursor) (n : Nat) : Cursor :=
  { c with rest := c.rest.drop n, column := c.column + n }

/-- The place where a given text is left. -/
def goTo (c : Cursor) (rest : Text) : Cursor :=
  let passed := (c.rest.take (c.rest.length - rest.length)).reverse
  let inLine := (passed.takeWhile (· != '\n')).length
  if inLine = passed.length then c.skip inLine else { c with rest := rest, column := inLine }

end Cursor

def isBlank (c : Char) : Bool := c == ' ' || c == '\t'

/-- A word ends before the text. -/
def endsWord : Text → Bool
  | [] => true
  | c :: _ => isBlank c || c == '\n'

/-- The place behind blanks, comments and ends of lines, and whether a line has begun. The first
argument bounds the number of steps; `apart` says that a comment may begin at once. -/
def skipGaps : Nat → Bool → Bool → Cursor → Cursor × Bool
  | 0, _, crossed, c => (c, crossed)
  | steps + 1, apart, crossed, c =>
    match c.rest with
    | ' ' :: _ => skipGaps steps true crossed (c.skip 1)
    | '\t' :: _ => skipGaps steps true crossed (c.skip 1)
    | '\n' :: rest => skipGaps steps true true { c with rest := rest, column := 0 }
    | '#' :: rest =>
      if apart then skipGaps steps true crossed (c.goTo (rest.dropWhile (· != '\n')))
      else (c, crossed)
    | _ => (c, crossed)

/-- The place of the next token, and whether it stands on a new line. -/
def next (c : Cursor) : Cursor × Bool :=
  skipGaps (c.rest.length + 1) (c.column = 0) false c

/-- A document begins or ends at this place. -/
def Cursor.isMarker (c : Cursor) : Bool :=
  let mark := c.rest.take 3
  c.column = 0 && (mark == ['-', '-', '-'] || mark == ['.', '.', '.'])
    && endsWord (c.rest.drop 3)

/-- The document does not go on at this place. -/
def Cursor.isEnd (c : Cursor) : Bool := c.rest.isEmpty || c.isMarker

/-- An item of a block sequence begins. -/
def startsItem : Text → Bool
  | '-' :: rest => endsWord rest
  | _ => false

/-! ## Folded lines -/

/-- The place where a scalar goes on: on the same line, or on another one, with the text that the
ends of lines before it stand for. -/
def foldGap (t : Text) : Text × Text :=
  let ends := (t.takeWhile fun c => isBlank c || c == '\n').filter (· == '\n')
  let rest := t.dropWhile fun c => isBlank c || c == '\n'
  match ends with
  | [] => (t.takeWhile isBlank, rest)
  | [_] => ([' '], rest)
  | _ :: more => (more, rest)

/-! ## Scalars without quotes -/

/-- The characters that have a meaning of their own at the beginning of a token. -/
def isIndicator (c : Char) : Bool := "-?:,[]\x7b\x7d#&*!|>'\"%@`".toList.contains c

/-- The characters that separate tokens in flow form. -/
def isFlowMark (c : Char) : Bool := ",[]\x7b\x7d".toList.contains c

/-- A scalar without quotes begins. -/
def startsPlain (inFlow : Bool) : Text → Bool
  | c :: rest =>
    if c = '-' ∨ c = '?' ∨ c = ':' then
      !endsWord rest && !(inFlow && rest.head?.any isFlowMark)
    else !isIndicator c && c != '\n'
  | [] => false

/-- The part of a scalar on one line. `apart` says that a blank stands before it. -/
def plainLine (inFlow apart : Bool) : Text → Text
  | [] => []
  | c :: rest =>
    let stops := c == '\n' || (c == '#' && apart) || (inFlow && isFlowMark c)
      || (c == ':' && (endsWord rest || (inFlow && rest.head?.any isFlowMark)))
    if stops then [] else c :: plainLine inFlow (isBlank c) rest

/-- The same without blanks at its end. -/
def plainPart (inFlow : Bool) (t : Text) : Text :=
  ((plainLine inFlow false t).reverse.dropWhile isBlank).reverse

/-- A scalar without quotes, whose further lines must not begin before the column `least`. Gives
its text, the place behind it, and whether it has one line only. -/
def readPlain (inFlow : Bool) (least : Nat) : Nat → Cursor → Text × Cursor × Bool
  | 0, c => ([], c, true)
  | steps + 1, c =>
    let part := plainPart inFlow c.rest
    let c := c.skip part.length
    let (gap, rest) := foldGap c.rest
    let further := c.goTo rest
    let goesOn := (c.rest.takeWhile fun d => isBlank d || d == '\n').contains '\n'
      && least ≤ further.column && !further.isEnd && !(plainPart inFlow rest).isEmpty
      && rest.head? != some '#'
    if goesOn then
      let (more, c, _) := readPlain inFlow least steps further
      (part ++ gap ++ more, c, false)
    else (part, c, true)

/-! ## Scalars in quotes -/

/-- What a backslash begins in double quotes. -/
def escaped? : Text → Option (Char × Text)
  | 'x' :: a :: b :: rest => (Hex.char? [a, b]).map (·, rest)
  | 'u' :: a :: b :: c :: d :: rest => (Hex.char? [a, b, c, d]).map (·, rest)
  | 'U' :: a :: b :: c :: d :: e :: f :: g :: h :: rest =>
    (Hex.char? [a, b, c, d, e, f, g, h]).map (·, rest)
  | c :: rest =>
    let known := [('0', '\x00'), ('a', '\x07'), ('b', '\x08'), ('t', '\t'), ('\t', '\t'),
      ('n', '\n'), ('v', '\x0b'), ('f', '\x0c'), ('r', '\r'), ('e', '\x1b'), (' ', ' '),
      ('"', '"'), ('/', '/'), ('\\', '\\'), ('N', '\u0085'), ('_', '\u00a0'), ('L', '\u2028'),
      ('P', '\u2029')]
    (known.find? (·.1 == c)).map fun (_, d) => (d, rest)
  | [] => none

/-- A scalar in quotes, after the opening one. The first argument bounds the number of steps; one
for every character and one more are enough. -/
def readQuoted (quote : Char) : Nat → Text → Text → Option (Text × Text)
  | 0, _, _ => none
  | steps + 1, seen, t =>
    match t with
    | [] => none
    | '\\' :: '\n' :: rest =>
      if quote = '"' then readQuoted quote steps seen (rest.dropWhile isBlank)
      else readQuoted quote steps ('\\' :: seen) ('\n' :: rest)
    | c :: rest =>
      if c = quote then
        match rest with
        | d :: more =>
          if quote = '\x27' ∧ d = quote then readQuoted quote steps (quote :: seen) more
          else some (seen.reverse, rest)
        | [] => some (seen.reverse, [])
      else if c = '\\' ∧ quote = '"' then do
        let (d, rest) ← escaped? rest
        readQuoted quote steps (d :: seen) rest
      else if isBlank c ∨ c = '\n' then
        let (gap, rest) := foldGap t
        readQuoted quote steps (gap.reverse ++ seen) rest
      else readQuoted quote steps (c :: seen) rest

/-! ## Block scalars -/

/-- The lines of a block scalar: those that begin at a column or hold only blanks, without what
stands before the column, and the text after them. The first argument bounds their number. -/
def blockLines (column : Nat) : Nat → Text → List Text × Text
  | 0, t => ([], t)
  | steps + 1, t =>
    let line := t.takeWhile (· != '\n')
    let isWide := (line.take column).all (· == ' ')
    if t.isEmpty ∨ !(isWide ∧ column ≤ line.length) ∧ !line.all (· == ' ') then ([], t)
    else
      let (lines, rest) := blockLines column steps (t.drop (line.length + 1))
      (line.drop column :: lines, rest)

/-- Lines as one text. If `folded`, one end of line between two lines of text is a blank. -/
def joinLines (folded : Bool) : List Text → Text
  | [] => []
  | [line] => line
  | line :: more :: rest =>
    let isText (t : Text) : Bool := !t.isEmpty && !t.head?.any isBlank
    if folded ∧ isText line then
      if isText more then line ++ ' ' :: joinLines folded (more :: rest)
      else if more.isEmpty then line ++ joinLines folded (more :: rest)
      else line ++ '\n' :: joinLines folded (more :: rest)
    else line ++ '\n' :: joinLines folded (more :: rest)

/-- A block scalar, from its first character on, whose lines must not begin before the column
`least`. -/
def readBlockScalar (least : Nat) (c : Cursor) : Option (Text × Cursor) :=
  let isMark (d : Char) : Bool := d == '+' || d == '-' || d.isDigit
  let marks := c.rest.tail.takeWhile isMark
  let (start, crossed) := next (c.skip (marks.length + 1))
  let body := ((c.rest.dropWhile (· != '\n')).drop 1)
  if !crossed ∧ !start.rest.isEmpty then none
  else
    let first := (body.dropWhile fun d => d == ' ' || d == '\n')
    let column := match marks.find? Char.isDigit with
      | some d => (least - 1) + Numeral.digit d
      | none => ((c.goTo body).goTo first).column
    if column < least then some ([], c.goTo body)
    else
      let (lines, rest) := blockLines column (body.length + 1) body
      let ends := (lines.reverse.takeWhile List.isEmpty).length
      let kept := lines.take (lines.length - ends)
      let t := joinLines (c.rest.head? = some '>') kept
      let t :=
        if marks.contains '-' ∨ kept.isEmpty then t
        else if marks.contains '+' then t ++ List.replicate (ends + 1) '\n'
        else t ++ ['\n']
      some (t, c.goTo rest)

/-! ## Nodes -/

/-- A scalar that can be a key: its value, and the place behind it if it stands on one line. -/
def readScalar (inFlow : Bool) (least : Nat) (tag : Option String) (c : Cursor) :
    Option (Setting × Cursor × Bool) :=
  match c.rest with
  | [] => none
  | q :: rest =>
    if q = '"' ∨ q = '\x27' then do
      let (t, rest) ← readQuoted q (rest.length + 1) [] rest
      let after := c.goTo rest
      return (.text t, after, !(c.rest.take (c.rest.length - rest.length)).contains '\n')
    else if startsPlain inFlow c.rest then do
      let (t, after, single) := readPlain inFlow least (c.rest.length + 1) c
      let v ← match tag with
        | some tag => ofTagged tag t
        | none => ofPlain t
      return (v, after, single)
    else none

/-- The place behind the colon of a key, if there is one on the same line. -/
def afterColon? (c : Cursor) : Option Cursor :=
  let blanks := (c.rest.takeWhile isBlank).length
  let c := c.skip blanks
  match c.rest with
  | ':' :: rest => if endsWord rest then some (c.skip 1) else none
  | _ => none

/-- The name of an anchor or a tag, which begins with its mark. -/
def readName (inFlow : Bool) (t : Text) : Text :=
  t.takeWhile fun c => !isBlank c && c != '\n' && !(inFlow && isFlowMark c)

mutual

/-- A node in flow form, at its first token. The first argument bounds the number of steps; four
for every character are enough. -/
def readFlow : Nat → Option String → Cursor → Option (Setting × Cursor)
  | 0, _, _ => none
  | steps + 1, tag, c =>
    match c.rest with
    | '[' :: _ => (readFlowItems steps [] (next (c.skip 1)).1).map fun (vs, c) => (.list vs, c)
    | '{' :: _ => (readFlowEntries steps [] (next (c.skip 1)).1).map fun (es, c) => (.table es, c)
    | '&' :: _ => do
      let name := readName true c.rest
      let (v, c) ← readFlow steps tag (next (c.skip name.length)).1
      return (v, { c with anchors := (name.tail, v) :: c.anchors })
    | '!' :: _ =>
      let name := readName true c.rest
      readFlow steps (some (String.ofList name)) (next (c.skip name.length)).1
    | '*' :: _ => do
      let name := readName true c.rest
      let (_, v) ← c.anchors.find? (·.1 == name.tail)
      return (v, c.skip name.length)
    | _ => (readScalar true 0 tag c).map fun (v, c, _) => (v, c)

/-- The items of a sequence between brackets. -/
def readFlowItems : Nat → List Setting → Cursor → Option (List Setting × Cursor)
  | 0, _, _ => none
  | steps + 1, seen, c =>
    match c.rest with
    | ']' :: _ => some (seen.reverse, c.skip 1)
    | _ => do
      let (v, c) ← readFlow steps none c
      let c := (next c).1
      match c.rest with
      | ',' :: _ => readFlowItems steps (v :: seen) (next (c.skip 1)).1
      | ']' :: _ => some ((v :: seen).reverse, c.skip 1)
      | _ => none

/-- The entries of a mapping between braces. -/
def readFlowEntries : Nat → Setting.Entries → Cursor → Option (Setting.Entries × Cursor)
  | 0, _, _ => none
  | steps + 1, seen, c =>
    match c.rest with
    | '}' :: _ => some (seen, c.skip 1)
    | _ => do
      let (k, c) ← readFlow steps none c
      let key ← keyText? k
      let c := (next c).1
      let (v, c) ← match c.rest with
        | ':' :: _ =>
          let c := (next (c.skip 1)).1
          if c.rest.head? = some ',' ∨ c.rest.head? = some '}' then some (.nothing, c)
          else readFlow steps none c
        | _ => some (.nothing, c)
      let c := (next c).1
      match c.rest with
      | ',' :: _ => readFlowEntries steps (seen.put key v) (next (c.skip 1)).1
      | '}' :: _ => some (seen.put key v, c.skip 1)
      | _ => none

end

mutual

/-- A node at its first token, whose lines must not begin before the column `least`. It can be a
mapping or a sequence in block form only if `mayNest`. The first argument bounds the number of
steps; four for every character are enough. -/
def readNode : Nat → Nat → Bool → Option String → Cursor → Option (Setting × Cursor)
  | 0, _, _, _, _ => none
  | steps + 1, least, mayNest, tag, c =>
    match c.rest with
    | '&' :: _ => do
      let name := readName false c.rest
      let (v, c) ← readBehind steps least mayNest tag (c.skip name.length)
      return (v, { c with anchors := (name.tail, v) :: c.anchors })
    | '!' :: _ =>
      let name := readName false c.rest
      readBehind steps least mayNest (some (String.ofList name)) (c.skip name.length)
    | '*' :: _ => do
      let name := readName false c.rest
      let (_, v) ← c.anchors.find? (·.1 == name.tail)
      return (v, c.skip name.length)
    | '[' :: _ => readFlow steps none c
    | '{' :: _ => readFlow steps none c
    | '|' :: _ => (readBlockScalar least c).map fun (t, c) => (.text t, c)
    | '>' :: _ => (readBlockScalar least c).map fun (t, c) => (.text t, c)
    | t =>
      if startsItem t then
        if mayNest then (readItems steps c.column [] c).map fun (vs, c) => (.list vs, c) else none
      else do
        let (v, after, single) ← readScalar false least tag c
        match afterColon? after with
        | none => some (v, after)
        | some _ =>
          if mayNest ∧ single then
            (readEntries steps c.column [] c).map fun (es, c) => (.table es, c)
          else none

/-- A node behind its anchor or tag, or nothing. -/
def readBehind : Nat → Nat → Bool → Option String → Cursor → Option (Setting × Cursor)
  | 0, _, _, _, _ => none
  | steps + 1, least, mayNest, tag, c =>
    let (c, crossed) := next c
    if c.isEnd ∨ (crossed ∧ c.column < least) then some (.nothing, c)
    else readNode steps least (mayNest || crossed) tag c

/-- The items of a sequence in block form, which begin at a column. -/
def readItems : Nat → Nat → List Setting → Cursor → Option (List Setting × Cursor)
  | 0, _, _, _ => none
  | steps + 1, column, seen, c => do
    let (v, c) ← readBehind steps (column + 1) true none (c.skip 1)
    let (c, _) := next c
    if c.isEnd ∨ c.column < column then some ((v :: seen).reverse, c)
    else if column < c.column then none
    else if startsItem c.rest then readItems steps column (v :: seen) c
    else some ((v :: seen).reverse, c)

/-- The entries of a mapping in block form, which begin at a column. -/
def readEntries : Nat → Nat → Setting.Entries → Cursor → Option (Setting.Entries × Cursor)
  | 0, _, _, _ => none
  | steps + 1, column, seen, c => do
    let (k, after, single) ← readScalar false (column + 1) none c
    let key ← keyText? k
    let start ← afterColon? after
    let (place, crossed) := next start
    let (v, c) ←
      if crossed ∧ place.column = column ∧ !place.isEnd ∧ startsItem place.rest then
        (readItems steps column [] place).map fun (vs, c) => (Setting.list vs, c)
      else readBehind steps (column + 1) false none start
    let seen := seen.put key v
    let (c, _) := next c
    if !single then none
    else if c.isEnd ∨ c.column < column then some (seen, c)
    else if column < c.column then none
    else readEntries steps column seen c

end

/-! ## Documents -/

/-- The place where the document begins, behind directives, and whether a mark says so. The first
argument bounds the number of steps. -/
def beginDocument : Nat → Cursor → Cursor × Bool
  | 0, c => (c, false)
  | steps + 1, c =>
    let (c, _) := next c
    if c.column = 0 ∧ c.rest.head? = some '%' then
      beginDocument steps (c.goTo (c.rest.dropWhile (· != '\n')))
    else if c.isMarker ∧ c.rest.head? = some '-' then (c.skip 3, true)
    else (c, false)

/-- A text whose lines end in one and the same way. -/
def levelEnds : Text → Text
  | '\r' :: '\n' :: rest => '\n' :: levelEnds rest
  | '\r' :: rest => '\n' :: levelEnds rest
  | c :: rest => c :: levelEnds rest
  | [] => []

/-- The value of a file, which has one document. An empty file is an empty table. -/
def read? (t : Text) : Option Setting :=
  let t := levelEnds t
  let (c, marked) := beginDocument (t.length + 1) ⟨t, 0, []⟩
  if c.rest.isEmpty ∧ !marked then some (.table [])
  else do
    let (v, c) ← readBehind (4 * t.length + 4) 0 true none c
    let (c, _) := next c
    if c.rest.isEmpty then some v
    else if c.isMarker ∧ c.rest.head? = some '.' then
      if (next (c.skip 3)).1.rest.isEmpty then some v else none
    else none

end TextHistory.Settings.Yaml
