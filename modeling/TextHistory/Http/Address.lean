import TextHistory.Text.Numeral

/-!
# Addresses

An address names a machine, a port on it, and what to ask there for. The place where a service
listens is written as the machine and the port alone.
-/

set_option autoImplicit false

namespace TextHistory

/-- Where something is asked for. -/
structure Address where
  machine : Text
  port : Nat
  /-- A path, and a query behind a question mark. -/
  target : Text
  deriving DecidableEq, Repr

namespace Address

/-- The port that is used where none is given. -/
def usualPort : Nat := 80

/-- A port below `2 ^ 16`. -/
def readPort? (t : Text) : Option Nat := (Numeral.read t).filter (· < Nat.pow 2 16)

/-- A machine and a port behind the last colon. The name of a machine may stand in brackets, in
which colons are part of it. -/
def readPlace? (t : Text) : Option (Text × Option Nat) :=
  match t with
  | '[' :: rest =>
    match Text.splitFirst? [']'] rest with
    | some (machine, []) => some (machine, none)
    | some (machine, ':' :: port) => (readPort? port).map fun n => (machine, some n)
    | _ => none
  | _ =>
    match Text.splitFirst? [':'] t.reverse with
    | some (port, machine) => (readPort? port.reverse).map fun n => (machine.reverse, some n)
    | none => some (t, none)

/-- The address in a text that begins with the scheme and holds visible characters only. A fragment
is not part of it. -/
def read? (t : Text) : Option Address :=
  if t.any fun c => c.toNat ≤ 0x20 || 0x7F ≤ c.toNat then none
  else match Text.splitFirst? "://".toList t with
  | none => none
  | some (scheme, rest) =>
    let isEnd (c : Char) : Bool := c == '/' || c == '?' || c == '#'
    let target := (rest.dropWhile (!isEnd ·)).takeWhile (· != '#')
    match readPlace? (rest.takeWhile (!isEnd ·)) with
    | none => none
    | some (machine, port) =>
      let target := if target.head? = some '/' then target else '/' :: target
      if !Text.isWord "http" scheme ∨ machine.isEmpty then none
      else some ⟨machine, port.getD usualPort, target⟩

/-- The machine and the port, as they are named to the machine itself. -/
def place (a : Address) : Text :=
  let machine := if a.machine.contains ':' then '[' :: (a.machine ++ [']']) else a.machine
  if a.port = usualPort then machine else machine ++ ':' :: Numeral.print a.port

end Address

end TextHistory
