import TextHistory.Text.Basic

/-!
# UTF-8

Bytes to text and back. Reading is strict, and a fault says how many bytes had been acceptable
when the reading stopped: this is the longest beginning of the faulty sequence that some valid
sequence shares, and at least one byte.
-/

set_option autoImplicit false

namespace TextHistory.Utf8

/-- Why a byte list is not UTF-8. Positions count bytes. -/
inductive Fault where
  /-- The input ends inside the sequence that starts at `start`. -/
  | incomplete (start : Nat)
  /-- No sequence goes on after the `length` bytes from `start` on. -/
  | invalid (length start : Nat)
  deriving DecidableEq, Repr

/-- The wording of a fault. -/
def Fault.message : Fault → String
  | .incomplete start => s!"incomplete utf-8 byte sequence from index {start}"
  | .invalid length start => s!"invalid utf-8 sequence of {length} bytes from index {start}"

/-- The bytes of a text. -/
def encode (t : Text) : List UInt8 := t.flatMap String.utf8EncodeChar

/-! ## Reading -/

/-- A sequence that has begun: how many bytes it still needs, the bounds on the next one, and the
bits and the number of bytes seen so far. -/
structure Pending where
  needed : Nat
  low : Nat
  high : Nat
  bits : Nat
  seen : Nat
  deriving DecidableEq, Repr

/-- What the first byte of a sequence announces; `none` for a byte that starts no sequence. An
ASCII byte is whole by itself and needs nothing more. -/
def begin? (b : Nat) : Option Pending :=
  if b < 0x80 then some ⟨0, 0x80, 0xBF, b, 1⟩
  else if b < 0xC2 then none
  else if b < 0xE0 then some ⟨1, 0x80, 0xBF, b % 0x20, 1⟩
  else if b = 0xE0 then some ⟨2, 0xA0, 0xBF, b % 0x10, 1⟩
  else if b = 0xED then some ⟨2, 0x80, 0x9F, b % 0x10, 1⟩
  else if b < 0xF0 then some ⟨2, 0x80, 0xBF, b % 0x10, 1⟩
  else if b = 0xF0 then some ⟨3, 0x90, 0xBF, b % 0x08, 1⟩
  else if b < 0xF4 then some ⟨3, 0x80, 0xBF, b % 0x08, 1⟩
  else if b = 0xF4 then some ⟨3, 0x80, 0x8F, b % 0x08, 1⟩
  else none

/-- A further byte of a sequence; `none` when it cannot stand there. -/
def Pending.next? (p : Pending) (b : Nat) : Option Pending :=
  if p.low ≤ b ∧ b ≤ p.high then
    some ⟨p.needed - 1, 0x80, 0xBF, p.bits * 0x40 + b % 0x40, p.seen + 1⟩
  else none

/-- Reads bytes from position `start` on, where `open?` is the sequence begun there, if any. -/
def decodeFrom (start : Nat) : Option Pending → List UInt8 → Except Fault Text
  | none, [] => .ok []
  | some _, [] => .error (.incomplete start)
  | none, b :: rest =>
    match begin? b.toNat with
    | none => .error (.invalid 1 start)
    | some p =>
      if p.needed = 0 then (decodeFrom (start + 1) none rest).map (Char.ofNat p.bits :: ·)
      else decodeFrom start (some p) rest
  | some p, b :: rest =>
    match p.next? b.toNat with
    | none => .error (.invalid p.seen start)
    | some q =>
      if q.needed = 0 then (decodeFrom (start + q.seen) none rest).map (Char.ofNat q.bits :: ·)
      else decodeFrom start (some q) rest

/-- The text that a byte list spells. -/
def decode (bytes : List UInt8) : Except Fault Text := decodeFrom 0 none bytes

/-! ## Reading with replacement -/

/-- The character that stands for bytes that spell nothing. -/
def replacement : Char := '\uFFFD'

/-- Reads the first byte of a sequence and goes on. -/
def beginLossy (b : UInt8) (goOn : Option Pending → Text) : Text :=
  match begin? b.toNat with
  | none => replacement :: goOn none
  | some p => if p.needed = 0 then Char.ofNat p.bits :: goOn none else goOn (some p)

/-- Reads bytes after the sequence `open?`, with one replacement for every faulty sequence. -/
def decodeLossyFrom : Option Pending → List UInt8 → Text
  | none, [] => []
  | some _, [] => [replacement]
  | none, b :: rest => beginLossy b fun p => decodeLossyFrom p rest
  | some p, b :: rest =>
    match p.next? b.toNat with
    | none => replacement :: beginLossy b fun p => decodeLossyFrom p rest
    | some q =>
      if q.needed = 0 then Char.ofNat q.bits :: decodeLossyFrom none rest
      else decodeLossyFrom (some q) rest

/-- The text of a byte list, with a replacement for every faulty sequence. -/
def decodeLossy (bytes : List UInt8) : Text := decodeLossyFrom none bytes

end TextHistory.Utf8
