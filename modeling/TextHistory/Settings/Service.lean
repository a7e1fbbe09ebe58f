import TextHistory.Settings.Conversion
import TextHistory.Settings.Layer

/-!
# Settings of the service

Where the service listens, where it keeps its store, and how it makes patches. Settings with other
names have no effect.
-/

set_option autoImplicit false

namespace TextHistory

/-- Settings of the service. -/
structure ServiceSettings where
  host : Text := "127.0.0.1".toList
  /-- Below `2 ^ 16`. -/
  port : Nat := 5232
  storePath : Text := "revlog.db".toList
  tuning : Tuning := {}

namespace ServiceSettings

/-- The number of a port. -/
def toPort? (v : Setting) : Option Nat := v.toNatural?.filter (· < Nat.pow 2 16)

/-- Typed settings, where what is missing has its usual value. -/
def ofLayer? (layer : Settings.Layer) : Option ServiceSettings := do
  let s : ServiceSettings := {}
  let host ← Setting.entryD layer "host" Setting.toText? s.host
  let port ← Setting.entryD layer "port" toPort? s.port
  let storePath ← Setting.entryD layer "store_path" Setting.toText? s.storePath
  let tuning ← Setting.entryD layer "codec" Setting.toTuning? s.tuning
  return ⟨host, port, storePath, tuning⟩

/-- Where the service listens. -/
def address (s : ServiceSettings) : Text := s.host ++ ':' :: Numeral.print s.port

end ServiceSettings

end TextHistory
