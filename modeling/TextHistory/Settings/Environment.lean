import TextHistory.Settings.Layer

/-!
# Settings from the environment

A variable whose name begins with a given word is a setting: what follows the word, in small
letters, is its name, and two underscores stand for the point between the parts of a path. A value
that looks like a truth value or a number is one.
-/

set_option autoImplicit false

namespace TextHistory.Settings

/-- The value of a variable. -/
def variableValue (t : Text) : Setting :=
  if Text.isWord "true" t then .boolean true
  else if Text.isWord "false" t then .boolean false
  else
    match Numeral.readSigned t with
    | some n => .integer n
    | none =>
      match Double.read? t with
      | some x => .float x
      | none => .text t

/-- A name with a point for every two underscores. -/
def pointed : Text → Text
  | '_' :: '_' :: rest => '.' :: pointed rest
  | c :: rest => c :: pointed rest
  | [] => []

/-- The setting that a variable stands for. -/
def ofVariable? (lead : String) (entry : Text × Text) : Option (Text × Setting) :=
  (Text.stripLead? lead.toList (entry.1.map Char.toLower)).map fun name =>
    (pointed name, variableValue entry.2)

/-- The settings in an environment; of two variables with one name the later one counts. -/
def ofEnvironment (lead : String) (environment : List (Text × Text)) : Layer :=
  (environment.filterMap (ofVariable? lead)).foldl (fun layer (name, v) => layer.put name v) []

end TextHistory.Settings
