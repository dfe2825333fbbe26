import Conform.Canonical
import Conform.Settings.Tree

/-!
# Looking settings up

A look-up matches a stored value against a specification.  With a default there is no error: whether
the setting is absent or does not match, the default is the answer as it is.
-/

namespace Conform

/-- What is done about a setting that is absent or does not match. -/
inductive Fallback where
  /-- It is an error. -/
  | required
  /-- A default stands in for it. -/
  | default (t : Term)

/-- Why settings cannot be read or loaded. -/
inductive SettingsError where
  | missing (ns key : String)
  | invalid (ns key : String) (failure : Failure)
  | load (origin : String) (fault : LoadFault)

namespace Failure

/-- The sentence for a failure. -/
def message : Failure → List Char
  | mismatch m => m.message
  | endless => "names refer to one another without end".toList
  | undefined name => "name '".toList ++ name.toList ++ "' is not defined".toList

end Failure

namespace SettingsError

/-- A setting as messages name it. -/
def settingName (ns key : String) : List Char :=
  "setting '".toList ++ ns.toList ++ '.' :: (key.toList ++ ['\''])

/-- The sentence for an error. -/
def message : SettingsError → List Char
  | missing ns key => settingName ns key ++ " is not set".toList
  | invalid ns key failure => settingName ns key ++ " is invalid: ".toList ++ failure.message
  | load origin fault =>
    "settings load error for '".toList ++ origin.toList ++ "': ".toList ++ fault.message

end SettingsError

/-- The canonical form of a stored setting, or what the fallback says. -/
def lookup (defs : Definitions) (ns key : String) (fallback : Fallback) (spec : Spec)
    (stored : Option Value) : Except SettingsError Term :=
  match stored with
  | none =>
    match fallback with
    | .default t => .ok t
    | .required => .error (.missing ns key)
  | some v =>
    match defs.validate spec v, fallback with
    | .ok t, _ => .ok t
    | .error _, .default t => .ok t
    | .error failure, .required => .error (.invalid ns key failure)

end Conform
