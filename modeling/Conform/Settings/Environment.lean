import Conform.Document.Basic
import Conform.Value

/-!
# Settings from the environment

A setting can be read from a variable whose name joins an optional common part, the namespace and
the key.  Each of them is upper-cased, and whatever is neither an ASCII letter nor an ASCII digit
becomes an underscore, as is the joint.
-/

namespace Conform

/-- The character of a variable name that stands for a character of a name. -/
def variableChar (c : Char) : Char := if c.isAlphanum then c.toUpper else '_'

/-- The part of a variable name that stands for a name. -/
def variablePart (name : String) : List Char := name.toList.map variableChar

/-- The variable of a setting; the common part may be empty and still has its joint. -/
def variableName (common : Option String) (ns key : String) : List Char :=
  ['_'].intercalate ((common.toList ++ [ns, key]).map variablePart)

/-- Variables and their contents, which need not be text. -/
abbrev Environment := List (String × ByteArray)

namespace Environment

/-- The text of a variable; none if it is not set or is no text. -/
def text? (env : Environment) (name : String) : Option String :=
  ((List.find? (fun v => v.1 == name) env).map Prod.snd).bind String.fromUTF8?

/-- Sets a variable. -/
def set (env : Environment) (name : String) (content : ByteArray) : Environment :=
  (name, content) :: env

/-- Takes a variable away. -/
def unset (env : Environment) (name : String) : Environment :=
  List.filter (fun v => v.1 != name) env

/-- The document that a text stands for: the one it spells as JSON, or else the text itself. -/
def documentOf (text : String) : Document :=
  (Document.ofJsonText? text.toList).getD (.string text)

/-- The value of a setting. -/
def get? (env : Environment) (common : Option String) (ns key : String) : Option Value :=
  (env.text? (String.ofList (variableName common ns key))).map fun text =>
    .document (documentOf text)

end Environment

end Conform
