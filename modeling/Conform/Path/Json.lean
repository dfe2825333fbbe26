import Conform.Path.Basic
import Conform.Term.Json

/-!
# JSON form of paths

A path is an array of steps, each an object of one member: `{"field": name}` or `{"index": i}`.  An
index that is read has to fit into 64 bits.
-/

namespace Conform

namespace Segment

/-- The JSON form of a step. -/
def toJson : Segment → Json
  | field name => Json.ofMembers [("field", Json.ofString name)]
  | index i => Json.ofMembers [("index", Json.ofInteger i)]

/-- The step that a JSON value is the form of. -/
def ofJson? (value : Json) : Option Segment :=
  value.onlyMember?.bind fun (name, content) =>
    if name = "field" then content.asString?.map field
    else if name = "index" then
      content.asInteger?.bind fun i => if 0 ≤ i then some (index i.toNat) else none
    else none

end Segment

namespace Path

/-- The JSON form of a path. -/
def toJson (p : Path) : Json := .array (p.map Segment.toJson)

/-- The path that a JSON value is the form of. -/
def ofJson? : Json → Option Path
  | .array items => items.mapM Segment.ofJson?
  | _ => none

/-- The JSON text of a path. -/
def jsonText (p : Path) : List Char := p.toJson.text

/-- The path of a JSON text, which may nest up to the limit. -/
def ofJsonText? (text : List Char) : Option Path :=
  (Json.parse? text).bind fun v => if v.depth ≤ Json.depthLimit then ofJson? v else none

end Path

end Conform
