import Conform.Json.Token

/-!
# Reading JSON

The tokens of a value are consumed one by one by a machine that keeps the arrays and objects it is
inside of.  A completed value is *delivered* to the innermost of them, so reading the tokens of a
value has the same effect as delivering it.

Nothing here is particular to terms or settings: the reader and the writer stand for ones that are
taken from elsewhere.
-/

namespace Conform.Json

/-- A container that is still open, with what it holds so far in reverse. -/
inductive Frame where
  | items (done : List Json)
  | member (name : List Piece) (done : List (List Piece × Json))

/-- What may come next, and the containers around it, innermost first. -/
inductive Reading where
  /-- The value is complete. -/
  | complete (value : Json)
  /-- A value. -/
  | valueDue (around : List Frame)
  /-- The first element of an array, or its end. -/
  | firstItemDue (around : List Frame)
  /-- A comma or the end of an array. -/
  | afterItem (done : List Json) (around : List Frame)
  /-- The name of the first member of an object, or its end. -/
  | firstNameDue (around : List Frame)
  /-- The name of a further member. -/
  | nameDue (done : List (List Piece × Json)) (around : List Frame)
  /-- The colon after a name. -/
  | colonDue (name : List Piece) (done : List (List Piece × Json)) (around : List Frame)
  /-- A comma or the end of an object. -/
  | afterMember (done : List (List Piece × Json)) (around : List Frame)

namespace Reading

/-- Hands a completed value to the innermost container. -/
def deliver (value : Json) : List Frame → Reading
  | [] => complete value
  | .items done :: around => afterItem (value :: done) around
  | .member name done :: around => afterMember ((name, value) :: done) around

/-- A token where a value is due. -/
def begin (around : List Frame) : Token → Option Reading
  | .null => some (deliver .null around)
  | .bool b => some (deliver (.bool b) around)
  | .number numeral => some (deliver (.number numeral) around)
  | .string pieces => some (deliver (.string pieces) around)
  | .openArray => some (firstItemDue around)
  | .openObject => some (firstNameDue around)
  | _ => none

/-- One token; none if no value goes on like that. -/
def step (token : Token) : Reading → Option Reading
  | complete _ => none
  | valueDue around => begin around token
  | firstItemDue around =>
    if token = .closeArray then some (deliver (.array []) around)
    else begin (.items [] :: around) token
  | afterItem done around =>
    match token with
    | .comma => some (valueDue (.items done :: around))
    | .closeArray => some (deliver (.array done.reverse) around)
    | _ => none
  | firstNameDue around =>
    match token with
    | .string pieces => some (colonDue pieces [] around)
    | .closeObject => some (deliver (.object []) around)
    | _ => none
  | nameDue done around =>
    match token with
    | .string pieces => some (colonDue pieces done around)
    | _ => none
  | colonDue name done around =>
    if token = .colon then some (valueDue (.member name done :: around)) else none
  | afterMember done around =>
    match token with
    | .comma => some (nameDue done around)
    | .closeObject => some (deliver (.object done.reverse) around)
    | _ => none

/-- A row of tokens. -/
def run : List Token → Reading → Option Reading
  | [], reading => some reading
  | token :: tokens, reading => (reading.step token).bind (run tokens)

/-- The value, once it is complete. -/
def result? : Reading → Option Json
  | complete value => some value
  | _ => none

end Reading

/-- The value that a row of tokens spells. -/
def ofTokens? (tokens : List Token) : Option Json :=
  (Reading.run tokens (.valueDue [])).bind Reading.result?

/-- The value of a text, which must hold that value alone. -/
def parse? (text : List Char) : Option Json := (Token.scan text).bind ofTokens?

/-- Rows of tokens with a comma between any two. -/
def separated (rows : List (List Token)) : List Token := [Token.comma].intercalate rows

mutual

/-- The tokens of a value. -/
def tokens : Json → List Token
  | null => [.null]
  | bool b => [.bool b]
  | number numeral => [.number numeral]
  | string pieces => [.string pieces]
  | array items => .openArray :: (separated (tokensItems items) ++ [.closeArray])
  | object members => .openObject :: (separated (tokensMembers members) ++ [.closeObject])

/-- The tokens of each element. -/
def tokensItems : List Json → List (List Token)
  | [] => []
  | v :: vs => v.tokens :: tokensItems vs

/-- The tokens of each member. -/
def tokensMembers : List (List Piece × Json) → List (List Token)
  | [] => []
  | (name, v) :: ms => (.string name :: .colon :: v.tokens) :: tokensMembers ms

end

/-- The text of a value, without blanks. -/
def text (value : Json) : List Char := value.tokens.flatMap Token.text

end Conform.Json
