import Conform.Yaml.Node.Basic
import Conform.Yaml.Token.Scan

/-!
# From tokens to nodes

A row of tokens holds at most one document, with or without a marker in front and behind.  A node
is missing where an indicator is not followed by one, and a collection that is not closed is an
error.

The functions read from the front of a row and return what is left of it.  Each call is given a
bound that the calls it makes are below; twice the number of tokens is enough, for every second call
takes a token.
-/

namespace Conform.Yaml

/-- What handles of tags stand for. -/
abbrev Handles := List (List Char × List UInt8)

/-- The handles that need no directive. -/
def standardHandles : Handles :=
  [(['!'], [asciiByte '!']), (['!', '!'], "tag:yaml.org,2002:".toList.map asciiByte)]

/-- All the bytes of a tag. -/
def resolveTag? (handles : Handles) (handle : List Char) (suffix : List UInt8) :
    Option (List UInt8) :=
  if handle.isEmpty then some suffix
  else
    ((handles ++ standardHandles).find? fun h => h.1 == handle).map fun h => h.2 ++ suffix

/-- The tag of a node by its whole text.  One of the text's own begins with an exclamation mark, and
a second mark is no part of its name either. -/
def NodeTag.ofText (text : List Char) : NodeTag :=
  match text with
  | '!' :: _ => .own (String.ofList (tagName (tagName text)))
  | _ =>
    if text = "tag:yaml.org,2002:null".toList then .core .null
    else if text = "tag:yaml.org,2002:bool".toList then .core .bool
    else if text = "tag:yaml.org,2002:int".toList then .core .int
    else if text = "tag:yaml.org,2002:float".toList then .core .float
    else .core .other

/-- The tag of a node by all its bytes. -/
def NodeTag.ofBytes (bytes : List UInt8) : NodeTag :=
  match String.fromUTF8? bytes.toByteArray with
  | some text => .ofText text.toList
  | none => if bytes.head? = some (asciiByte '!') then .illegible else .core .other

/-- The anchor and the tag in front of a node, in either order. -/
def decoration? (handles : Handles) (tokens : List Token) :
    Option (Decoration String × List Token) :=
  let tagOf? (handle : List Char) (suffix : List UInt8) : Option NodeTag :=
    (resolveTag? handles handle suffix).map NodeTag.ofBytes
  match tokens with
  | .anchor name :: .tag handle suffix :: rest | .tag handle suffix :: .anchor name :: rest =>
    (tagOf? handle suffix).map fun tag => (⟨some (String.ofList name), some tag⟩, rest)
  | .anchor name :: rest => some (⟨some (String.ofList name), none⟩, rest)
  | .tag handle suffix :: rest =>
    (tagOf? handle suffix).map fun tag => (⟨none, some tag⟩, rest)
  | _ => some (.none, tokens)

/-- Where a node may stand, which decides what collections it can be. -/
inductive Position where
  /-- In a flow collection. -/
  | flow
  /-- In a block. -/
  | block
  /-- In a block mapping, whose indentation a sequence may share. -/
  | member
  deriving DecidableEq

/-- The row of tokens begins with one of those that end an entry without content. -/
def leavesOut (ends : List Token) : List Token → Bool
  | [] => true
  | token :: _ => ends.contains token

mutual

/-- A node. -/
def node? (handles : Handles) : Nat → Position → List Token → Option (Node String × List Token)
  | 0, _, _ => none
  | _ + 1, _, .reference name :: rest => some (.reference (String.ofList name), rest)
  | bound + 1, position, tokens => do
    let (decoration, rest) ← decoration? handles tokens
    match rest with
    | .scalar plain text :: rest => some (.scalar decoration plain text, rest)
    | .flowSequence :: rest => do
      let (items, rest) ← flowItems? handles bound true rest
      some (.sequence decoration items, rest)
    | .flowMapping :: rest => do
      let (members, rest) ← flowMembers? handles bound true rest
      some (.mapping decoration members, rest)
    | .blockEntry :: _ =>
      if position = .member then do
        let (items, rest) ← sharedItems? handles bound rest
        some (.sequence decoration items, rest)
      else if decoration = .none then none
      else some (.scalar decoration true [], rest)
    | .blockSequence :: after =>
      if position = .flow then
        if decoration = .none then none else some (.scalar decoration true [], rest)
      else do
        let (items, rest) ← blockItems? handles bound after
        some (.sequence decoration items, rest)
    | .blockMapping :: after =>
      if position = .flow then
        if decoration = .none then none else some (.scalar decoration true [], rest)
      else do
        let (members, rest) ← blockMembers? handles bound after
        some (.mapping decoration members, rest)
    | _ => if decoration = .none then none else some (.scalar decoration true [], rest)

/-- A node, or a missing one in front of given tokens. -/
def content? (handles : Handles) (ends : List Token) :
    Nat → Position → List Token → Option (Node String × List Token)
  | 0, _, _ => none
  | bound + 1, position, tokens =>
    if leavesOut ends tokens then some (.missing, tokens) else node? handles bound position tokens

/-- The entries of a block sequence. -/
def blockItems? (handles : Handles) : Nat → List Token → Option (List (Node String) × List Token)
  | 0, _ => none
  | bound + 1, tokens =>
    match tokens with
    | .blockEntry :: rest => do
      let (item, rest) ← content? handles [.blockEntry, .blockEnd] bound .block rest
      let (items, rest) ← blockItems? handles bound rest
      some (item :: items, rest)
    | .blockEnd :: rest => some ([], rest)
    | _ => none

/-- The entries of a sequence that shares the indentation of the mapping around it. -/
def sharedItems? (handles : Handles) : Nat → List Token → Option (List (Node String) × List Token)
  | 0, _ => none
  | bound + 1, tokens =>
    match tokens with
    | .blockEntry :: rest => do
      let (item, rest) ←
        content? handles [.blockEntry, .key, .value, .blockEnd] bound .block rest
      let (items, rest) ← sharedItems? handles bound rest
      some (item :: items, rest)
    | _ => some ([], tokens)

/-- The members of a block mapping. -/
def blockMembers? (handles : Handles) :
    Nat → List Token → Option (List (Node String × Node String) × List Token)
  | 0, _ => none
  | bound + 1, tokens =>
    match tokens with
    | .key :: rest => do
      let (key, rest) ← content? handles [.key, .value, .blockEnd] bound .member rest
      let (value, rest) ←
        match rest with
        | .value :: rest => content? handles [.key, .value, .blockEnd] bound .member rest
        | _ => some (.missing, rest)
      let (members, rest) ← blockMembers? handles bound rest
      some ((key, value) :: members, rest)
    | .blockEnd :: rest => some ([], rest)
    | _ => none

/-- The entries of a flow sequence, the first one or those after a first; a pair is a mapping of one
member, and an indicator of a key that is missing takes the token behind it along. -/
def flowItems? (handles : Handles) :
    Nat → Bool → List Token → Option (List (Node String) × List Token)
  | 0, _, _ => none
  | bound + 1, first, tokens =>
    match tokens with
    | .flowSequenceEnd :: rest => some ([], rest)
    | _ => do
      let tokens ←
        match first, tokens with
        | true, _ => some tokens
        | false, .flowEntry :: rest => some rest
        | false, _ => none
      match tokens with
      | .flowSequenceEnd :: rest => some ([], rest)
      | .key :: rest => do
        let ends := [.value, .flowEntry, .flowSequenceEnd]
        let (key, rest) ←
          if leavesOut ends rest then some (Node.missing, rest.drop 1)
          else node? handles bound .flow rest
        let (value, rest) ←
          match rest with
          | .value :: rest => content? handles [.flowEntry, .flowSequenceEnd] bound .flow rest
          | _ => some (.missing, rest)
        let (items, rest) ← flowItems? handles bound false rest
        some (.mapping .none [(key, value)] :: items, rest)
      | _ => do
        let (item, rest) ← node? handles bound .flow tokens
        let (items, rest) ← flowItems? handles bound false rest
        some (item :: items, rest)

/-- The members of a flow mapping, the first one or those after a first; a key may stand alone. -/
def flowMembers? (handles : Handles) :
    Nat → Bool → List Token → Option (List (Node String × Node String) × List Token)
  | 0, _, _ => none
  | bound + 1, first, tokens =>
    match tokens with
    | .flowMappingEnd :: rest => some ([], rest)
    | _ => do
      let tokens ←
        match first, tokens with
        | true, _ => some tokens
        | false, .flowEntry :: rest => some rest
        | false, _ => none
      match tokens with
      | .flowMappingEnd :: rest => some ([], rest)
      | .key :: rest => do
        let (key, rest) ← content? handles [.value, .flowEntry, .flowMappingEnd] bound .flow rest
        let (value, rest) ←
          match rest with
          | .value :: rest => content? handles [.flowEntry, .flowMappingEnd] bound .flow rest
          | _ => some (.missing, rest)
        let (members, rest) ← flowMembers? handles bound false rest
        some ((key, value) :: members, rest)
      | _ => do
        let (key, rest) ← node? handles bound .flow tokens
        let (members, rest) ← flowMembers? handles bound false rest
        some ((key, .missing) :: members, rest)

end

/-- The directives in front of a document: at most one version that is known, and handles of which
none is given twice. -/
def directives? : Bool → Handles → List Token → Option (Bool × Handles × List Token)
  | seen, handles, .version major minor :: rest =>
    if seen || major ≠ 1 || (minor ≠ 1 && minor ≠ 2) then none else directives? true handles rest
  | seen, handles, .handle name meaning :: rest =>
    if handles.any fun h => h.1 == name then none
    else directives? seen ((name, meaning) :: handles) rest
  | seen, handles, tokens => some (seen, handles, tokens)

/-- The node of a row of tokens that holds one document, or none if it holds no document. -/
def document? (tokens : List Token) : Option (Option (Node String)) := do
  let bound := 2 * tokens.length + 2
  match tokens with
  | [] => some none
  | _ => do
    let (seen, handles, rest) ← directives? false [] tokens
    let (root, rest) ←
      match rest with
      | .documentStart :: rest =>
        if leavesOut [.documentStart, .documentEnd] rest then some (Node.missing, rest)
        else node? handles bound .block rest
      | _ => if seen || !handles.isEmpty then none else node? handles bound .block rest
    if (rest.dropWhile fun token => token == .documentEnd).isEmpty then some (some root) else none

end Conform.Yaml
