import Conform.Yaml.Token.Basic

/-!
# Plain scalars

A plain scalar has no quotes: it goes on over blanks and breaks until something that cannot be part
of it.  In a flow collection the brackets and the comma end it as well, in a block less indentation
does.
-/

namespace Conform.Yaml

/-- The punctuation of flow collections. -/
def isFlowPunctuation (c : Char) : Bool :=
  c == ',' || c == '[' || c == ']' || c == '\x7b' || c == '\x7d'

/-- The characters that mean something at the beginning of a token. -/
def isIndicator (c : Char) : Bool :=
  "-?:,[]\x7b\x7d#&*!|>'\"%@\x60".toList.contains c

/-- A plain scalar can begin here. -/
def startsPlain (inFlow : Bool) : List Char → Bool
  | [] => false
  | c :: cs =>
    !(atGap (c :: cs) || isIndicator c)
      || (c == '-' && !(cs.head?.any isBlank))
      || (!inFlow && (c == '?' || c == ':') && !atGap cs)

/-- The end of a plain scalar in front of the given text. -/
def plainEnd (fold : Fold) (read : List Char) (place : Place) (rest : List Char) :
    List Char × Bool × Cursor :=
  (read.reverse, fold.isBroken, { rest, place })

/-- A plain scalar after its first characters, which are held in reverse; `margin` is the least
column of its further lines.  The result says whether a break was crossed at the end. -/
def plainFrom (inFlow : Bool) (margin : Nat) :
    Fold → List Char → Place → List Char → Option (List Char × Bool × Cursor)
  | fold, read, place, [] => some (plainEnd fold read place [])
  | fold, read, place, c :: cs =>
    if isBlank c then
      if fold.isBroken && place.column < margin && c == '\t' then none
      else plainFrom inFlow margin (fold.blank c) read (place.after c) cs
    else if isBreak c then plainFrom inFlow margin (fold.newline c) read place.nextLine cs
    else if (fold.isSome && !inFlow && place.column < margin)
        || (place.column == 0 && atMarker (c :: cs)) || (fold.isSome && c == '#') then
      some (plainEnd fold read place (c :: cs))
    else if inFlow && c == ':' && cs.head?.any (fun d => isFlowPunctuation d || d == '?') then none
    else if (c == ':' && atGap cs) || (inFlow && isFlowPunctuation c) then
      some (plainEnd fold read place (c :: cs))
    else plainFrom inFlow margin .none (c :: (fold.text.reverse ++ read)) (place.after c) cs

/-- The plain scalar at a cursor. -/
def Cursor.plain? (inFlow : Bool) (margin : Nat) (here : Cursor) :
    Option (List Char × Bool × Cursor) :=
  plainFrom inFlow margin .none [] here.place here.rest

end Conform.Yaml
