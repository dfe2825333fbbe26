import Conform.Json.Token
import Conform.Yaml.Token.Basic

/-!
# Quoted scalars

Between single quotes only the quote itself is escaped, by doubling it; between double quotes a
backslash escapes characters, codes, and line breaks.  Breaks fold in both.
-/

namespace Conform.Yaml

/-- The character of an escape of one letter. -/
def escapeChar? : Char → Option Char
  | '0' => some '\x00'
  | 'a' => some '\x07'
  | 'b' => some '\x08'
  | 't' => some '\t'
  | '\t' => some '\t'
  | 'n' => some '\n'
  | 'v' => some '\x0b'
  | 'f' => some '\x0c'
  | 'r' => some '\r'
  | 'e' => some '\x1b'
  | ' ' => some ' '
  | '\"' => some '\"'
  | '/' => some '/'
  | '\\' => some '\\'
  | 'N' => some '\u0085'
  | '_' => some '\u00a0'
  | 'L' => some '\u2028'
  | 'P' => some '\u2029'
  | _ => none

/-- How many digits follow the letter of an escaped code. -/
def escapeDigits? : Char → Option Nat
  | 'x' => some 2
  | 'u' => some 4
  | 'U' => some 8
  | _ => none

/-- The character of an escaped code, unless it is a surrogate or beyond Unicode. -/
def codeChar? (code : Nat) : Option Char :=
  if code.isValidChar then some (Char.ofNat code) else none

/-- Where the reading of a quoted scalar stands. -/
inductive QuotedMode where
  /-- Between characters. -/
  | plain (fold : Fold)
  /-- After a quote within single quotes, which ends the scalar or is the first of two. -/
  | quote
  /-- After a backslash. -/
  | escape
  /-- Before the last `more + 1` digits of a code. -/
  | code (more : Nat) (value : Nat)

/-- A quoted scalar after its opening quote; the characters read so far are held in reverse. -/
def quotedFrom (double : Bool) :
    QuotedMode → List Char → Place → List Char → Option (List Char × Cursor)
  | .quote, read, place, [] => some (read.reverse, { rest := [], place })
  | _, _, _, [] => none
  | .plain fold, read, place, c :: cs =>
    if isBlank c then quotedFrom double (.plain (fold.blank c)) read (place.after c) cs
    else if isBreak c then quotedFrom double (.plain (fold.newline c)) read place.nextLine cs
    else if place.column == 0 && atMarker (c :: cs) then none
    else
      let read := fold.text.reverse ++ read
      if double then
        if c = '\"' then some (read.reverse, { rest := cs, place := place.after c })
        else if c = '\\' then quotedFrom double .escape read (place.after c) cs
        else quotedFrom double (.plain .none) (c :: read) (place.after c) cs
      else if c = '\'' then quotedFrom double .quote read (place.after c) cs
      else quotedFrom double (.plain .none) (c :: read) (place.after c) cs
  | .quote, read, place, c :: cs =>
    if c = '\'' then quotedFrom double (.plain .none) (c :: read) (place.after c) cs
    else some (read.reverse, { rest := c :: cs, place })
  | .escape, read, place, c :: cs =>
    if isBreak c then quotedFrom double (.plain (.broken [] [])) read place.nextLine cs
    else
      match escapeDigits? c with
      | some digits => quotedFrom double (.code (digits - 1) 0) read (place.after c) cs
      | none =>
        match escapeChar? c with
        | some d => quotedFrom double (.plain .none) (d :: read) (place.after c) cs
        | none => none
  | .code more value, read, place, c :: cs =>
    match Json.Token.hexValue? c with
    | none => none
    | some digit =>
      match more with
      | 0 =>
        match codeChar? (value * 16 + digit) with
        | some d => quotedFrom double (.plain .none) (d :: read) (place.after c) cs
        | none => none
      | more + 1 => quotedFrom double (.code more (value * 16 + digit)) read (place.after c) cs

/-- The quoted scalar at a cursor that stands on its opening quote. -/
def Cursor.quoted? (double : Bool) (here : Cursor) : Option (List Char × Cursor) :=
  let inside := here.skip 1
  quotedFrom double (.plain .none) [] inside.place inside.rest

end Conform.Yaml
