/-!
# Files of settings

What a name in a file system leads to, and the text that can be read there.
-/

namespace Conform

/-- What is found under the name of a file. -/
inductive File where
  | absent
  | directory
  | content (bytes : ByteArray)

/-- Why a file has no text. -/
inductive FileFault where
  | absent
  | directory
  | notText
  deriving DecidableEq

/-- The sentence for a fault. -/
def FileFault.message : FileFault → List Char
  | absent => "io error: No such file or directory (os error 2)".toList
  | directory => "io error: Is a directory (os error 21)".toList
  | notText => "io error: stream did not contain valid UTF-8".toList

/-- The text of a file. -/
def File.text : File → Except FileFault String
  | absent => .error .absent
  | directory => .error .directory
  | content bytes =>
    match String.fromUTF8? bytes with
    | some text => .ok text
    | none => .error .notText

end Conform
