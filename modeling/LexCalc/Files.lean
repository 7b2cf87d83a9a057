import LexCalc.Failure
import LexCalc.Text.Utf8

/-!
Files as the commands see them: what stands at a path, and the text that can be read there.
-/
namespace LexCalc

/-- A path as the bytes by which it is named; they need not be UTF-8. -/
abbrev Path := List UInt8

/-- What stands at a path. -/
inductive Entry where
  | missing
  | directory
  | file (bytes : ByteArray)
  /-- A file that is there but cannot be read. -/
  | unreadable (reason : String)

abbrev Files := Path → Entry

/-- A path as it is shown: with U+FFFD for what is not UTF-8. -/
def Path.shown (path : Path) : String := String.ofList (Text.ofUtf8Lossy path)

namespace Entry

def isMissing : Entry → Bool
  | missing => true
  | _ => false

def isDirectory : Entry → Bool
  | directory => true
  | _ => false

/-- The text of a file. -/
def text : Entry → Except ReadError Text
  | missing => .error (.other "No such file or directory (os error 2)")
  | directory => .error .isDirectory
  | unreadable reason => .error (.other reason)
  | file bytes =>
    match String.fromUTF8? bytes with
    | some s => .ok s.toList
    | none => .error .notText

end Entry

end LexCalc
