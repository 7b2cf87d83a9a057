import LexCalc.Failure
import LexCalc.Json.Value
import LexCalc.Listing.Basic
import LexCalc.Text.Quoted
import LexCalc.Text.Utf8

/-!
Written listings: as text, one line for each token, or as JSON, which holds everything.
-/
namespace LexCalc

inductive Format where
  | text
  | json
  deriving DecidableEq, Repr, Inhabited

def Format.word : Format → String
  | text => "text"
  | json => "json"

def Format.ofWord? (word : String) : Option Format := [Format.text, .json].find? (·.word == word)

namespace Record

/-- The line of a token: where it starts, its kind and its value, and on demand its trivia. -/
def line (showTrivia : Bool) (r : Record) : Text :=
  Text.decimal r.start ++ ' ' :: r.kind.name.toList ++ ' ' :: Text.quoted r.value ++
    (if showTrivia then " trivia=".toList ++ Text.quoted r.trivia else []) ++ ['\n']

def json (r : Record) : Json.Value :=
  .object
    [("kind".toList, .string r.kind.name.toList),
     ("value".toList, .string r.value),
     ("trivia".toList, .string r.trivia),
     ("start".toList, .number r.start),
     ("end".toList, .number r.stop),
     ("line".toList, .number r.place.line),
     ("column".toList, .number r.place.column)]

end Record

namespace Listing

/-- The line before the tokens of a file when there are several files. -/
def header (l : Listing) : Text := "==> ".toList ++ Text.ofUtf8Lossy l.path ++ " <==\n".toList

def text (showTrivia : Bool) (listings : List Listing) : Text :=
  listings.flatMap fun l =>
    (if 1 < listings.length then l.header else []) ++ l.records.flatMap (Record.line showTrivia)

/-- A path has a JSON form only if it is UTF-8. -/
def json? (l : Listing) : Option Json.Value := do
  let path ← Text.ofUtf8? l.path
  return .object
    [("path".toList, .string path), ("tokens".toList, .array (l.records.map Record.json))]

/-- The listings in one format. Trivia are always part of JSON. -/
def render (format : Format) (showTrivia : Bool) (listings : List Listing) : Except Failure Text :=
  match format with
  | .text => .ok (text showTrivia listings)
  | .json =>
    match listings.mapM json? with
    | some values => .ok ((Json.Value.array values).write 0 ++ ['\n'])
    | none => .error (.json "path contains invalid UTF-8 characters")

end Listing

end LexCalc
