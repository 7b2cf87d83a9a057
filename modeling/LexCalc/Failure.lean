import LexCalc.Natural.Basic
import LexCalc.Text.Quoted

/-!
Why a command fails, by area, in two written forms: a message for a reader, and a term that shows
the area and its fields.
-/
namespace LexCalc

inductive ReadError where
  | isDirectory
  /-- The bytes are not UTF-8. -/
  | notText
  | other (text : String)
  deriving DecidableEq, Repr

inductive Failure where
  | config (text : String)
  | fileOperation (text : String)
  | validation (text : String)
  | commandExecution (text : String)
  | lex (text : String)
  | arithmetic (error : ArithmeticError)
  | io (error : ReadError)
  | json (text : String)
  deriving DecidableEq, Repr

def ReadError.message : ReadError → String
  | isDirectory => "Is a directory (os error 21)"
  | notText => "stream did not contain valid UTF-8"
  | other text => text

namespace Failure

def quote (text : String) : String := String.ofList (Text.quoted text.toList)

/-- A constructor applied to one argument. -/
def applied (name argument : String) : String := name ++ "(" ++ argument ++ ")"

/-- A record value with its fields. -/
def record (name fields : String) : String := name ++ " \x7b " ++ fields ++ " \x7d"

def message : Failure → String
  | config text => "Configuration error: " ++ text
  | fileOperation text => "File operation failed: " ++ text
  | validation text => "Validation error: " ++ text
  | commandExecution text => "Command execution failed: " ++ text
  | lex text => "Lex error: " ++ text
  | arithmetic error => "Arithmetic error: " ++ error.message
  | io error => "IO error: " ++ error.message
  | json text => "JSON error: " ++ text

end Failure

def ArithmeticError.term : ArithmeticError → String
  | negativeDifference m s =>
    Failure.record "NegativeDifference" s!"lhs_words: {m}, rhs_words: {s}"
  | invalidValue => "InvalidValue"

def ReadError.term : ReadError → String
  | isDirectory =>
    Failure.record "Os" ("code: 21, kind: IsADirectory, message: " ++
      Failure.quote "Is a directory")
  | notText =>
    Failure.record "Error" ("kind: InvalidData, message: " ++
      Failure.quote "stream did not contain valid UTF-8")
  | other text => Failure.record "Custom" ("kind: Other, error: " ++ Failure.quote text)

def Failure.term : Failure → String
  | config text => applied "Config" (quote text)
  | fileOperation text => applied "FileOperation" (quote text)
  | validation text => applied "Validation" (quote text)
  | commandExecution text => applied "CommandExecution" (quote text)
  | lex text => applied "Lex" (quote text)
  | arithmetic error => applied "Arithmetic" error.term
  | io error => applied "Io" error.term
  | json text => applied "Json" (applied "Error" (quote text ++ ", line: 0, column: 0"))

end LexCalc
