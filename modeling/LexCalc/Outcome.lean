import LexCalc.Failure
import LexCalc.Log
import LexCalc.Text.Basic

/-!
What a command does: the text it prints, the lines it logs, and how it ends.
-/
namespace LexCalc

structure Outcome where
  output : Text := []
  log : List Log.Line := []
  verdict : Except Failure Unit := .ok ()

/-- Fails before anything is printed. -/
def Outcome.failed (log : List Log.Line) (e : Failure) : Outcome := { log, verdict := .error e }

end LexCalc
