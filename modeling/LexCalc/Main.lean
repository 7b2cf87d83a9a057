import LexCalc.FileTree
import LexCalc.Program

/-!
The command line: gathers arguments, environment and files, and prints the report of the run.
-/
namespace LexCalc.Program

/-- What stands at a path. A directory can be opened, but reading it fails with code 21; any other
step into what is no directory leads nowhere. -/
def entryAt (path : Path) : IO Entry := do
  match String.fromUTF8? ⟨path.toArray⟩ with
  | none => return .missing
  | some name =>
    try
      return .file (← IO.FS.readBinFile name)
    catch
      | .inappropriateType _ 21 _ => return .directory
      | .inappropriateType _ _ _ | .noFileOrDirectory _ _ _ => return .missing
      | .permissionDenied _ code details => return .unreadable s!"{details} (os error {code})"
      | e => return .unreadable (toString e)

def environmentValue (name : String) : IO (Option CommandLine.Argument) := do
  return (← IO.getEnv name).map CommandLine.bytes

/-- Settings are below the home directory, unless another directory is named in full. -/
def placesHere : IO Config.Places := do
  let home ← environmentValue "HOME"
  let named := (← environmentValue "XDG_CONFIG_HOME").filter (·.head? = some FileTree.slash)
  return ⟨home, named.or (home.map (Config.join · ".config"))⟩

/-- The world as far as the arguments ask for it. Files are read one after the other. -/
def worldHere (args : List CommandLine.Argument) : IO World := do
  let environment : CommandLine.Environment := {
    verbose := ← environmentValue "KST_VERBOSE"
    config := ← environmentValue "KST_CONFIG"
    noColor := ← environmentValue "KST_NO_COLOR" }
  let places ← placesHere
  let found ← (paths places environment args).mapM fun path => do return (path, ← entryAt path)
  return { files := fun path => (found.lookup path).getD .missing, places, environment
           processors := 1 }

/-- Seconds with two places. -/
def seconds (milliseconds : Nat) : String :=
  let n := (milliseconds + 5) / 10
  s!"{n / 100}.{n / 10 % 10}{n % 10}"

def colorCode : Log.Level → String
  | .debug => "34"
  | .info => "32"
  | .warn => "33"

def shownLine (color : Bool) (elapsed : Nat) (l : Log.Line) : String :=
  let line := l.render (seconds elapsed)
  if color then "\x1b[" ++ colorCode l.level ++ "m" ++ line ++ "\x1b[0m" else line

/-- Prints a report; a wrong use of the command line is answered with help. -/
def Report.print (r : Report) (elapsed : Nat) : IO Unit := do
  IO.print (String.ofList r.output)
  for line in r.log do
    IO.eprintln (shownLine r.color elapsed line)
  if let some failure := r.failure then
    IO.eprintln ("Error: " ++ failure.term)
  if r.exit = 2 then
    IO.eprint helpText

end LexCalc.Program

def main (args : List String) : IO UInt32 := do
  let start ← IO.monoMsNow
  let args := args.map LexCalc.CommandLine.bytes
  let report := LexCalc.Program.run (← LexCalc.Program.worldHere args) args
  report.print ((← IO.monoMsNow) - start)
  return UInt32.ofNat report.exit
