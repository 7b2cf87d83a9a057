import LexCalc.CommandLine.Parse
import LexCalc.Config.Load

/-!
The program: from arguments, environment and files to what it prints and how it ends.
-/
namespace LexCalc

namespace Program

/-- What the program finds around it. -/
structure World where
  files : Files
  places : Config.Places
  environment : CommandLine.Environment
  /-- The number of processors. -/
  processors : Nat
  /-- What comes of building a pool of threads. -/
  threads : Listing.Threads := fun _ => .ok ()

/-- How a run ends. -/
structure Report where
  exit : Nat
  output : Text
  /-- The lines of the log that are shown. -/
  log : List Log.Line
  /-- Whether the shown lines are coloured. -/
  color : Bool
  failure : Option Failure

def versionText (level : CommandLine.Level) : String := level.programName ++ " 0.1.0\n"

def helpText : String :=
  "Usage: kst [OPTIONS] <COMMAND>\n\n" ++
  "Commands:\n" ++
  "  lex   List the tokens of files\n" ++
  "  calc  Add, subtract, multiply or shift hexadecimal numbers\n" ++
  "  help  Print this message\n\n" ++
  "Options:\n" ++
  "  -v, --verbose        Log more\n" ++
  "  -c, --config <FILE>  Read the settings from a file\n" ++
  "      --no-color       Log without colours\n" ++
  "  -h, --help           Print help\n" ++
  "  -V, --version        Print version\n"

/-- Without more detail, debugging lines are not shown. -/
def isShown (verbose : Bool) (l : Log.Line) : Bool := verbose || l.level != .debug

/-- The paths at which a run may look. -/
def paths (places : Config.Places) (e : CommandLine.Environment)
    (args : List CommandLine.Argument) : List Path :=
  match CommandLine.parse e args with
  | .error _ => []
  | .ok (g, command) =>
    (match g.config with
      | some path => [path]
      | none => Config.candidates places) ++
    match command with
      | .listing request => request.paths
      | .calculation _ _ => []

def runCommand (w : World) (c : Config) : CommandLine.Command → Outcome
  | .listing request => Listing.run w.files request c.listing w.threads
  | .calculation calculation uppercase => calculation.run uppercase c.calculation

/-- The report of a command that was run, or whose settings could not be read. -/
def runWith (w : World) (g : CommandLine.Globals) (command : CommandLine.Command) : Report :=
  match Config.load w.files w.processors w.places g.config with
  | .error e => ⟨1, [], [], false, some e⟩
  | .ok c =>
    let outcome := runCommand w c command
    let log := outcome.log.filter (isShown (g.verbose || c.verbose))
    let color := !g.noColor && !log.isEmpty
    match outcome.verdict with
    | .ok () => ⟨0, outcome.output, log, color, none⟩
    | .error e => ⟨1, outcome.output, log, color, some e⟩

/-- Runs the program. A wrong use of the command line is left to the caller to explain. -/
def run (w : World) (args : List CommandLine.Argument) : Report :=
  match CommandLine.parse w.environment args with
  | .error .usage => ⟨2, [], [], false, none⟩
  | .error .help => ⟨0, helpText.toList, [], false, none⟩
  | .error (.version level) => ⟨0, (versionText level).toList, [], false, none⟩
  | .ok (g, command) => runWith w g command

end Program

end LexCalc
