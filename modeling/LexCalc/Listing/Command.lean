import LexCalc.Config.Basic
import LexCalc.Files
import LexCalc.Outcome

/-!
Listing the tokens of files. All files are checked before any is read, and all are read before
anything is printed; malformed tokens change how the command ends, not what it prints.
-/
namespace LexCalc

namespace Listing

/-- What a command line asks for beyond the settings. -/
structure Request where
  paths : List Path
  showTrivia : Bool := false
  format : Option Format := none
  jobs : Option Nat := none
  denyInvalid : Bool := false
  deriving DecidableEq, Repr

/-- The settings in force. -/
def Request.settings (r : Request) (base : ListingConfig) : ListingConfig where
  showTrivia := r.showTrivia || base.showTrivia
  format := r.format.getD base.format
  jobs := max (r.jobs.getD base.jobs) 1
  denyInvalid := r.denyInvalid || base.denyInvalid

/-- A path that can be listed leads to a file. -/
def checkPath (files : Files) (path : Path) : Except Failure Unit :=
  match files path with
  | .missing => .error (.fileOperation ("Input path does not exist: " ++ path.shown))
  | .directory => .error (.fileOperation ("Input path is not a file: " ++ path.shown))
  | _ => .ok ()

/-- The first path that cannot be listed decides. -/
def checkPaths (files : Files) : List Path → Except Failure Unit
  | [] => .ok ()
  | path :: paths => do
    checkPath files path
    checkPaths files paths

def validate (files : Files) (paths : List Path) : Except Failure Unit :=
  if paths.isEmpty then .error (.validation "No input files specified")
  else checkPaths files paths

/-- The listing of a text. -/
def ofSource (path : Path) (source : Text) : Except SpanError Listing := do
  return ⟨path, ← Record.ofSource source⟩

/-- What listing a text logs. -/
def logOfSource (path : Path) (source : Text) : List Log.Line :=
  let tokens := Lexer.tokens source
  tokens.flatMap Token.log ++ [.debug s!"{path.shown}: {tokens.length} token(s)"]

/-- The listing of a file, and what is logged. -/
def ofFile (files : Files) (path : Path) : Except Failure (Listing × List Log.Line) :=
  match (files path).text with
  | .error e => .error (.fileOperation s!"Failed to read {path.shown}: {e.message}")
  | .ok source =>
    match ofSource path source with
    | .error e => .error (.commandExecution e.message)
    | .ok listing => .ok (listing, logOfSource path source)

/-- The listings of files in their order, unless one cannot be read. -/
def ofFiles (files : Files) : List Path → Except Failure (List Listing) × List Log.Line
  | [] => (.ok [], [])
  | path :: paths =>
    match ofFile files path with
    | .error e => (.error e, [])
    | .ok (listing, log) =>
      let (rest, logs) := ofFiles files paths
      (rest.map (listing :: ·), log ++ logs)

/-- Whether a pool of so many threads can be built, and why not if it cannot. -/
abbrev Threads := Nat → Except String Unit

/-- The listings of all files, and what is logged. No file is read before there are threads. -/
def execute (files : Files) (r : Request) (base : ListingConfig)
    (threads : Threads := fun _ => .ok ()) : Except Failure (List Listing) × List Log.Line :=
  match validate files r.paths with
  | .error e => (.error e, [])
  | .ok () =>
    let jobs := (r.settings base).jobs
    match threads jobs with
    | .error reason => (.error (.commandExecution ("Failed to build thread pool: " ++ reason)), [])
    | .ok () =>
      let (listings, log) := ofFiles files r.paths
      (listings, .debug s!"Lexing {r.paths.length} file(s) on {jobs} thread(s)" :: log)

/-- How many tokens of all listings are malformed. -/
def totalErrors (listings : List Listing) : Nat :=
  (listings.map errorCount).foldr (· + ·) 0

def malformed (n : Nat) : String := s!"{n} malformed token(s)"

/-- How a command ends that has printed its listings: malformed tokens are a failure if they are
denied, and otherwise a warning. -/
def conclude (denyInvalid : Bool) (listings : List Listing) :
    List Log.Line × Except Failure Unit :=
  let n := totalErrors listings
  if n = 0 then ([], .ok ())
  else if denyInvalid then ([], .error (.lex (malformed n)))
  else ([.warn (malformed n)], .ok ())

/-- Prints listings, if there are any, and tells how many tokens are malformed. -/
def report (settings : ListingConfig) (log : List Log.Line) :
    Except Failure (List Listing) → Outcome
  | .error e => .failed log e
  | .ok listings =>
    match render settings.format settings.showTrivia listings with
    | .error e => .failed log e
    | .ok output =>
      let done := { Log.Line.info s!"lex: {listings.length} file(s)" with timed := true }
      let (log', verdict) := conclude settings.denyInvalid listings
      { output, log := log ++ done :: log', verdict }

/-- Prints the listings of files. -/
def run (files : Files) (r : Request) (base : ListingConfig) (threads : Threads) : Outcome :=
  let (listings, log) := execute files r base threads
  report (r.settings base) log listings

end Listing

end LexCalc
