import LexCalc.Config.Read
import LexCalc.Files

/-!
Finding the settings: in a file that is named, or in the first of the usual places that is there.
-/
namespace LexCalc.Config

/-- Directories that hold settings, as far as they are known. -/
structure Places where
  home : Option Path
  config : Option Path

/-- The file of a directory: parts are put behind a slash. -/
def join (dir : Path) (below : String) : Path :=
  if dir.getLast? = some 0x2f then dir ++ below.toUTF8.toList
  else dir ++ 0x2f :: below.toUTF8.toList

/-- The usual places: the working directory, the home directory, the directory for settings. -/
def candidates (places : Places) : List Path :=
  "kst.toml".toUTF8.toList ::
    ((places.home.map (join · ".config/kst/kst.toml")).toList ++
      (places.config.map (join · "kst/kst.toml")).toList)

/-- Reads the settings from a file. -/
def loadFrom (files : Files) (jobs : Nat) (path : Path) : Except Failure Config :=
  let entry := files path
  if entry.isMissing then .error (.config ("Configuration file not found: " ++ path.shown))
  else
    match entry.text with
    | .ok t => ofText jobs t
    | .error e => .error (.io e)

/-- Reads the settings from a file, if one is named, or from the first of the usual places. -/
def load (files : Files) (jobs : Nat) (places : Places) (path : Option Path) :
    Except Failure Config :=
  match path.or ((candidates places).find? fun p => !(files p).isMissing) with
  | some path => loadFrom files jobs path
  | none => .ok (default jobs)

end LexCalc.Config
