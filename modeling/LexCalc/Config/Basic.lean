import LexCalc.Listing.Render
import LexCalc.Toml.Value

/-!
Settings of the commands, and their written form.
-/
namespace LexCalc

structure ListingConfig where
  showTrivia : Bool
  format : Format
  /-- How many files are read at the same time. -/
  jobs : Nat
  denyInvalid : Bool
  deriving DecidableEq, Repr

structure CalculationConfig where
  uppercase : Bool
  deriving DecidableEq, Repr

structure Config where
  verbose : Bool
  listing : ListingConfig
  calculation : CalculationConfig
  deriving DecidableEq, Repr

namespace Config

/-- The settings of an empty file; `jobs` is one for each processor of the machine. -/
def default (jobs : Nat) : Config := ⟨false, ⟨false, .text, jobs, false⟩, ⟨false⟩⟩

def writeBool (b : Bool) : Text := if b then "true".toList else "false".toList

/-- One line with a key and a written value. -/
def entry (key : String) (value : Text) : Text := key.toList ++ " = ".toList ++ value ++ ['\n']

def heading (key : String) : Text := "\n[".toList ++ key.toList ++ "]\n".toList

/-- The file that holds the settings, in TOML. There is none if `jobs` does not fit an integer. -/
def write? (c : Config) : Option Text :=
  if c.listing.jobs ≤ Toml.largestInteger then
    some (entry "verbose" (writeBool c.verbose) ++
      heading "lex" ++
      entry "show_trivia" (writeBool c.listing.showTrivia) ++
      entry "format" ('"' :: (c.listing.format.word.toList ++ ['"'])) ++
      entry "jobs" (Text.decimal c.listing.jobs) ++
      entry "deny_invalid" (writeBool c.listing.denyInvalid) ++
      heading "calc" ++
      entry "uppercase" (writeBool c.calculation.uppercase))
  else none

end Config

end LexCalc
