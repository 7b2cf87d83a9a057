import LexCalc.Config.Basic
import LexCalc.Toml.Document

/-!
Settings read from the tables of a TOML document. What is not given has its default and what is
not known is passed over. An array in the place of a table gives its fields in their order.
-/
namespace LexCalc.Config

open Toml

/-- The fields of a record by their names, or by their order in an array. A date is a table of
none of the names. -/
inductive Fields where
  | named (ms : Members)
  | ordered (vs : List Value)

def fields? : Value → Option Fields
  | .table _ ms => some (.named ms)
  | .inline ms => some (.named ms)
  | .array vs => some (.ordered vs)
  | .tables earlier last =>
    some (.ordered ((earlier ++ [last]).map fun ms => .table .header ms))
  | .dateTime _ => some (.named [])
  | _ => none

def Fields.get? : Fields → Nat → String → Option Value
  | named ms, _, name => ms.get? name.toList
  | ordered vs, i, _ => vs[i]?

/-- The field with some number and name: its default if it is not given. -/
def field? {α : Type} (fs : Fields) (i : Nat) (name : String) (read : Value → Option α)
    (missing : α) : Option α :=
  match fs.get? i name with
  | some v => read v
  | none => some missing

def bool? : Value → Option Bool
  | .boolean b => some b
  | _ => none

def nat? : Value → Option Nat
  | .integer n => if 0 ≤ n then some n.toNat else none
  | _ => none

/-- Whether a value is an empty array or an empty table. -/
def isEmpty : Value → Bool
  | .array vs => vs.isEmpty
  | .inline ms => ms.isEmpty
  | .table _ ms => ms.isEmpty
  | _ => false

/-- A format is its word, or a table with the word as its only key and nothing in it. -/
def format? : Value → Option Format
  | .string t => Format.ofWord? (String.ofList t)
  | .inline [(key, v)] => if isEmpty v then Format.ofWord? (String.ofList key) else none
  | .table _ [(key, v)] => if isEmpty v then Format.ofWord? (String.ofList key) else none
  | _ => none

def listing? (jobs : Nat) (v : Value) : Option ListingConfig := do
  let fs ← fields? v
  return {
    showTrivia := ← field? fs 0 "show_trivia" bool? false
    format := ← field? fs 1 "format" format? .text
    jobs := ← field? fs 2 "jobs" nat? jobs
    denyInvalid := ← field? fs 3 "deny_invalid" bool? false }

def calculation? (v : Value) : Option CalculationConfig := do
  return { uppercase := ← field? (← fields? v) 0 "uppercase" bool? false }

/-- The settings of a document; `jobs` is the default number of jobs. -/
def ofMembers? (jobs : Nat) (ms : Members) : Option Config := do
  let fs := Fields.named ms
  let missing := default jobs
  return {
    verbose := ← field? fs 0 "verbose" bool? missing.verbose
    listing := ← field? fs 1 "lex" (listing? jobs) missing.listing
    calculation := ← field? fs 2 "calc" calculation? missing.calculation }

/-- The settings of a file's text. No listing can be made with no job. -/
def ofText (jobs : Nat) (t : Text) : Except Failure Config :=
  match (document? t).bind (ofMembers? jobs) with
  | none => .error (.config "Failed to parse configuration")
  | some c =>
    if c.listing.jobs = 0 then .error (.config "lex.jobs must be at least 1") else .ok c

end LexCalc.Config
