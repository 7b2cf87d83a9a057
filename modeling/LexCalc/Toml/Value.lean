import LexCalc.Text.Binary64

/-!
TOML values and the rules by which a document builds its tables.
-/
namespace LexCalc.Toml

def largestInteger : Nat := 0x7fffffffffffffff

/-- How a table came to be: it has a header of its own, it is implied by the header of a table
inside it, or by a dotted key. -/
inductive Origin where
  | header
  | implied
  | dotted
  deriving DecidableEq, Repr

inductive Value where
  | string (t : Text)
  | integer (n : Int)
  | float (d : Decimal)
  | boolean (b : Bool)
  /-- A date, a time or both, as written. -/
  | dateTime (t : Text)
  | array (items : List Value)
  /-- A table in braces, which nothing outside can extend. -/
  | inline (members : List (Text × Value))
  | table (origin : Origin) (members : List (Text × Value))
  /-- The tables of one array header; the last of them can still be extended. -/
  | tables (earlier : List (List (Text × Value))) (last : List (Text × Value))
  deriving Repr

abbrev Members := List (Text × Value)

namespace Members

def get? (ms : Members) (key : Text) : Option Value := ms.lookup key

/-- Puts a value in the place of the one that the key has. -/
def replace (ms : Members) (key : Text) (v : Value) : Members :=
  ms.map fun m => if m.1 = key then (key, v) else m

def push (ms : Members) (key : Text) (v : Value) : Members := ms ++ [(key, v)]

/-- Changes the table at the end of a path, forming tables that are not there yet. A path leads
through the last table of an array header and through no other value; a dotted one does not lead
into a table with a header. -/
def descend (viaDots : Bool) (change : Origin → Members → Option Members) :
    List Text → Origin → Members → Option Members
  | [], origin, ms => change origin ms
  | key :: path, _, ms =>
    match ms.get? key with
    | none =>
      let origin := if viaDots then .dotted else .implied
      (descend viaDots change path origin []).map fun inner => ms.push key (.table origin inner)
    | some (.table origin inner) =>
      if viaDots && origin = .header then none
      else
        (descend viaDots change path origin inner).map fun inner =>
          ms.replace key (.table origin inner)
    | some (.tables earlier last) =>
      (descend viaDots change path .header last).map fun last =>
        ms.replace key (.tables earlier last)
    | some _ => none

/-- Adds the value of a key. A dotted key must end in a table that dotted keys made, a plain one
must not, and no key is given twice. -/
def define (path : List Text) (key : Text) (v : Value) : Members → Option Members :=
  descend true
    (fun origin ms =>
      if (origin = .dotted) = (path = []) then none
      else if (ms.get? key).isSome then none
      else some (ms.push key v))
    path .header

/-- Opens a table by its header. Only a table that was implied so far may be there already. -/
def openTable (path : List Text) (key : Text) : Members → Option Members :=
  descend false
    (fun _ ms =>
      match ms.get? key with
      | none => some (ms.push key (.table .header []))
      | some (.table .implied inner) => some (ms.replace key (.table .header inner))
      | some _ => none)
    path .header

/-- Opens one more table of an array header. -/
def openElement (path : List Text) (key : Text) : Members → Option Members :=
  descend false
    (fun _ ms =>
      match ms.get? key with
      | none => some (ms.push key (.tables [] []))
      | some (.tables earlier last) => some (ms.replace key (.tables (earlier ++ [last]) []))
      | some _ => none)
    path .header

/-- Adds the value of a key below a header. -/
def defineUnder (header : List Text) (path : List Text) (key : Text) (v : Value) :
    Members → Option Members :=
  descend false (fun _ ms => define path key v ms) header .header

end Members

end LexCalc.Toml
