import LexCalc.Calculation
import LexCalc.Files

/-!
The words of a command line: options by their names, the values they accept, and the operands of
each command.
-/
namespace LexCalc.CommandLine

/-- A raw argument; it need not be UTF-8. -/
abbrev Argument := List UInt8

def bytes (s : String) : Argument := s.toUTF8.toList

inductive Opt where
  | help
  | version
  | verbose
  | config
  | noColor
  | trivia
  | format
  | jobs
  | denyInvalid
  | uppercase
  deriving DecidableEq, Repr

namespace Opt

def takesValue : Opt → Bool
  | config | format | jobs => true
  | _ => false

def long : Opt → String
  | help => "help"
  | version => "version"
  | verbose => "verbose"
  | config => "config"
  | noColor => "no-color"
  | trivia => "trivia"
  | format => "format"
  | jobs => "jobs"
  | denyInvalid => "deny-invalid"
  | uppercase => "uppercase"

def short? : Opt → Option Char
  | help => some 'h'
  | version => some 'V'
  | verbose => some 'v'
  | config => some 'c'
  | trivia => some 't'
  | format => some 'F'
  | jobs => some 'j'
  | uppercase => some 'u'
  | noColor | denyInvalid => none

end Opt

/-- Where options stand: before a command, or after it. -/
inductive Level where
  | root
  | listing
  | calculation
  deriving DecidableEq, Repr

namespace Level

/-- The options of a level that it has beside those about the whole program. -/
def ownOptions : Level → List Opt
  | root => []
  | listing => [.trivia, .format, .jobs, .denyInvalid]
  | calculation => [.uppercase]

/-- The options of a level. Those about the whole program may stand before and after a command. -/
def options (l : Level) : List Opt :=
  [.help, .version, .verbose, .config, .noColor] ++ l.ownOptions

/-- Long names are exact. -/
def long? (l : Level) (name : Argument) : Option Opt :=
  l.options.find? fun o => bytes o.long = name

def short? (l : Level) (b : UInt8) : Option Opt :=
  l.options.find? fun o => o.short?.any fun c => c.toNat = b.toNat

/-- The name by which the program calls itself at this level. -/
def programName : Level → String
  | root => "kst"
  | listing => "kst-lex"
  | calculation => "kst-calc"

end Level

/-- A number of jobs: from one to what sixteen bits hold. -/
def jobs? (value : Argument) : Option Nat := do
  let n ← Decimal.int? (← Text.ofUtf8? value)
  if 1 ≤ n ∧ n < 0x10000 then some n.toNat else none

def format? (value : Argument) : Option Format := do
  Format.ofWord? (String.ofList (← Text.ofUtf8? value))

def operation? (value : Argument) : Option Calculation.Operation := do
  Calculation.Operation.ofWord? (String.ofList (← Text.ofUtf8? value))

/-- Truth values of environment variables. -/
def bool? (value : Argument) : Option Bool :=
  if value = bytes "true" then some true
  else if value = bytes "false" then some false
  else none

/-- Whether an option accepts its value. A path is not empty. -/
def Opt.accepts : Opt → Argument → Bool
  | config, value => !value.isEmpty
  | format, value => (format? value).isSome
  | jobs, value => (jobs? value).isSome
  | _, _ => true

/-- Whether a level accepts an operand after `n` others. -/
def Level.acceptsOperand : Level → Nat → Argument → Bool
  | root, _, _ => false
  | listing, _, value => !value.isEmpty
  | calculation, 0, value => (operation? value).isSome
  | calculation, n + 1, value => n < 2 && (Text.ofUtf8? value).isSome

/-- How an argument reads by itself. -/
inductive Word where
  /-- Two dashes: all that follows are operands. -/
  | escape
  | long (name : Argument) (value : Option Argument)
  | shorts (cluster : Argument)
  | plain (value : Argument)

def dash : UInt8 := 0x2d

def equals : UInt8 := 0x3d

def Word.ofArgument (a : Argument) : Word :=
  match a with
  | [] => .plain []
  | [b] => .plain [b]
  | b :: c :: rest =>
    if b ≠ dash then .plain a
    else if c ≠ dash then .shorts (c :: rest)
    else if rest = [] then .escape
    else
      match rest.dropWhile (· ≠ equals) with
      | [] => .long rest none
      | _ :: value => .long (rest.takeWhile (· ≠ equals)) (some value)

end LexCalc.CommandLine
