/-!
Lines of the log, as data: a computation returns the lines that it writes, in their order.
-/
namespace LexCalc.Log

inductive Level where
  | debug
  | info
  | warn
  deriving DecidableEq, Repr

def Level.name : Level → String
  | debug => "DEBUG"
  | info => "INFO"
  | warn => "WARN"

structure Line where
  level : Level
  message : String
  /-- Whether the time that has passed belongs to the message. -/
  timed : Bool := false
  deriving DecidableEq, Repr

def Line.debug (message : String) : Line := { level := .debug, message }

def Line.info (message : String) : Line := { level := .info, message }

def Line.warn (message : String) : Line := { level := .warn, message }

/-- How a character of a message is shown. Controls that could command a terminal are named: a few
ASCII ones by two digits, and all those from U+0080 to U+009F. -/
def escape (c : Char) : List Char :=
  if ['\x07', '\x08', '\x0c', '\x1b', '\x7f'].contains c then
    ['\\', 'x', Nat.digitChar (c.toNat / 16), Nat.digitChar (c.toNat % 16)]
  else if 0x80 ≤ c.toNat ∧ c.toNat ≤ 0x9f then
    ['\\', 'u', '{'] ++ Nat.toDigits 16 c.toNat ++ ['}']
  else [c]

def shown (message : String) : String := String.ofList (message.toList.flatMap escape)

/-- The line as it is shown after some seconds. -/
def Line.render (seconds : String) (l : Line) : String :=
  l.level.name ++ " " ++ shown l.message ++ if l.timed then " in " ++ seconds ++ "s" else ""

end LexCalc.Log
