import LexCalc.CommandLine.Options
import LexCalc.Listing.Command

/-!
From arguments to a command. Arguments are taken from left to right; the first one at fault, or
the first that asks for help or for the version, decides.
-/
namespace LexCalc.CommandLine

/-- Why no command is run. -/
inductive Stop where
  | usage
  | help
  | version (level : Level)
  deriving DecidableEq, Repr

/-- What one level has been given so far. -/
structure Given where
  options : List (Opt × Argument) := []
  /-- An option with a separate value, which counts from the next option or operand on. -/
  pending : Option (Opt × Argument) := none
  /-- The operands, last one first. -/
  operands : List Argument := []

namespace Given

def has (g : Given) (o : Opt) : Bool := g.options.any (·.1 = o)

def value? (g : Given) (o : Opt) : Option Argument := g.options.lookup o

/-- Takes an option, which no level takes twice. -/
def add (g : Given) (o : Opt) (value : Argument) : Except Stop Given :=
  if g.has o || !o.accepts value then .error .usage
  else .ok { g with options := (o, value) :: g.options }

/-- Takes the option that is pending. -/
def settle (g : Given) : Except Stop Given :=
  match g.pending with
  | some (o, value) => { g with pending := none }.add o value
  | none => .ok g

/-- Takes an option with a value that is attached to it, or with none. -/
def take (g : Given) (level : Level) (o : Opt) (value : Argument) : Except Stop Given := do
  let g ← g.settle
  match o with
  | .help => throw .help
  | .version => throw (.version level)
  | _ => g.add o value

/-- Takes an option whose value is an argument of its own. -/
def postpone (g : Given) (o : Opt) (value : Argument) : Except Stop Given := do
  return { ← g.settle with pending := some (o, value) }

def operand (g : Given) (level : Level) (value : Argument) : Except Stop Given := do
  let g ← g.settle
  if level.acceptsOperand g.operands.length value then
    return { g with operands := value :: g.operands }
  else throw .usage

def operandsOf (g : Given) (level : Level) (values : List Argument) : Except Stop Given :=
  values.foldlM (·.operand level ·) g

end Given

/-- An option that still lacks its value, after the options of a cluster. -/
abbrev Open := Option Opt

/-- Takes joined short options. An option with a value takes what is left of the cluster, without
a leading `=`, or the next argument. -/
def cluster (level : Level) (g : Given) : Argument → Except Stop (Given × Open)
  | [] => .ok (g, none)
  | b :: rest =>
    match level.short? b with
    | none => .error .usage
    | some o =>
      if o.takesValue then
        match rest with
        | [] => .ok (g, some o)
        | c :: value => do
          return (← g.take level o (if c = equals then value else c :: value), none)
      else do
        cluster level (← g.take level o []) rest

/-- Takes one long option. -/
def long (level : Level) (g : Given) (name : Argument) (value : Option Argument) :
    Except Stop (Given × Open) :=
  match level.long? name, value with
  | none, _ => .error .usage
  | some o, some value =>
    if o.takesValue then do return (← g.take level o value, none) else .error .usage
  | some o, none =>
    if o.takesValue then .ok (g, some o) else do return (← g.take level o [], none)

/-- Takes the arguments of a level. The root stops at the command: it gives back the command's
name and the arguments after it. -/
def scan (level : Level) (g : Given) (lacking : Open) :
    List Argument → Except Stop (Given × List Argument)
  | [] => if lacking.isSome then .error .usage else .ok (g, [])
  | a :: args =>
    match Word.ofArgument a, lacking with
    | .plain value, some o => do scan level (← g.postpone o value) none args
    | _, some _ => .error .usage
    | .plain value, none =>
      if level = .root then .ok (g, value :: args)
      else do scan level (← g.operand level value) none args
    | .escape, none =>
      if level = .root then .error .usage
      else do return (← g.operandsOf level args, [])
    | .long name value, none => do
      let (g, lacking) ← long level g name value
      scan level g lacking args
    | .shorts chars, none => do
      let (g, lacking) ← cluster level g chars
      scan level g lacking args

/-- What the environment says where the arguments are silent. -/
structure Environment where
  verbose : Option Argument := none
  config : Option Argument := none
  noColor : Option Argument := none

/-- A level consults the environment for each of the program's options that it was not given. -/
def Environment.check (e : Environment) (g : Given) : Except Stop Unit :=
  let valid (o : Opt) (value : Option Argument) (ok : Argument → Bool) : Bool :=
    g.has o || value.all ok
  if valid .verbose e.verbose (fun v => (bool? v).isSome) &&
      valid .config e.config (fun v => !v.isEmpty) &&
      valid .noColor e.noColor (fun v => (bool? v).isSome) then
    .ok ()
  else .error .usage

/-- The options about the whole program. -/
structure Globals where
  verbose : Bool := false
  config : Option Path := none
  noColor : Bool := false
  deriving DecidableEq, Repr

/-- An argument wins over the environment, and of two arguments the one after the command. -/
def Globals.ofGiven (e : Environment) (before after : Given) : Globals where
  verbose := before.has .verbose || after.has .verbose || e.verbose.bind bool? = some true
  config := ((after.value? .config).or (before.value? .config)).or e.config
  noColor := before.has .noColor || after.has .noColor || e.noColor.bind bool? = some true

inductive Command where
  | listing (request : Listing.Request)
  | calculation (c : Calculation) (uppercase : Bool)
  deriving DecidableEq, Repr

/-- The command of a level that has been given all its options and operands. -/
def Command.ofGiven (level : Level) (g : Given) : Option Command :=
  match level, g.operands.reverse with
  | .root, _ => none
  | .listing, paths =>
    if paths.isEmpty then none
    else
      some (.listing {
        paths
        showTrivia := g.has .trivia
        format := (g.value? .format).bind format?
        jobs := (g.value? .jobs).bind jobs?
        denyInvalid := g.has .denyInvalid })
  | .calculation, [operation, lhs, rhs] => do
    return .calculation ⟨← operation? operation, ← Text.ofUtf8? lhs, ← Text.ofUtf8? rhs⟩
      (g.has .uppercase)
  | .calculation, _ => none

/-- Takes the arguments after a command. -/
def commandOf (e : Environment) (level : Level) (args : List Argument) :
    Except Stop (Given × Command) := do
  let (g, _) ← scan level {} none args
  let g ← g.settle
  e.check g
  match Command.ofGiven level g with
  | some command => return (g, command)
  | none => throw .usage

/-- Help on a command is asked for by its name. -/
def helpOn : List Argument → Stop
  | [] => .help
  | [name] =>
    if [bytes "lex", bytes "calc", bytes "help"].contains name then .help else .usage
  | _ => .usage

/-- The command of an argument list. What the options before a command leave pending is taken only
after the command's own arguments. -/
def parse (e : Environment) (args : List Argument) : Except Stop (Globals × Command) := do
  match ← scan .root {} none args with
  | (_, []) => throw .usage
  | (before, name :: args) =>
    let level ←
      if name = bytes "lex" then pure Level.listing
      else if name = bytes "calc" then pure Level.calculation
      else if name = bytes "help" then throw (helpOn args)
      else throw .usage
    let (after, command) ← commandOf e level args
    let before ← before.settle
    e.check before
    return (Globals.ofGiven e before after, command)

end LexCalc.CommandLine
