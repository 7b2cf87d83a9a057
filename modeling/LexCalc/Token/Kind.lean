/-!
Kinds of tokens, and the spellings that have a kind of their own.
-/
namespace LexCalc

inductive Kind where
  | ampersand
  | ampersandEquals
  | asterisk
  | asteriskEquals
  | boolLiteral
  | bracketClose
  | bracketOpen
  | catchWord
  | classWord
  | comma
  | constWord
  | curlyClose
  | curlyOpen
  | deleteWord
  | doWord
  | doubleAmpersand
  | doublePipe
  | elseWord
  | eof
  | equals
  | equalsEquals
  | exclamationMark
  | exclamationMarkEquals
  | finallyWord
  | functionWord
  | greaterThan
  | identifier
  | ifWord
  | interfaceWord
  | invalid
  | lessThan
  | letWord
  | minus
  | minusEquals
  | minusMinus
  | newWord
  | nullLiteral
  | numericLiteral
  | parenClose
  | parenOpen
  | percent
  | percentEquals
  | period
  | pipe
  | pipeEquals
  | plus
  | plusEquals
  | plusPlus
  | questionMark
  | returnWord
  | semicolon
  | shiftLeft
  | shiftRight
  | slash
  | slashEquals
  | stringLiteral
  | tryWord
  | unterminatedComment
  | unterminatedStringLiteral
  | varWord
  | whileWord
  deriving DecidableEq, Repr

namespace Kind

/-- The kinds in the order of their names. -/
def all : List Kind :=
  [.ampersand, .ampersandEquals, .asterisk, .asteriskEquals, .boolLiteral, .bracketClose,
   .bracketOpen, .catchWord, .classWord, .comma, .constWord, .curlyClose, .curlyOpen,
   .deleteWord, .doWord, .doubleAmpersand, .doublePipe, .elseWord, .eof, .equals, .equalsEquals,
   .exclamationMark, .exclamationMarkEquals, .finallyWord, .functionWord, .greaterThan,
   .identifier, .ifWord, .interfaceWord, .invalid, .lessThan, .letWord, .minus, .minusEquals,
   .minusMinus, .newWord, .nullLiteral, .numericLiteral, .parenClose, .parenOpen, .percent,
   .percentEquals, .period, .pipe, .pipeEquals, .plus, .plusEquals, .plusPlus, .questionMark,
   .returnWord, .semicolon, .shiftLeft, .shiftRight, .slash, .slashEquals, .stringLiteral,
   .tryWord, .unterminatedComment, .unterminatedStringLiteral, .varWord, .whileWord]

def name : Kind → String
  | ampersand => "Ampersand"
  | ampersandEquals => "AmpersandEquals"
  | asterisk => "Asterisk"
  | asteriskEquals => "AsteriskEquals"
  | boolLiteral => "BoolLiteral"
  | bracketClose => "BracketClose"
  | bracketOpen => "BracketOpen"
  | catchWord => "Catch"
  | classWord => "Class"
  | comma => "Comma"
  | constWord => "Const"
  | curlyClose => "CurlyClose"
  | curlyOpen => "CurlyOpen"
  | deleteWord => "Delete"
  | doWord => "Do"
  | doubleAmpersand => "DoubleAmpersand"
  | doublePipe => "DoublePipe"
  | elseWord => "Else"
  | eof => "Eof"
  | equals => "Equals"
  | equalsEquals => "EqualsEquals"
  | exclamationMark => "ExclamationMark"
  | exclamationMarkEquals => "ExclamationMarkEquals"
  | finallyWord => "Finally"
  | functionWord => "Function"
  | greaterThan => "GreaterThan"
  | identifier => "Identifier"
  | ifWord => "If"
  | interfaceWord => "Interface"
  | invalid => "Invalid"
  | lessThan => "LessThan"
  | letWord => "Let"
  | minus => "Minus"
  | minusEquals => "MinusEquals"
  | minusMinus => "MinusMinus"
  | newWord => "New"
  | nullLiteral => "NullLiteral"
  | numericLiteral => "NumericLiteral"
  | parenClose => "ParenClose"
  | parenOpen => "ParenOpen"
  | percent => "Percent"
  | percentEquals => "PercentEquals"
  | period => "Period"
  | pipe => "Pipe"
  | pipeEquals => "PipeEquals"
  | plus => "Plus"
  | plusEquals => "PlusEquals"
  | plusPlus => "PlusPlus"
  | questionMark => "QuestionMark"
  | returnWord => "Return"
  | semicolon => "Semicolon"
  | shiftLeft => "ShiftLeft"
  | shiftRight => "ShiftRight"
  | slash => "Slash"
  | slashEquals => "SlashEquals"
  | stringLiteral => "StringLiteral"
  | tryWord => "Try"
  | unterminatedComment => "UnterminatedComment"
  | unterminatedStringLiteral => "UnterminatedStringLiteral"
  | varWord => "Var"
  | whileWord => "While"

def ofName? (name : String) : Option Kind := all.find? (·.name == name)

/-- The kinds of malformed tokens. -/
def isError : Kind → Bool
  | invalid | unterminatedComment | unterminatedStringLiteral => true
  | _ => false

/-- The reserved words. -/
def words : List (List Char × Kind) :=
  [(['t', 'r', 'u', 'e'], boolLiteral),
   (['f', 'a', 'l', 's', 'e'], boolLiteral),
   (['c', 'a', 't', 'c', 'h'], catchWord),
   (['c', 'l', 'a', 's', 's'], classWord),
   (['c', 'o', 'n', 's', 't'], constWord),
   (['d', 'e', 'l', 'e', 't', 'e'], deleteWord),
   (['d', 'o'], doWord),
   (['e', 'l', 's', 'e'], elseWord),
   (['f', 'i', 'n', 'a', 'l', 'l', 'y'], finallyWord),
   (['f', 'u', 'n', 'c', 't', 'i', 'o', 'n'], functionWord),
   (['i', 'f'], ifWord),
   (['i', 'n', 't', 'e', 'r', 'f', 'a', 'c', 'e'], interfaceWord),
   (['l', 'e', 't'], letWord),
   (['n', 'e', 'w'], newWord),
   (['n', 'u', 'l', 'l'], nullLiteral),
   (['r', 'e', 't', 'u', 'r', 'n'], returnWord),
   (['t', 'r', 'y'], tryWord),
   (['v', 'a', 'r'], varWord),
   (['w', 'h', 'i', 'l', 'e'], whileWord)]

/-- The operators of two characters. -/
def pairs : List ((Char × Char) × Kind) :=
  [(('+', '='), plusEquals),
   (('-', '='), minusEquals),
   (('*', '='), asteriskEquals),
   (('/', '='), slashEquals),
   (('%', '='), percentEquals),
   (('&', '='), ampersandEquals),
   (('|', '='), pipeEquals),
   (('&', '&'), doubleAmpersand),
   (('|', '|'), doublePipe),
   (('=', '='), equalsEquals),
   (('!', '='), exclamationMarkEquals),
   (('-', '-'), minusMinus),
   (('+', '+'), plusPlus),
   (('<', '<'), shiftLeft),
   (('>', '>'), shiftRight)]

/-- The operators of one character. -/
def singles : List (Char × Kind) :=
  [('&', ampersand),
   ('*', asterisk),
   ('[', bracketOpen),
   (']', bracketClose),
   (',', comma),
   ('{', curlyOpen),
   ('}', curlyClose),
   ('=', equals),
   ('!', exclamationMark),
   ('-', minus),
   ('(', parenOpen),
   (')', parenClose),
   ('%', percent),
   ('.', period),
   ('|', pipe),
   ('+', plus),
   ('?', questionMark),
   (';', semicolon),
   ('/', slash),
   ('<', lessThan),
   ('>', greaterThan)]

def ofWord? (word : List Char) : Option Kind := words.lookup word

def ofPair? (c d : Char) : Option Kind := pairs.lookup (c, d)

def ofSingle? (c : Char) : Option Kind := singles.lookup c

end Kind

end LexCalc
