import LexCalc.Toml.Scalars

/-!
Reading TOML documents. All faults of a document are one: there is no document then.
-/
namespace LexCalc.Toml

/-- Values are nested in fewer levels than this, and keys have fewer parts. -/
def nestingLimit : Nat := 80

/-- Blanks, newlines and comments inside an array. -/
def skipLayout (t : Text) : Text :=
  match t with
  | ' ' :: t => skipLayout t
  | '\t' :: t => skipLayout t
  | '\n' :: t => skipLayout t
  | '\r' :: '\n' :: t => skipLayout t
  | '#' :: t =>
    have _ := (List.dropWhile_sublist isCommentChar (l := t)).length_le
    skipLayout (t.dropWhile isCommentChar)
  | t => t
termination_by t.length

/-- The items of an array up to its bracket, after those in `read`; `item` reads one. A comma may
follow the last one. -/
def arrayItems (item : Text → Option (Value × Text)) (read : List Value) (t : Text) :
    Option (List Value × Text) :=
  match skipLayout t with
  | ']' :: rest => some (read.reverse, rest)
  | t' =>
    match item t' with
    | none => none
    | some (v, rest) =>
      match skipLayout rest with
      | ']' :: rest => some ((v :: read).reverse, rest)
      | ',' :: rest =>
        if rest.length < t.length then arrayItems item (v :: read) rest else none
      | _ => none
termination_by t.length

/-- A key and its value, the value read by `item`. -/
def keyValue? (item : Text → Option (Value × Text)) (t : Text) :
    Option ((List Text × Text × Value) × Text) := do
  let (path, key, t) ← key? (nestingLimit - 1) t
  let (v, t) ← item (skipBlanks (← char? '=' t))
  return ((path, key, v), t)

/-- The members of a table in braces up to its brace, after those in `ms`. All are on one line and
no comma follows the last one. -/
def inlineMembers (item : Text → Option (Value × Text)) (ms : Members) (t : Text) :
    Option (Members × Text) :=
  match keyValue? item t with
  | none => none
  | some ((path, key, v), rest) =>
    match ms.define path key v, skipBlanks rest with
    | some ms, '}' :: rest => some (ms, rest)
    | some ms, ',' :: rest =>
      if rest.length < t.length then inlineMembers item ms rest else none
    | _, _ => none
termination_by t.length

/-- A value inside which values are nested in at most `depth` levels. -/
def value? (depth : Nat) (t : Text) : Option (Value × Text) :=
  match depth, t with
  | depth + 1, '[' :: t => (arrayItems (value? depth) [] t).map fun (vs, rest) => (.array vs, rest)
  | depth + 1, '{' :: t =>
    match skipBlanks t with
    | '}' :: rest => some (.inline [], rest)
    | t => (inlineMembers (value? depth) [] t).map fun (ms, rest) => (.inline ms, rest)
  | _, t => scalar? t

/-- What a line of a document belongs to: the tables so far and the path of the last header. -/
structure Draft where
  members : Members := []
  header : List Text := []

namespace Draft

/-- The rest of a line with a header, after its brackets. -/
def headerLine? (d : Draft) (t : Text) : Option (Draft × Text) := do
  match t with
  | '[' :: t =>
    let (path, key, t) ← key? (nestingLimit - 1) t
    let rest ← lineEnd? (← char? ']' (← char? ']' t))
    return ({ members := ← d.members.openElement path key, header := path ++ [key] }, rest)
  | t =>
    let (path, key, t) ← key? (nestingLimit - 1) t
    let rest ← lineEnd? (← char? ']' t)
    return ({ members := ← d.members.openTable path key, header := path ++ [key] }, rest)

/-- One line of a document: a header, a key with its value, or neither. -/
def line? (d : Draft) (t : Text) : Option (Draft × Text) :=
  match skipBlanks t with
  | '[' :: t => d.headerLine? t
  | t' =>
    match lineEnd? t' with
    | some rest => some (d, rest)
    | none => do
      let ((path, key, v), t) ← keyValue? (value? (nestingLimit - 1)) t'
      let rest ← lineEnd? t
      return ({ d with members := ← d.members.defineUnder d.header path key v }, rest)

/-- All lines of a text. -/
def lines? (d : Draft) (t : Text) : Option Draft :=
  match t with
  | [] => some d
  | t =>
    match d.line? t with
    | some (d, rest) => if rest.length < t.length then lines? d rest else none
    | none => none
termination_by t.length

end Draft

/-- The tables of a document. A byte order mark in front is passed over. -/
def document? (t : Text) : Option Members :=
  let body := match t with
    | '\uFEFF' :: t => t
    | t => t
  ((Draft.lines? {} body).map Draft.members)

end LexCalc.Toml
