import LexCalc.Files

/-!
A tree of named files and directories, and what the paths of a program that runs inside it lead to.
-/
namespace LexCalc

/-- The names on the way from the root to a node. -/
abbrev Names := List (List UInt8)

/-- Nodes by their names. The directories on the way to a node are there too. -/
structure FileTree where
  nodes : List (Names × Entry)

namespace FileTree

def slash : UInt8 := 0x2f

/-- The parts of a path between slashes, empty parts included. -/
def parts (path : Path) : Names :=
  path.foldr
    (fun b ps => if b = slash then [] :: ps else ((b :: ps.headD []) :: ps.tail))
    [[]]

/-- What stands at the end of names; of two nodes with the same names the later one. -/
def node (t : FileTree) (names : Names) : Entry :=
  match t.nodes.reverse.lookup names with
  | some entry => entry
  | none => if t.nodes.any fun n => names.isPrefixOf n.1 then .directory else .missing

/-- Goes on from a directory, part by part. Only a directory has anything below it; a path that
ends in a slash ends in a directory. -/
def walk (t : FileTree) (here : Names) : Names → Entry
  | [] => .directory
  | part :: rest =>
    if part = [] ∨ part = [0x2e] then walk t here rest
    else if part = [0x2e, 0x2e] then walk t here.dropLast rest
    else
      match t.node (here ++ [part]) with
      | .directory => walk t (here ++ [part]) rest
      | entry => if rest = [] then entry else .missing

/-- What a path leads to from the directory `work`. The empty path leads nowhere. -/
def look (t : FileTree) (work : Names) (path : Path) : Entry :=
  if path = [] then .missing
  else walk t (if path.head? = some slash then [] else work) (parts path)

end FileTree

end LexCalc
