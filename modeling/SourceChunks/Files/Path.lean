/-!
# Paths

A path is a root and the names on the way from it.  Empty names and single dots do
not count, so two spellings of a path that differ only in them are one path; double
dots stay.  The path without root and names is written as a dot.
-/

namespace SourceChunks

/-- A path of a file system. -/
structure Path where
  /-- The slashes in front: none, one, or exactly two. -/
  root : String
  /-- The names on the way. -/
  names : List String
  deriving Repr, DecidableEq

namespace Path

/-- The stretches between slashes; `name` holds the characters of the current one so
far, the latest first. -/
def splitFrom (name : List Char) : List Char → List (List Char)
  | [] => [name.reverse]
  | c :: rest =>
      if c = '/' then name.reverse :: splitFrom [] rest else splitFrom (c :: name) rest

/-- The slashes in front of a text that count. -/
def rootOf (s : List Char) : String :=
  match (s.takeWhile (· == '/')).length with
  | 0 => ""
  | 2 => "//"
  | _ => "/"

/-- The path that a text spells. -/
def ofText (s : String) : Path where
  root := rootOf s.toList
  names := ((splitFrom [] s.toList).map String.ofList).filter fun name => name != "" && name != "."

/-- The text of a path. -/
def text (p : Path) : String :=
  if p.root.isEmpty && p.names.isEmpty then "." else p.root ++ "/".intercalate p.names

/-- Whether a path begins at the root. -/
def isAbsolute (p : Path) : Bool :=
  !p.root.isEmpty

/-- The last name of a path, or the empty one. -/
def name (p : Path) : String :=
  p.names.getLast?.getD ""

/-- The path without its last name. -/
def parent (p : Path) : Path :=
  { p with names := p.names.dropLast }

/-- The path of a name in a directory. -/
def child (p : Path) (name : String) : Path :=
  { p with names := p.names ++ [name] }

/-- A path seen from a directory; a path from the root is not changed. -/
def join (p q : Path) : Path :=
  if q.isAbsolute then q else { p with names := p.names ++ q.names }

/-- A path without the double dots that can be taken back, each together with the name
in front of it; those at the beginning stay. -/
def resolved (p : Path) : Path :=
  { p with
    names := (p.names.foldl
      (fun taken name =>
        match taken with
        | last :: rest => if name == ".." && last != ".." then rest else name :: taken
        | [] => [name])
      []).reverse }

/-- Whether a path leads out of the directory from which it is followed. -/
def leadsOutside (p : Path) : Bool :=
  p.isAbsolute || p.resolved.names.head? = some ".."

/-- The last dot of a name and what follows it; empty if the dot is the first or the
last character of the name. -/
def suffixOf (name : List Char) : List Char :=
  let ending := (name.reverse.takeWhile (· != '.')).reverse
  let start := name.length - ending.length
  if ending.isEmpty || start ≤ 1 then [] else '.' :: ending

/-- The suffix of the last name of a path. -/
def suffix (p : Path) : String :=
  String.ofList (suffixOf p.name.toList)

end Path

end SourceChunks
