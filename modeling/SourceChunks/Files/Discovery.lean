import SourceChunks.Chunk.Stream
import SourceChunks.Files.Glob
import SourceChunks.Files.Tree
import SourceChunks.Text.Blank
import SourceChunks.Text.Lowercase
import SourceChunks.Text.Order

/-!
# Finding and reading source files

Source files are told by their suffix.  A directory is searched with everything below
it, except for what has an ignored name; a directory that is given is searched whatever
its own name is.  The files of a directory come before those of its subdirectories,
and both are sorted by name, so the order in which a directory is listed does not
matter.  A file that cannot be decoded is passed over.
-/

namespace SourceChunks

/-- Which files are source files, and how they are read. -/
structure Selection where
  /-- The suffixes of source files, in lower case and without repetition. -/
  suffixes : List String
  /-- The patterns of ignored names, without repetition. -/
  ignored : List String
  /-- How the files are encoded. -/
  encoding : Encoding := .utf8
  deriving Repr, DecidableEq

/-- A file that was found: where the search began, and the names on the way from there
to the file, of which there is at least one. -/
structure Found where
  root : Path
  names : List String
  deriving Repr, DecidableEq

namespace Found

/-- The path of the file. -/
def file (found : Found) : Path :=
  { found.root with names := found.root.names ++ found.names }

/-- The name under which the chunks of the file are known: its path seen from where the
search began. -/
def identifier (found : Found) : String :=
  (Path.mk "" found.names).text

end Found

/-- Why source files cannot be searched for. -/
inductive DiscoveryFailure where
  /-- One of the paths leads nowhere. -/
  | missing (path : Path)
  /-- One of the paths cannot be looked up. -/
  | refused (failure : AccessFailure)
  deriving Repr, DecidableEq

/-- The wording of a failure. -/
def DiscoveryFailure.message : DiscoveryFailure → String
  | missing path => "Source path not found: " ++ path.text
  | refused failure => failure.message

namespace Selection

/-- The suffixes that hold unless others are given. -/
def standardSuffixes : List String := [".bal"]

/-- The patterns that are always ignored. -/
def standardIgnored : List String :=
  [".*", ".git", ".hg", ".svn", ".idea", ".vscode", ".DS_Store", "__pycache__", ".venv", "venv",
   "node_modules", "target", "build*", "dist", "tmp"]

/-- The selection of files with one of the suffixes, in any case, where further patterns
are ignored.  Patterns that are blank do not count, nor does the white space around
the others. -/
def ofLists (suffixes ignored : List String) (encoding : Encoding := .utf8) : Selection where
  suffixes := ((if suffixes.isEmpty then standardSuffixes else suffixes).map Text.lower).eraseDups
  ignored :=
    (standardIgnored ++
      (ignored.map fun s => String.ofList (Text.trim s.toList)).filter (· != "")).eraseDups
  encoding := encoding

/-- Whether a name is ignored. -/
def ignores (s : Selection) (name : String) : Bool :=
  s.ignored.any (Glob.fits · name)

/-- Whether a file with a name is a source file. -/
def accepts (s : Selection) (name : String) : Bool :=
  s.suffixes.contains (Text.lower (String.ofList (Path.suffixOf name.toList))) && !s.ignores name

/-- The names of the source files among some entries, sorted. -/
def sourceNames (s : Selection) (entries : List (String × Entry)) : List String :=
  Text.sorted ((entries.filter fun (name, entry) => !entry.isDirectory && s.accepts name).map (·.1))

mutual

/-- The source files in a directory and below it, each with the names that lead to it.  A
directory is listed under the text of the path that led to it; if that path cannot be followed,
as it is too long, the directory counts as empty. -/
def below (s : Selection) (text : String) : Entry → List (List String)
  | .file _ => []
  | .directory entries =>
      if (Entry.textFault? text).isSome then []
      else
        (s.sourceNames entries).map ([·]) ++
          (Text.sortedByName (s.belowEach text entries)).flatMap fun (name, found) =>
            found.map (name :: ·)

/-- The source files below each directory among some entries that is not ignored, in
the order of the entries. -/
def belowEach (s : Selection) (text : String) :
    List (String × Entry) → List (String × List (List String))
  | [] => []
  | (name, entry) :: rest =>
      if entry.isDirectory && !s.ignores name then
        (name, s.below (text ++ "/" ++ name) entry) :: s.belowEach text rest
      else s.belowEach text rest

end

/-- The source files at one path: those below a directory, or a file itself. -/
def discoverAt (s : Selection) (path : Path) (entry : Entry) : List Found :=
  match entry with
  | .directory _ => (s.below path.text entry).map fun names => ⟨path, names⟩
  | .file _ => if s.accepts path.name then [⟨path.parent, [path.name]⟩] else []

/-- The source files at some paths, of which the first that leads nowhere is an error.
A file that is found twice from the same place counts once. -/
def discover (s : Selection) (tree : Entry) (paths : List Path) :
    Except DiscoveryFailure (List Found) := do
  let found ← paths.mapM fun path =>
    match tree.probe path with
    | .ok (some entry) => .ok (s.discoverAt path entry)
    | .ok none => .error (.missing path)
    | .error failure => .error (.refused failure)
  pure found.flatten.eraseDups

/-- The text of a file; none if it cannot be read or decoded. -/
def readText? (s : Selection) (tree : Entry) (path : Path) : Option String :=
  match tree.read path with
  | .ok bytes => s.encoding.readText? bytes
  | .error _ => none

/-- A file that was found with its text. -/
def read? (s : Selection) (tree : Entry) (found : Found) : Option SourceFile :=
  (s.readText? tree found.file).map fun text => ⟨found.identifier, text⟩

/-- The source files at some paths with their texts. -/
def load (s : Selection) (tree : Entry) (paths : List Path) :
    Except DiscoveryFailure (List SourceFile) := do
  let found ← s.discover tree paths
  pure (found.filterMap (s.read? tree))

end Selection

end SourceChunks
