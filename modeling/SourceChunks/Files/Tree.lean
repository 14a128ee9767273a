import SourceChunks.Files.Path
import SourceChunks.Text.Encoding
import SourceChunks.Text.Quoted

/-!
# File trees

What lies below a working directory: files with their bytes, and directories with
their entries in the order in which they are listed.  A path is followed name by name
from the working directory.  Of what lies outside the tree, only the root and the
directories above the tree are known, and nothing in them; what is put there is not
seen.
-/

namespace SourceChunks

/-- A file or directory. -/
inductive Entry where
  /-- A file with its bytes. -/
  | file (bytes : ByteArray)
  /-- A directory with its entries as they are listed; their names are distinct. -/
  | directory (entries : List (String × Entry))
  deriving Inhabited

/-- Why a path cannot be used. -/
inductive AccessFault where
  /-- There is nothing at the path. -/
  | absent
  /-- There is something at the path already. -/
  | taken
  /-- Something on the way is not a directory. -/
  | notADirectory
  /-- There is a directory at the path. -/
  | isADirectory
  /-- The path, or a name on the way, is longer than can be looked up. -/
  | tooLong
  /-- The path holds the null character, which ends a path. -/
  | nullCharacter
  deriving Repr, DecidableEq

/-- A path that cannot be used. -/
structure AccessFailure where
  /-- What is wrong. -/
  fault : AccessFault
  /-- The path. -/
  path : Path
  deriving Repr, DecidableEq

/-- The number and wording of a fault. -/
def AccessFault.wording : AccessFault → String
  | absent => "[Errno 2] No such file or directory"
  | taken => "[Errno 17] File exists"
  | notADirectory => "[Errno 20] Not a directory"
  | isADirectory => "[Errno 21] Is a directory"
  | tooLong => "[Errno 36] File name too long"
  | nullCharacter => "embedded null byte"

/-- The wording of a failure; a path with the null character is not shown. -/
def AccessFailure.message (failure : AccessFailure) : String :=
  match failure.fault with
  | .nullCharacter => failure.fault.wording
  | fault => fault.wording ++ ": " ++ Text.quoted failure.path.text

namespace Entry

/-- Whether an entry is a directory. -/
def isDirectory : Entry → Bool
  | directory _ => true
  | file _ => false

/-- The entries of a directory; a file has none. -/
def entries : Entry → List (String × Entry)
  | directory entries => entries
  | file _ => []

/-- The entry with a name. -/
def lookup (name : String) (entries : List (String × Entry)) : Option Entry :=
  (entries.find? (·.1 == name)).map (·.2)

/-- The entries with one put in: it takes the place of an entry of the same name, or
goes to the end. -/
def putEntry (name : String) (entry : Entry) : List (String × Entry) → List (String × Entry)
  | [] => [(name, entry)]
  | (n, e) :: rest => if n == name then (n, entry) :: rest else (n, e) :: putEntry name entry rest

/-! ## Following a path -/

/-- The largest number of bytes of a name. -/
def nameLimit : Nat := 255

/-- The largest number of bytes of a path. -/
def pathLimit : Nat := 4095

/-- Whether a name has more bytes than a name can have. -/
def isTooLong (name : String) : Bool :=
  name.utf8ByteSize > nameLimit

/-- Why no path with some text can be followed at all. -/
def textFault? (text : String) : Option AccessFault :=
  if text.contains (Char.ofNat 0) then some .nullCharacter
  else if text.utf8ByteSize > pathLimit then some .tooLong
  else none

/-- Where some names lead from outside the tree. -/
def locateOutside : List String → Except AccessFault (List String × Entry)
  | [] => .ok ([".."], directory [])
  | name :: rest =>
      if name == ".." then locateOutside rest
      else if isTooLong name then .error .tooLong
      else .error .absent

/-- The names that lead to where a path leads, without double dots.  `above` holds the
directories on the way to `here` with the names of what was taken in them, the nearest
one first. -/
def locateFrom (above : List (String × Entry)) (here : Entry) :
    List String → Except AccessFault (List String × Entry)
  | [] => .ok ((above.map (·.1)).reverse, here)
  | name :: rest =>
      match here with
      | file _ => .error .notADirectory
      | directory entries =>
          if name == ".." then
            match above with
            | [] => locateOutside rest
            | (_, parent) :: above => locateFrom above parent rest
          else if isTooLong name then .error .tooLong
          else
            match lookup name entries with
            | none => .error .absent
            | some entry => locateFrom ((name, here) :: above) entry rest

/-- The names that lead to where a path leads, and what is there.  Outside the tree the
names begin with double dots. -/
def locate (top : Entry) (path : Path) : Except AccessFault (List String × Entry) :=
  match textFault? path.text with
  | some fault => .error fault
  | none => if path.isAbsolute then locateOutside path.names else locateFrom [] top path.names

/-- What is at a path. -/
def at? (top : Entry) (path : Path) : Option Entry :=
  match top.locate path with
  | .ok (_, entry) => some entry
  | .error _ => none

/-- What is at a path, if there is anything; that a path is too long to be looked up does
not mean that there is nothing. -/
def probe (top : Entry) (path : Path) : Except AccessFailure (Option Entry) :=
  match top.locate path with
  | .ok (_, entry) => .ok (some entry)
  | .error .tooLong => .error ⟨.tooLong, path⟩
  | .error _ => .ok none

/-- Whether there is a directory at a path. -/
def hasDirectory (top : Entry) (path : Path) : Bool :=
  match top.at? path with
  | some (directory _) => true
  | _ => false

/-- The bytes of the file at a path. -/
def read (top : Entry) (path : Path) : Except AccessFailure ByteArray :=
  match top.locate path with
  | .error fault => .error ⟨fault, path⟩
  | .ok (_, directory _) => .error ⟨.isADirectory, path⟩
  | .ok (_, file bytes) => .ok bytes

/-! ## Changing a tree -/

/-- The tree with an entry put where some names lead; directories on the way that are
not there are made.  Nothing changes if the names lead out of the tree. -/
def put (here entry : Entry) : List String → Entry
  | [] => entry
  | name :: rest =>
      if name == ".." then here
      else
        let next := (lookup name here.entries).getD (directory [])
        directory (putEntry name (next.put entry rest) here.entries)

/-- The names that lead to where a new entry with a path would be, and what is there
now.  The path without names, and one that ends in double dots, is taken; outside the
tree every other one is free. -/
def place (top : Entry) (path : Path) : Except AccessFault (List String × Option Entry) :=
  match textFault? path.text, path.names.getLast? with
  | some fault, _ => .error fault
  | none, none => (top.locate path).map fun (names, entry) => (names, some entry)
  | none, some name =>
      if name == ".." then (top.locate path).map fun (names, entry) => (names, some entry)
      else
        match top.locate path.parent with
        | .error fault =>
            if fault = .absent && path.leadsOutside then .ok ([".."], none) else .error fault
        | .ok (_, file _) => .error .notADirectory
        | .ok (names, directory entries) =>
            if isTooLong name then .error .tooLong else .ok (names ++ [name], lookup name entries)

/-- The tree with a new directory in one that is there. -/
def makeDirectory (top : Entry) (path : Path) : Except AccessFault Entry :=
  match top.place path with
  | .error fault => .error fault
  | .ok (_, some _) => .error .taken
  | .ok (names, none) => .ok (top.put (directory []) names)

/-- The tree with a directory at a path, which may be there already. -/
def ensureDirectory (top : Entry) (path : Path) : Except AccessFault Entry :=
  match top.makeDirectory path with
  | .ok tree => .ok tree
  | .error fault => if top.hasDirectory path then .ok top else .error fault

/-- The tree with a directory at a path, for which the first `fuel` of the directories
above it are made as well where they are absent. -/
def ensureDirectories (top : Entry) (path : Path) : (fuel : Nat) → Except AccessFailure Entry
  | 0 => (top.ensureDirectory path).mapError (⟨·, path⟩)
  | fuel + 1 =>
      match top.ensureDirectory path with
      | .error .absent => do
          let tree ← top.ensureDirectories path.parent fuel
          (tree.ensureDirectory path).mapError (⟨·, path⟩)
      | .error fault => .error ⟨fault, path⟩
      | .ok tree => .ok tree

/-- The tree with a directory at a path and all directories above it. -/
def makeDirectories (top : Entry) (path : Path) : Except AccessFailure Entry :=
  top.ensureDirectories path path.names.length

/-- The tree with a file of the given bytes at a path in a directory that is there. -/
def write (top : Entry) (path : Path) (bytes : ByteArray) : Except AccessFailure Entry :=
  match top.place path with
  | .error fault => .error ⟨fault, path⟩
  | .ok (_, some (directory _)) => .error ⟨.isADirectory, path⟩
  | .ok (names, _) => .ok (top.put (file bytes) names)

/-! ## Listing files -/

mutual

/-- The files below an entry, each with the names that lead to it. -/
def files : Entry → List (List String × ByteArray)
  | file bytes => [([], bytes)]
  | directory entries => filesOf entries

/-- The files below some entries. -/
def filesOf : List (String × Entry) → List (List String × ByteArray)
  | [] => []
  | (name, entry) :: rest =>
      entry.files.map (fun (names, bytes) => (name :: names, bytes)) ++ filesOf rest

end

/-- The files below a tree that another tree does not have at the same place. -/
def filesBeyond (tree before : Entry) : List (Path × ByteArray) :=
  let known := before.files.map (·.1)
  (tree.files.filter fun (names, _) => !known.contains names).map fun (names, bytes) =>
    (⟨"", names⟩, bytes)

end Entry

end SourceChunks
