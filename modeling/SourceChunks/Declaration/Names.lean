import SourceChunks.Declaration.Basic

/-!
# Names and paths

What a declaration is called.  A service is called by its path without the quotes
and slashes around it, and a resource by its method and path.  The full path of a
resource puts the segments of the service's path before its own.
-/

namespace SourceChunks

/-- A row without what is to be dropped at its two ends. -/
def stripChars {α : Type} (drop : α → Bool) (s : List α) : List α :=
  ((s.dropWhile drop).reverse.dropWhile drop).reverse

/-- The nonempty stretches between slashes; `segment` holds the characters of the
current one so far, the latest first. -/
def segmentsFrom (segment : List Char) : List Char → List (List Char)
  | [] => if segment.isEmpty then [] else [segment.reverse]
  | c :: rest =>
      if c = '/' then
        if segment.isEmpty then segmentsFrom [] rest
        else segment.reverse :: segmentsFrom [] rest
      else segmentsFrom (c :: segment) rest

/-- The nonempty segments of a path. -/
def segments (path : List Char) : List (List Char) :=
  segmentsFrom [] path

/-- What a service without a name is called. -/
def unnamedService : String := "unnamed_service"

/-- What a service is called, by the path or name that it was given. -/
def serviceName (path : Option String) : String :=
  let shown := stripChars (· == '/') (stripChars (· == '"') (path.getD "").toList)
  if shown.isEmpty then unnamedService else String.ofList shown

/-- The path of a resource behind the path of its service.  A single dot stands for
the path of the service itself. -/
def fullPath (servicePath resourcePath : String) : String :=
  let service := segments (stripChars (· == '"') servicePath.toList)
  let resource := if resourcePath = "." then [] else segments resourcePath.toList
  String.ofList ('/' :: List.intercalate ['/'] (service ++ resource))

namespace Service

/-- What a service is called. -/
def name (service : Service String) : String :=
  serviceName service.path

/-- The path of a service; the root if it was given none. -/
def route (service : Service String) : String :=
  service.path.getD "/"

end Service

/-- What a declaration is called; an import has no name. -/
def Declaration.name? (d : Declaration String) : Option String :=
  match d.shape with
  | .importClause => none
  | .configurable _ _ name => some name
  | .moduleVariable _ name => some name
  | .typeDefinition _ name => some name
  | .function _ name _ => some name
  | .service service => some service.name
  | .resource _ method path _ => some (method ++ " " ++ path)
  | .classDefinition _ name => some name
  | .constant _ _ name => some name

/-- The word for the visibility of a declaration. -/
def visibilityWord (isPublic : Bool) : String :=
  if isPublic then "public" else "private"

end SourceChunks
