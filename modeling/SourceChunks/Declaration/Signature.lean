import SourceChunks.Text.Blank

/-!
# Parameters and signatures

A parameter list is split at its commas outside brackets, and the header of a
function or resource is written again on one line, with single spaces between its
words.
-/

namespace SourceChunks

/-- A text with its white space reduced to single spaces between words. -/
def collapsed (s : String) : String :=
  String.ofList (Text.collapse s.toList)

/-- The nesting depth behind a character.  A closing bracket without an opening one
leaves it at zero. -/
def depthBehind (depth : Nat) (c : Char) : Nat :=
  if c = '(' || c = '[' || c = '{' || c = '<' then depth + 1
  else if c = ')' || c = ']' || c = '}' || c = '>' then depth - 1
  else depth

/-- The pieces of the rest of a text between the commas outside brackets, where
`depth` brackets are open and `piece` is the current one so far, the latest
character first. -/
def piecesFrom (depth : Nat) (piece : List Char) : List Char → List (List Char)
  | [] => [piece.reverse]
  | c :: rest =>
      if c = ',' && depth = 0 then piece.reverse :: piecesFrom 0 [] rest
      else piecesFrom (depthBehind depth c) (c :: piece) rest

/-- The pieces of the rest of a row of letters that show a character each, between the
commas that are shown outside brackets. -/
def piecesByFrom {α : Type} (shown : α → Char) (depth : Nat) (piece : List α) :
    List α → List (List α)
  | [] => [piece.reverse]
  | a :: rest =>
      if shown a = ',' && depth = 0 then piece.reverse :: piecesByFrom shown 0 [] rest
      else piecesByFrom shown (depthBehind depth (shown a)) (a :: piece) rest

/-- The pieces of a row between the commas that are shown outside brackets. -/
def piecesBy {α : Type} (shown : α → Char) (list : List α) : List (List α) :=
  piecesByFrom shown 0 [] list

/-- The parameters of a list, each on one line; blank ones do not count. -/
def splitParameters (raw : String) : List String :=
  ((piecesFrom 0 [] raw.toList).filter (!Text.allBlank ·)).map fun piece =>
    String.ofList (Text.collapse piece)

/-- The words for a return type; none for an absent or empty one. -/
def returnsWords (returns : Option String) : List String :=
  match returns with
  | some type => if type.isEmpty then [] else ["returns " ++ collapsed type]
  | none => []

/-- The header of a function on one line. -/
def functionSignature (isPublic : Bool) (qualifiers : List String) (name : String)
    (parameters : List String) (returns : Option String) : String :=
  " ".intercalate ((if isPublic then ["public"] else []) ++ qualifiers ++
    ["function " ++ name ++ "(" ++ ", ".intercalate parameters ++ ")"] ++ returnsWords returns)

/-- The header of a resource on one line. -/
def resourceSignature (qualifiers : List String) (method path : String)
    (parameters : List String) (returns : Option String) : String :=
  " ".intercalate (qualifiers ++
    ["resource function " ++ method ++ " " ++ path ++ "(" ++ ", ".intercalate parameters ++ ")"] ++
    returnsWords returns)

theorem map_piecesByFrom {α : Type} (shown : α → Char) (depth : Nat) (piece list : List α) :
    (piecesByFrom shown depth piece list).map (·.map shown) =
      piecesFrom depth (piece.map shown) (list.map shown) := by
  induction list generalizing depth piece with
  | nil => rw [piecesByFrom, List.map_nil, piecesFrom, List.map_singleton, List.map_reverse]
  | cons a rest ih =>
      rw [piecesByFrom, List.map_cons, piecesFrom]
      split
      · rw [List.map_cons, ih, List.map_reverse, List.map_nil]
      · exact ih _ _

/-- What is shown of the pieces are the pieces of what is shown. -/
theorem map_piecesBy {α : Type} (shown : α → Char) (list : List α) :
    (piecesBy shown list).map (·.map shown) = piecesFrom 0 [] (list.map shown) :=
  map_piecesByFrom shown 0 [] list

end SourceChunks
