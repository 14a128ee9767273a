import SourceChunks.Pattern.Search
import SourceChunks.Text.Blank

/-!
# The patterns of declarations

One pattern for each kind of declaration.  A pattern covers as much of the
declaration as can be told without matching brackets: all of it where it ends with
its first semicolon, and a header otherwise.
-/

namespace SourceChunks

/-- The parts that the patterns mark. -/
inductive Part where
  | visibility
  | qualifier
  | type
  | name
  | method
  | path
  | identifier
  | listener
  | statement
  deriving Repr, DecidableEq

namespace Patterns

open Pattern

/-- At least one white-space character. -/
def blanks : Pattern Part :=
  some1 Text.isBlank

/-- Any white space. -/
def spaces : Pattern Part :=
  run Text.isBlank

/-- A character of the type of a variable. -/
def isTypeChar (c : Char) : Bool :=
  Text.isWord c || [':', '.', '|', '?', '[', ']', '<', '>'].contains c

/-- A character of the path of a service. -/
def isServicePathChar (c : Char) : Bool :=
  Text.isWord c || ['-', '.', '/', '[', ']'].contains c

/-- A character of a plain segment of the path of a resource. -/
def isSegmentChar (c : Char) : Bool :=
  Text.isWord c || ['.', '-', '$'].contains c

/-- The type of a variable. -/
def typeName : Pattern Part :=
  mark .type (some1 isTypeChar)

/-- The name of what is declared. -/
def declaredName : Pattern Part :=
  mark .name (some1 Text.isWord)

/-- The visibility, if it is given. -/
def visibility : Pattern Part :=
  maybe (mark .visibility (word "public") ++ blanks)

/-- Any number of the given words, each before white space. -/
def qualifiers (choices : List String) : Pattern Part :=
  many (mark .qualifier (anyOf (choices.map word)) ++ blanks)

/-- An equals sign, and everything up to the next semicolon. -/
def initializer : Pattern Part :=
  spaces ++ one (· == '=') ++ some1 (· != ';') ++ one (· == ';')

/-- An import, up to its semicolon. -/
def importClause : Pattern Part :=
  edge ++ word "import" ++ blanks ++ some1 (fun c => c != ';' && c != '{' && c != '}') ++
    one (· == ';')

/-- A configurable variable, up to its semicolon. -/
def configurable : Pattern Part :=
  edge ++ visibility ++ word "configurable" ++ blanks ++ typeName ++ blanks ++ declaredName ++
    initializer

/-- A variable that begins its line, up to its semicolon. -/
def moduleVariable : Pattern Part :=
  lineStart ++ run (fun c => c == ' ' || c == '\t') ++
    mark .statement
      (many (anyOf [word "public", word "isolated", word "listener"] ++ blanks) ++
        typeName ++ blanks ++ declaredName ++ initializer)

/-- The header of a type definition. -/
def typeDefinition : Pattern Part :=
  edge ++ visibility ++ word "type" ++ blanks ++ declaredName ++ one Text.isBlank

/-- The header of a function, up to its opening parenthesis. -/
def function : Pattern Part :=
  edge ++ visibility ++ qualifiers ["isolated", "transactional", "remote"] ++
    word "function" ++ blanks ++ declaredName ++ spaces ++ one (· == '(')

/-- The path of a service: a slash and path characters, or a string. -/
def servicePath : Pattern Part :=
  either (one (· == '/') ++ run isServicePathChar)
    (one (· == '"') ++ run (fun c => c != '"' && c != '\n') ++ one (· == '"'))

/-- The header of a service, up to the word before its listener or, without one,
up to its path or name. -/
def service : Pattern Part :=
  edge ++ qualifiers ["isolated"] ++ word "service" ++ edge ++
    notAhead (blanks ++ anyOf [word "class", word "object"] ++ edge) ++
    maybe (blanks ++ some1 Text.isWord ++ one (· == ':') ++ some1 Text.isWord) ++
    maybe (either (spaces ++ mark .path servicePath)
      (blanks ++ mark .identifier (notAhead (word "on" ++ edge) ++ some1 Text.isWord))) ++
    maybe (mark .listener (blanks ++ word "on" ++ edge))

/-- A segment of the path of a resource: plain, or a parameter in brackets. -/
def segment : Pattern Part :=
  either (some1 isSegmentChar) (one (· == '[') ++ run (· != ']') ++ one (· == ']'))

/-- The header of a resource, up to its opening parenthesis. -/
def resource : Pattern Part :=
  edge ++ qualifiers ["isolated"] ++ word "resource" ++ blanks ++ word "function" ++ blanks ++
    mark .method (some1 Text.isWord) ++ blanks ++
    mark .path (segment ++ many (one (· == '/') ++ segment)) ++ spaces ++ one (· == '(')

/-- The header of a class, up to the brace or semicolon behind its name. -/
def classDefinition : Pattern Part :=
  edge ++ visibility ++ qualifiers ["isolated", "readonly", "distinct", "client", "service"] ++
    word "class" ++ blanks ++ declaredName ++ spaces ++ ahead (one fun c => c == '{' || c == ';')

/-- A constant, up to its semicolon. -/
def constant : Pattern Part :=
  edge ++ visibility ++ anyOf [word "final", word "const"] ++ blanks ++
    maybe (typeName ++ blanks) ++ declaredName ++ initializer

end Patterns

end SourceChunks
