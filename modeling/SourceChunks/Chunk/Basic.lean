import SourceChunks.Declaration.Kind

/-!
# Chunks

A chunk is one classified piece of a source file: its text, where it stands, and
what is known about the declaration it belongs to.  Functions and resources have
two chunks, one for the signature and one for the body.
-/

namespace SourceChunks

/-- Which half of a function or resource a chunk holds. -/
inductive Role where
  | signature
  | body
  deriving Repr, DecidableEq

namespace Role

/-- The name of a role. -/
def name : Role → String
  | signature => "signature"
  | body => "body"

/-- The role with a name. -/
def ofName? (s : String) : Option Role :=
  [signature, body].find? (·.name == s)

@[simp] theorem ofName_name (r : Role) : ofName? r.name = some r := by cases r <;> decide

end Role

/-- The first and the last character of a chunk's declaration.  Lines and columns
count from one in chunks that were cut from a text; a document may say anything. -/
structure Position where
  startLine : Int
  endLine : Int
  startColumn : Int
  endColumn : Int
  deriving Repr, DecidableEq

/-- One classified piece of a source file. -/
structure Chunk where
  /-- The kind of declaration. -/
  kind : Kind
  /-- What is declared. -/
  name : Option String
  /-- The text of the piece. -/
  content : String
  /-- Where the declaration stands. -/
  position : Position
  /-- The file it stands in. -/
  file : String
  /-- What identifies the declaration, whatever its text. -/
  id : String
  /-- The digest of the text. -/
  contentHash : String
  visibility : Option String := none
  variableType : Option String := none
  parameters : Option (List String) := none
  returnType : Option String := none
  role : Option Role := none
  path : Option String := none
  listener : Option String := none
  httpMethod : Option String := none
  resourcePath : Option String := none
  fullPath : Option String := none
  servicePath : Option String := none
  serviceListener : Option String := none
  /-- The number of this part of a piece that was too long, from one. -/
  part : Option Int := none
  /-- The number of parts of the piece. -/
  partCount : Option Int := none
  deriving Repr, DecidableEq

end SourceChunks
