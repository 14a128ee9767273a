import SourceChunks.Document.Basic
import SourceChunks.Document.Fields
import SourceChunks.Document.Issue
import SourceChunks.Json.Reader
import SourceChunks.Number.Numeral

/-!
# Checking documents

A value is checked field by field in the order in which the fields are written.
Numbers may be written as strings or with an empty fraction; texts may not be
anything but strings.  Members that are no field do not matter.

A text may hold a document, or a bare list of chunks, which gets a fresh summary.
-/

namespace SourceChunks

namespace Check

/-- A string. -/
def string : Json → Checked String
  | .str s => .valid s
  | _ => .issue .notAString

/-- A whole number in a string. -/
def numeral (s : String) : Checked Int :=
  match Numeral.strict s.toList with
  | .ok n => .valid n
  | .error .notANumber => .issue .notANumeral
  | .error (.tooManyDigits _) => .issue .numeralTooLong

/-- The bound of whole numbers of sixty-four bits. -/
def int64Bound : Int := 0x8000000000000000

/-- A whole number that was written with a fraction or an exponent. -/
def realInteger (x : Binary64) : Checked Int :=
  match x.truncate? with
  | none => .issue .notFinite
  | some n =>
      if !x.isIntegral then .issue .hasFraction
      else if -int64Bound < n && n < int64Bound then .valid n
      else .issue .numeralTooLong

/-- A whole number. -/
def integer : Json → Checked Int
  | .int n => .valid n
  | .bool b => .valid (if b then 1 else 0)
  | .real x => realInteger x
  | .str s => numeral s
  | _ => .issue .notAnInteger

/-- A list of values. -/
def list {α : Type} (check : Json → Checked α) : Json → Checked (List α)
  | .arr items => .items check items
  | _ => .issue .notAList

/-- The kind of a declaration. -/
def kind : Json → Checked Kind
  | .str s =>
      match Kind.ofName? s with
      | some k => .valid k
      | none => .issue .notAKind
  | _ => .issue .notAKind

/-- The role of a chunk. -/
def role : Json → Checked Role
  | .str s =>
      match Role.ofName? s with
      | some r => .valid r
      | none => .issue .notARole
  | _ => .issue .notARole

/-- A timestamp of the common era; an issue of the given kind if there is none. -/
def orIssue (kind : IssueKind) : Option Timestamp → Checked Timestamp
  | some t => if t.hasEra then .valid t else .issue .dateOutOfRange
  | none => .issue kind

/-- A timestamp.  A whole number that is beyond all numbers with a binary fraction
counts as no number. -/
def timestamp : Json → Checked Timestamp
  | .str s => orIssue .notADate (Timestamp.ofText? s)
  | .int n =>
      if (Binary64.ofQuotient false n.natAbs 1).isInfinite then .issue .notATimestamp
      else orIssue .dateOutOfRange (Timestamp.ofCount? n)
  | .real x => orIssue .dateOutOfRange (Timestamp.ofReal? x)
  | _ => .issue .notATimestamp

/-- The members of an object. -/
def object {α : Type} (check : List (String × Json) → Checked α) : Json → Checked α
  | .obj members => check members
  | _ => .issue .notAnObject

/-- A value or null. -/
def nullable {α : Type} (check : Json → Checked α) : Json → Checked (Option α)
  | .null => .valid none
  | json => (check json).map some

/-- A field that must be there. -/
def required {α : Type} (members : List (String × Json)) (field : FieldName)
    (check : Json → Checked α) : Checked α :=
  match field.find? members with
  | some (name, value) => (check value).under (.member name)
  | none => .invalid [⟨[.member field.camel], .missing⟩]

/-- A field that may be absent or null. -/
def optional {α : Type} (members : List (String × Json)) (field : FieldName)
    (check : Json → Checked α) : Checked (Option α) :=
  match field.find? members with
  | some (name, value) => (nullable check value).under (.member name)
  | none => .valid none

/-- The number of chunks of each kind. -/
def counts : Json → Checked (List (String × Int))
  | .obj members =>
      members.foldr
        (fun (name, value) rest =>
          Checked.apply (((integer value).under (.member name)).map fun n rest => (name, n) :: rest)
            rest)
        (.valid [])
  | _ => .issue .notADictionary

end Check

/-- A position. -/
def Position.decode (json : Json) : Checked Position :=
  Check.object (fun members =>
    Position.mk <$> Check.required members Field.startLine Check.integer
      <*> Check.required members Field.endLine Check.integer
      <*> Check.required members Field.startColumn Check.integer
      <*> Check.required members Field.endColumn Check.integer) json

/-- A chunk. -/
def Chunk.decode (json : Json) : Checked Chunk :=
  Check.object (fun members =>
    Chunk.mk <$> Check.required members Field.kind Check.kind
      <*> Check.required members Field.name (Check.nullable Check.string)
      <*> Check.required members Field.content Check.string
      <*> Check.required members Field.position Position.decode
      <*> Check.required members Field.file Check.string
      <*> Check.required members Field.id Check.string
      <*> Check.required members Field.contentHash Check.string
      <*> Check.optional members Field.visibility Check.string
      <*> Check.optional members Field.variableType Check.string
      <*> Check.optional members Field.parameters (Check.list Check.string)
      <*> Check.optional members Field.returnType Check.string
      <*> Check.optional members Field.role Check.role
      <*> Check.optional members Field.path Check.string
      <*> Check.optional members Field.listener Check.string
      <*> Check.optional members Field.httpMethod Check.string
      <*> Check.optional members Field.resourcePath Check.string
      <*> Check.optional members Field.fullPath Check.string
      <*> Check.optional members Field.servicePath Check.string
      <*> Check.optional members Field.serviceListener Check.string
      <*> Check.optional members Field.part Check.integer
      <*> Check.optional members Field.partCount Check.integer) json

/-- A summary. -/
def Summary.decode (json : Json) : Checked Summary :=
  Check.object (fun members =>
    Summary.mk <$> Check.optional members Field.sourceDirectory Check.string
      <*> Check.required members Field.generatedAt Check.timestamp
      <*> Check.required members Field.totalChunks Check.integer
      <*> Check.required members Field.chunkTypeCounts Check.counts) json

/-- A document. -/
def Document.decode (json : Json) : Checked Document :=
  Check.object (fun members =>
    Document.mk <$> Check.required members Field.metadata Summary.decode
      <*> Check.required members Field.chunks (Check.list Chunk.decode)) json

/-- Why a text holds no document. -/
inductive DocumentFailure where
  /-- It is not JSON. -/
  | malformed (fault : Json.Fault)
  /-- It is JSON, but not a document or list of chunks. -/
  | invalid (issues : List Issue)
  deriving Repr, DecidableEq

/-- The wording of a failure; the issues themselves follow on lines of their own. -/
def DocumentFailure.message : DocumentFailure → String
  | malformed fault =>
      if fault.isLimit then fault.message else "Malformed JSON: " ++ fault.message
  | invalid issues => s!"Invalid chunk document: {issues.length} error(s)"

/-- The document in a JSON value. -/
def Document.ofJson (now : Timestamp) (json : Json) : Checked Document :=
  match json with
  | .arr items => (Checked.items Chunk.decode items).map (Document.ofChunks now none)
  | json => Document.decode json

/-- The document in a text. -/
def Document.parse (now : Timestamp) (text : String) : Except DocumentFailure Document :=
  match Json.parse text.toList with
  | .error fault => .error (.malformed fault)
  | .ok json =>
      match Document.ofJson now json with
      | .valid document => .ok document
      | .invalid issues => .error (.invalid issues)

end SourceChunks
