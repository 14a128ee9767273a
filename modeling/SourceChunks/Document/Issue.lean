/-!
# Issues of a document

Checking a document finds every issue in it, not just the first.  An issue has a
path from the top of the document to the value at fault.  A check gives a value or
a list of issues, and checks of several values in a row collect the issues of all
of them in that order.
-/

namespace SourceChunks

/-- One step on the way to a value. -/
inductive PathStep where
  /-- To the member with a name. -/
  | member (name : String)
  /-- To the item at an index. -/
  | item (index : Nat)
  deriving Repr, DecidableEq

/-- What is wrong with a value. -/
inductive IssueKind where
  | missing
  | notAString
  | notAnObject
  | notAList
  | notADictionary
  | notAKind
  | notARole
  | notANumeral
  | numeralTooLong
  | hasFraction
  | notFinite
  | notAnInteger
  | notPositive
  | notADate
  | dateOutOfRange
  | notATimestamp
  | notATruthValue
  | notATruthWord
  | notAPath
  deriving Repr, DecidableEq

/-- The code under which an issue is reported. -/
def IssueKind.code : IssueKind → String
  | missing => "missing"
  | notAString => "string_type"
  | notAnObject => "model_type"
  | notAList => "list_type"
  | notADictionary => "dict_type"
  | notAKind => "enum"
  | notARole => "literal_error"
  | notANumeral => "int_parsing"
  | numeralTooLong => "int_parsing_size"
  | hasFraction => "int_from_float"
  | notFinite => "finite_number"
  | notAnInteger => "int_type"
  | notPositive => "greater_than"
  | notADate => "datetime_from_date_parsing"
  | dateOutOfRange => "datetime_parsing"
  | notATimestamp => "datetime_type"
  | notATruthValue => "bool_type"
  | notATruthWord => "bool_parsing"
  | notAPath => "path_type"

/-- Something that is wrong with a document. -/
structure Issue where
  /-- The way from the top to the value at fault. -/
  path : List PathStep
  /-- What is wrong with it. -/
  kind : IssueKind
  deriving Repr, DecidableEq

/-- A value, or the issues that keep it from being one. -/
inductive Checked (α : Type) where
  | valid (value : α)
  | invalid (issues : List Issue)
  deriving Repr

namespace Checked

variable {α β : Type}

/-- A single issue at the value under check. -/
def issue (kind : IssueKind) : Checked α :=
  invalid [⟨[], kind⟩]

/-- A check one step down: its issues get the step in front of their path. -/
def under (step : PathStep) : Checked α → Checked α
  | valid value => valid value
  | invalid issues => invalid (issues.map fun issue => { issue with path := step :: issue.path })

/-- A function of a checked value. -/
def map (f : α → β) : Checked α → Checked β
  | valid value => valid (f value)
  | invalid issues => invalid issues

/-- A checked function of a checked value, with the issues of both. -/
def apply (f : Checked (α → β)) (x : Checked α) : Checked β :=
  match f, x with
  | valid f, valid x => valid (f x)
  | valid _, invalid issues => invalid issues
  | invalid issues, valid _ => invalid issues
  | invalid issues, invalid more => invalid (issues ++ more)

instance : Functor Checked where
  map := map

instance : Applicative Checked where
  pure := valid
  seq f x := apply f (x ())

/-- A check of every item of a list, from an index on. -/
def itemsFrom (check : α → Checked β) : (index : Nat) → List α → Checked (List β)
  | _, [] => valid []
  | index, x :: rest =>
      apply (map List.cons ((check x).under (.item index))) (itemsFrom check (index + 1) rest)

/-- A check of every item of a list. -/
def items (check : α → Checked β) (xs : List α) : Checked (List β) :=
  itemsFrom check 0 xs

end Checked

end SourceChunks
