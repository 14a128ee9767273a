import SourceChunks.Span
import SourceChunks.Text.Word

/-!
# Patterns

A pattern describes stretches of a text.  It may end at several places; its
choices are ordered, so its ends are too, and a run or a repetition prefers to
be long.  A pattern also marks parts of what it describes with labels.

* `Pattern.ends` lists every end of a pattern, best first.  It is the meaning.
* `Pattern.firstEnd` finds the best end that can be continued.  It is what runs,
  since it looks at no end that is not needed.
* `firstEnd_eq_findSome_ends` says that the two agree.
-/

namespace SourceChunks

/-- A place in a text: what stands before and after it, and the parts that were
marked on the way there, the latest first. -/
structure Cursor (L : Type) where
  /-- The character before this place. -/
  before : Option Char
  /-- The text from this place on. -/
  rest : List Char
  /-- The number of characters before this place. -/
  offset : Nat
  /-- The marked parts, the latest first. -/
  marks : List (L × Span)

/-- A description of stretches of a text. -/
inductive Pattern (L : Type) where
  /-- Nothing. -/
  | empty
  /-- One character of a class. -/
  | one (accepts : Char → Bool)
  /-- As many characters of a class as there are, or fewer. -/
  | run (accepts : Char → Bool)
  /-- One pattern and then another. -/
  | seq (first second : Pattern L)
  /-- One pattern or, failing that, another. -/
  | either (first second : Pattern L)
  /-- A pattern as many times in a row as it can be found, or fewer. -/
  | many (body : Pattern L)
  /-- A pattern whose stretch is marked. -/
  | mark (label : L) (body : Pattern L)
  /-- An edge between a word character and another place. -/
  | edge
  /-- The start of a line. -/
  | lineStart
  /-- A pattern that must follow without being part of the stretch. -/
  | ahead (body : Pattern L)
  /-- A pattern that must not follow. -/
  | notAhead (body : Pattern L)

namespace Cursor

variable {L : Type}

/-- Whether exactly one of the two neighbouring characters is a word character. -/
def atEdge (c : Cursor L) : Bool :=
  c.before.any Text.isWord != c.rest.head?.any Text.isWord

/-- Whether no character of the current line stands before this place. -/
def atLineStart (c : Cursor L) : Bool :=
  c.before.all (· == '\n')

/-- The place with one more marked part, which began at `start` and ends here. -/
def withMark (c : Cursor L) (label : L) (start : Nat) : Cursor L :=
  { c with marks := (label, ⟨start, c.offset⟩) :: c.marks }

/-- The places inside and at the end of the longest run of a class, the farthest
first; `nearer` holds those that were passed. -/
def runEnds (accepts : Char → Bool) (marks : List (L × Span)) :
    (nearer : List (Cursor L)) → Option Char → Nat → List Char → List (Cursor L)
  | nearer, before, offset, [] => ⟨before, [], offset, marks⟩ :: nearer
  | nearer, before, offset, c :: rest =>
      if accepts c then
        runEnds accepts marks (⟨before, c :: rest, offset, marks⟩ :: nearer) (some c) (offset + 1) rest
      else ⟨before, c :: rest, offset, marks⟩ :: nearer

end Cursor

namespace Pattern

variable {L : Type}

instance : Append (Pattern L) := ⟨seq⟩

/-- The given characters in their order. -/
def literal : List Char → Pattern L
  | [] => empty
  | c :: rest => one (· == c) ++ literal rest

/-- The given word. -/
def word (s : String) : Pattern L :=
  literal s.toList

/-- One of the given patterns, the earlier ones first. -/
def anyOf : List (Pattern L) → Pattern L
  | [] => notAhead empty
  | [p] => p
  | p :: rest => either p (anyOf rest)

/-- At least one character of a class, and as many as there are. -/
def some1 (accepts : Char → Bool) : Pattern L :=
  one accepts ++ run accepts

/-- A pattern or, failing that, nothing. -/
def maybe (body : Pattern L) : Pattern L :=
  either body empty

/-! ## Meaning -/

/-- The ends of up to `fuel` rounds of a step, those of more rounds first. -/
def roundEnds (step : Cursor L → List (Cursor L)) : (fuel : Nat) → Cursor L → List (Cursor L)
  | 0, c => [c]
  | fuel + 1, c => (step c).flatMap (roundEnds step fuel) ++ [c]

/-- The ends of a pattern that begins at a place, best first.  A repetition has
at most as many rounds as there are characters left. -/
def ends : Pattern L → Cursor L → List (Cursor L)
  | empty, c => [c]
  | one accepts, c =>
      match c.rest with
      | [] => []
      | x :: rest => if accepts x then [⟨some x, rest, c.offset + 1, c.marks⟩] else []
  | run accepts, c => Cursor.runEnds accepts c.marks [] c.before c.offset c.rest
  | seq p q, c => (ends p c).flatMap (ends q)
  | either p q, c => ends p c ++ ends q c
  | many p, c => roundEnds (ends p) c.rest.length c
  | mark label p, c => (ends p c).map (·.withMark label c.offset)
  | edge, c => if c.atEdge then [c] else []
  | lineStart, c => if c.atLineStart then [c] else []
  | ahead p, c => if (ends p c).isEmpty then [] else [c]
  | notAhead p, c => if (ends p c).isEmpty then [c] else []

/-! ## Running -/

/-- The best continuation after up to `fuel` rounds of a step, more rounds first. -/
def firstRound (step : (Cursor L → Option (Cursor L)) → Cursor L → Option (Cursor L))
    (next : Cursor L → Option (Cursor L)) : (fuel : Nat) → Cursor L → Option (Cursor L)
  | 0, c => next c
  | fuel + 1, c =>
      match step (firstRound step next fuel) c with
      | some found => some found
      | none => next c

/-- What `next` makes of the best end of a pattern that it does not refuse. -/
def firstEnd : Pattern L → (next : Cursor L → Option (Cursor L)) → Cursor L → Option (Cursor L)
  | empty, next, c => next c
  | one accepts, next, c =>
      match c.rest with
      | [] => none
      | x :: rest => if accepts x then next ⟨some x, rest, c.offset + 1, c.marks⟩ else none
  | run accepts, next, c => (Cursor.runEnds accepts c.marks [] c.before c.offset c.rest).findSome? next
  | seq p q, next, c => firstEnd p (firstEnd q next) c
  | either p q, next, c =>
      match firstEnd p next c with
      | some found => some found
      | none => firstEnd q next c
  | many p, next, c => firstRound (firstEnd p) next c.rest.length c
  | mark label p, next, c => firstEnd p (fun stop => next (stop.withMark label c.offset)) c
  | edge, next, c => if c.atEdge then next c else none
  | lineStart, next, c => if c.atLineStart then next c else none
  | ahead p, next, c => if (firstEnd p some c).isSome then next c else none
  | notAhead p, next, c => if (firstEnd p some c).isSome then none else next c

theorem findSome_flatMap {α β γ : Type} (f : α → List β) (g : β → Option γ) (xs : List α) :
    (xs.flatMap f).findSome? g = xs.findSome? fun x => (f x).findSome? g := by
  induction xs with
  | nil => rfl
  | cons x xs ih =>
      rw [List.flatMap_cons, List.findSome?_append, ih, List.findSome?_cons]
      cases (f x).findSome? g <;> rfl

theorem firstRound_eq_findSome_roundEnds
    {step : (Cursor L → Option (Cursor L)) → Cursor L → Option (Cursor L)}
    {stepEnds : Cursor L → List (Cursor L)}
    (hstep : ∀ next c, step next c = (stepEnds c).findSome? next)
    (next : Cursor L → Option (Cursor L)) (fuel : Nat) (c : Cursor L) :
    firstRound step next fuel c = (roundEnds stepEnds fuel c).findSome? next := by
  induction fuel generalizing c with
  | zero => cases h : next c <;> simp [firstRound, roundEnds, h]
  | succ fuel ih =>
      have hfun : firstRound step next fuel = fun c => (roundEnds stepEnds fuel c).findSome? next :=
        funext ih
      simp only [firstRound, roundEnds, hstep, hfun, List.findSome?_append, findSome_flatMap]
      cases h : (stepEnds c).findSome? fun c => (roundEnds stepEnds fuel c).findSome? next with
      | some found => simp
      | none => cases hn : next c <;> simp [hn]

/-- Running a pattern looks for the best of its ends that can be continued. -/
theorem firstEnd_eq_findSome_ends (p : Pattern L) (next : Cursor L → Option (Cursor L))
    (c : Cursor L) : firstEnd p next c = (ends p c).findSome? next := by
  induction p generalizing next c with
  | empty => cases h : next c <;> simp [firstEnd, ends, h]
  | one accepts =>
      cases hrest : c.rest with
      | nil => simp [firstEnd, ends, hrest]
      | cons x rest =>
          by_cases hx : accepts x
          · cases h : next ⟨some x, rest, c.offset + 1, c.marks⟩ <;>
              simp [firstEnd, ends, hrest, hx, h]
          · simp [firstEnd, ends, hrest, hx]
  | run accepts => rfl
  | seq p q ihp ihq =>
      have hfun : firstEnd q next = fun c => (ends q c).findSome? next := funext (ihq next)
      simp only [firstEnd, ends, ihp, hfun, findSome_flatMap]
  | either p q ihp ihq =>
      simp only [firstEnd, ends, ihp, ihq, List.findSome?_append]
      cases (ends p c).findSome? next <;> simp
  | many p ih => exact firstRound_eq_findSome_roundEnds ih next c.rest.length c
  | mark label p ih =>
      simp only [firstEnd, ends, ih, List.findSome?_map]
      rfl
  | edge => by_cases h : c.atEdge <;> cases hn : next c <;> simp [firstEnd, ends, h, hn]
  | lineStart => by_cases h : c.atLineStart <;> cases hn : next c <;> simp [firstEnd, ends, h, hn]
  | ahead p ih =>
      cases hp : ends p c <;> cases hn : next c <;> simp [firstEnd, ends, ih, hp, hn]
  | notAhead p ih =>
      cases hp : ends p c <;> cases hn : next c <;> simp [firstEnd, ends, ih, hp, hn]

end Pattern

end SourceChunks
