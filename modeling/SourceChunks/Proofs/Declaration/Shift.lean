import Mathlib
import SourceChunks.Proofs.Declaration.Offsets

/-!
# Declarations further on in a text

A declaration that stands `n` characters further on has all its offsets greater by `n`, and
the words in it stay the same.  Building a declaration from a match that is shifted gives
the declaration that is shifted, as long as the match has the parts that are asked for.

* `Declaration.shift`, `Outcome.shift`: the same further on.
* `part_shift`: the same for a part of a match.
* `callable_shift`, `functionOutcome_shift`, `serviceOutcome_shift`: the same for what is
  found behind a header.
-/

namespace SourceChunks

section

variable {α : Type}

/-- The same header `n` characters further on, where `move` tells what becomes of a part. -/
def Callable.shift (move : α → α) (n : Nat) (callable : Callable α) : Callable α where
  qualifiers := callable.qualifiers.map move
  parameters := move callable.parameters
  returns := callable.returns.map move
  opening := callable.opening + n

/-- The same header `n` characters further on. -/
def Service.shift (move : α → α) (n : Nat) (service : Service α) : Service α where
  path := service.path.map move
  listener := service.listener.map move
  opening := service.opening + n

/-- The same shape `n` characters further on. -/
def Shape.shift (move : α → α) (n : Nat) : Shape α → Shape α
  | importClause => .importClause
  | configurable isPublic type name => .configurable isPublic (move type) (move name)
  | moduleVariable type name => .moduleVariable (move type) (move name)
  | typeDefinition isPublic name => .typeDefinition isPublic (move name)
  | function isPublic name callable => .function isPublic (move name) (callable.shift move n)
  | .service header => .service (header.shift move n)
  | resource owner method path callable =>
      .resource (owner.shift move n) (move method) (move path) (callable.shift move n)
  | classDefinition isPublic name => .classDefinition isPublic (move name)
  | constant isPublic type name => .constant isPublic (type.map move) (move name)

/-- The same declaration `n` characters further on. -/
def Declaration.shift (move : α → α) (n : Nat) (d : Declaration α) : Declaration α where
  span := d.span.shift n
  shape := d.shape.shift move n

@[simp] theorem Shape.shift_kind (move : α → α) (n : Nat) (shape : Shape α) :
    (shape.shift move n).kind = shape.kind := by
  cases shape <;> rfl

theorem Shape.shift_opening (move : α → α) (n : Nat) (shape : Shape α) :
    (shape.shift move n).opening? = shape.opening?.map (· + n) := by
  cases shape <;> rfl

@[simp] theorem Declaration.shift_kind (move : α → α) (n : Nat) (d : Declaration α) :
    (d.shift move n).kind = d.kind :=
  Shape.shift_kind move n d.shape

theorem Declaration.shift_headerEnd (move : α → α) (n : Nat) (d : Declaration α) :
    (d.shift move n).headerEnd? = d.headerEnd?.map (· + n) :=
  Shape.shift_opening move n d.shape

end

/-- The same reason `n` characters further on. -/
def Skip.shift (n : Nat) : Skip → Skip
  | unmatched kind bracket offset => .unmatched kind bracket (offset + n)
  | withoutBody kind offset => .withoutBody kind (offset + n)
  | serviceMember name offset => .serviceMember (name.shift n) (offset + n)
  | serviceWithoutBody offset => .serviceWithoutBody (offset + n)

/-- The same outcome `n` characters further on. -/
def Outcome.shift (n : Nat) : Outcome → Outcome
  | declared d => .declared (d.shift (·.shift n) n)
  | skipped skip => .skipped (skip.shift n)

@[simp] theorem Outcome.shift_skip (n : Nat) (outcome : Outcome) :
    (outcome.shift n).skip? = outcome.skip?.map (·.shift n) := by
  cases outcome <;> rfl

theorem declarations_shift (n : Nat) (outcomes : List Outcome) :
    declarations (outcomes.map (·.shift n)) =
      (declarations outcomes).map (·.shift (·.shift n) n) := by
  rw [declarations, declarations, List.filterMap_map, List.map_filterMap]
  refine List.filterMap_congr fun outcome _ => ?_
  cases outcome <;> rfl

namespace Locate

/-- A part that is there is shifted with its match. -/
theorem part_shift (n : Nat) {m : Match Part} {label : Part} (hlabel : m.hasPart label = true) :
    part (m.shift n) label = (part m label).shift n := by
  obtain ⟨span, hspan⟩ := Option.isSome_iff_exists.mp hlabel
  rw [part, part, Match.part_shift, hspan]
  rfl

/-- A match has the parts that its pattern marks. -/
theorem hasPart_of_found {p : Pattern Part} {label : Part} (hp : p.Marks label) {text : List Char}
    {m : Match Part} (hm : p.Found text m) : m.hasPart label = true := by
  obtain ⟨front, rest, d, -, -, hd, rfl⟩ := hm
  obtain ⟨span, hspan⟩ := Pattern.exists_mark_of_mem_ends hp hd
  rw [Match.hasPart, Match.part?, Option.isSome_map, List.find?_isSome]
  exact ⟨_, hspan, by simp⟩

theorem part_shift_of_found {p : Pattern Part} {label : Part} (hp : p.Marks label)
    {text : List Char} {m : Match Part} (hm : p.Found text m) (n : Nat) :
    part (m.shift n) label = (part m label).shift n :=
  part_shift n (hasPart_of_found hp hm)

@[simp] theorem skip_shift (kind : Kind) (offset n : Nat) (e : CallableFailure) :
    CallableFailure.skip kind (offset + n) e = (CallableFailure.skip kind offset e).shift n := by
  cases e <;> rfl

@[simp] theorem callable_shift (n : Nat) (m : Match Part) (parts : CallableParts) :
    callable (m.shift n) (parts.shift n) = (callable m parts).shift (·.shift n) n := by
  rw [callable, callable, Match.parts_shift]
  rfl

/-- What becomes of the header of a function further on. -/
theorem functionOutcome_shift (front text : List Char) {m : Match Part}
    (hname : m.hasPart .name = true) :
    functionOutcome (front ++ text) (m.shift front.length) =
      (functionOutcome text m).shift front.length := by
  have hstop : (m.shift front.length).span.stop = m.span.stop + front.length := rfl
  rw [functionOutcome, functionOutcome, hstop, callableParts_shift, Match.hasPart_shift,
    part_shift _ hname]
  cases callableParts text m.span.stop with
  | error e => exact congrArg Outcome.skipped (skip_shift _ _ _ _)
  | ok parts =>
      show Outcome.declared ⟨_, .function _ _ (callable (m.shift _) (parts.shift _))⟩ = _
      rw [callable_shift]
      rfl

/-- What becomes of the header of a service further on. -/
theorem serviceOutcome_shift (front text : List Char) (m : Match Part) :
    serviceOutcome (front ++ text) (m.shift front.length) =
      (serviceOutcome text m).shift front.length := by
  rw [serviceOutcome, serviceOutcome, serviceOpening_shift]
  cases serviceOpening? text m with
  | none => rfl
  | some opening =>
      have hbehind : opening + front.length + 1 = opening + 1 + front.length :=
        Nat.add_right_comm _ _ _
      simp only [Option.map_some, hbehind]
      rw [drop_shift, Bracket.blockEndFrom, Bracket.blockEndFrom, closingFrom_shift]
      cases Bracket.closingFrom '{' '}' 0 (opening + 1) (text.drop (opening + 1)) with
      | none => rfl
      | some stop =>
          simp only [Option.map_some]
          rw [Match.part_shift, Match.part_shift, Match.hasPart_shift]
          refine congrArg Outcome.declared (congrArg (Declaration.mk _) (congrArg Shape.service ?_))
          rw [Service.shift, Service.mk.injEq]
          refine ⟨?_, ?_, rfl⟩
          · rw [Option.map_or]
          · split_ifs
            · rfl
            · rfl

end Locate

end SourceChunks
