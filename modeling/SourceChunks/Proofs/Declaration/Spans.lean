import Mathlib
import SourceChunks.Proofs.Declaration.Reading
import SourceChunks.Proofs.Pattern.Order
import SourceChunks.Proofs.Source.Matching

/-!
# Where declarations stand

A declaration begins in the match of its header and does not end before it.  The matches of a
search are in the order of the text, and so are the declarations that it finds.  Functions,
services and resources have their bodies between matching braces.

* `Covers`: how a declaration stands to the match of its header.
* `InOrder`: declarations with increasing beginnings, none of them empty.
* `inOrder_of_covers`: what follows for a search; `imports_inOrder` and the lemmas behind it
  are its cases.
* `HasBody`: a body between matching braces, behind a header.
* `DirectlyIn`: a declaration in a region, and in no block of it.
* `directlyIn_of_mem_resourcesOf`: resources stand directly in the body of their service.
-/

namespace SourceChunks

namespace Locate

open Pattern

variable {mask : List Char}

/-- A declaration begins in the match of its header, and does not end before it. -/
structure Covers (m : Match Part) (d : Declaration Span) : Prop where
  start_le : m.span.start ≤ d.span.start
  start_lt : d.span.start < m.span.stop
  stop_le : m.span.stop ≤ d.span.stop

/-- Each declaration begins before all later ones, and is not empty. -/
structure InOrder {α : Type} (ds : List (Declaration α)) : Prop where
  starts : ds.Pairwise (·.span.start < ·.span.start)
  nonempty : ∀ d ∈ ds, d.span.start < d.span.stop

/-- The declarations of a search are in order, if each of them covers its match. -/
theorem inOrder_of_covers {ms : List (Match Part)} {outcome? : Match Part → Option Outcome}
    (hms : ms.Pairwise Match.Precedes)
    (hcovers : ∀ m ∈ ms, ∀ d, outcome? m = some (.declared d) → Covers m d) :
    InOrder (declarations (ms.filterMap outcome?)) := by
  have hdeclared : declarations (ms.filterMap outcome?) =
      ms.filterMap fun m => (outcome? m).bind Outcome.declaration? := by
    rw [declarations, List.filterMap_filterMap]
  have hcovers' : ∀ m ∈ ms, ∀ d, (outcome? m).bind Outcome.declaration? = some d → Covers m d := by
    intro m hm d hd
    obtain ⟨outcome, houtcome, hdeclared⟩ := Option.bind_eq_some_iff.mp hd
    cases outcome with
    | skipped skip => contradiction
    | declared d' =>
        obtain rfl := Option.some.inj hdeclared
        exact hcovers m hm d' houtcome
  rw [hdeclared]
  constructor
  · -- A later match begins behind the end of this one, in which the declaration begins.
    rw [List.pairwise_filterMap]
    refine hms.imp_of_mem fun {m m'} hm hm' hprecedes d hd d' hd' => ?_
    have hbegins := (hcovers' m hm d hd).start_lt
    have hlater := (hcovers' m' hm' d' hd').start_le
    have hapart := hprecedes.2
    omega
  · intro d hd
    obtain ⟨m, hm, hd⟩ := List.mem_filterMap.mp hd
    obtain ⟨-, hlt, hle⟩ := hcovers' m hm d hd
    omega

/-- The same for a search that has an outcome for each of its matches. -/
theorem inOrder_map {ms : List (Match Part)} {outcome : Match Part → Outcome}
    (hms : ms.Pairwise Match.Precedes)
    (hcovers : ∀ m ∈ ms, ∀ d, outcome m = .declared d → Covers m d) :
    InOrder (declarations (ms.map outcome)) := by
  rw [← List.filterMap_eq_map]
  exact inOrder_of_covers hms fun m hm d hd => hcovers m hm d (Option.some.inj hd)

theorem pairwise_topLevelMatches (p : Pattern Part) (mask : List Char) :
    (topLevelMatches p mask).Pairwise Match.Precedes :=
  (p.pairwise_allMatches mask).filter _

/-- A declaration that begins with its match, and goes on at least to its end, covers it. -/
theorem covers_of_found {p : Pattern Part} (hp : p.progresses = true) {text : List Char}
    {m : Match Part} (hm : p.Found text m) {stop : Nat} (hstop : m.span.stop ≤ stop)
    (shape : Shape Span) : Covers m ⟨⟨m.span.start, stop⟩, shape⟩ where
  start_le := le_refl _
  start_lt := start_lt_stop_of_found (consumes_of_progresses hp) hm
  stop_le := hstop

/-! ## Declarations that end with a semicolon -/

theorem wholeMatches_inOrder {p : Pattern Part} (hp : p.progresses = true)
    (shape : Match Part → Shape Span) (mask : List Char) :
    InOrder (declarations ((topLevelMatches p mask).map fun m => .declared ⟨m.span, shape m⟩)) := by
  refine inOrder_map (pairwise_topLevelMatches p mask) fun m hm d hd => ?_
  obtain rfl := Outcome.declared.inj hd
  exact covers_of_found hp (found_of_mem_topLevel hm) (le_refl _) (shape m)

theorem imports_inOrder (mask : List Char) : InOrder (declarations (imports mask)) :=
  wholeMatches_inOrder (by decide) (fun _ => .importClause) mask

theorem configurables_inOrder (mask : List Char) : InOrder (declarations (configurables mask)) :=
  wholeMatches_inOrder (by decide) _ mask

theorem constants_inOrder (mask : List Char) : InOrder (declarations (constants mask)) :=
  wholeMatches_inOrder (by decide) _ mask

/-- The statement of a variable is the end of its match, behind the white space that begins
its line. -/
theorem statement_of_found {m : Match Part} (hm : Patterns.moduleVariable.Found mask m) :
    m.span.start ≤ (part m .statement).start ∧ (part m .statement).start < m.span.stop ∧
      (part m .statement).stop = m.span.stop := by
  obtain ⟨front, rest, d, rfl, -, hd, rfl⟩ := hm
  obtain ⟨e, he, hd⟩ := List.mem_flatMap.mp hd
  obtain ⟨f, hf, rfl⟩ := List.mem_map.mp hd
  -- The mark of the statement is the latest one.
  have hpart : part ⟨⟨front.length, (f.withMark .statement e.offset).offset⟩,
      (f.withMark .statement e.offset).marks⟩ .statement = ⟨e.offset, f.offset⟩ := by
    simp [part, Match.part?, Cursor.withMark]
  rw [hpart]
  have hlt := offset_lt_of_mem_ends (consumes_of_progresses (by decide)) hf
  refine ⟨?_, hlt, rfl⟩
  obtain ⟨passed, hlead⟩ := leads_of_mem_ends he
  rw [hlead.offset_eq]
  exact Nat.le_add_right _ _

theorem moduleVariables_inOrder (mask : List Char) :
    InOrder (declarations (moduleVariables mask)) := by
  refine inOrder_of_covers (Patterns.moduleVariable.pairwise_allMatches mask) fun m hm d hd => ?_
  obtain ⟨hle, hlt, hstop⟩ := statement_of_found (found_of_mem_allMatches hm)
  simp only [Option.ite_none_left_eq_some, Option.some.injEq, Outcome.declared.injEq] at hd
  obtain ⟨-, -, rfl⟩ := hd
  exact ⟨hle, hlt, hstop.ge⟩

/-! ## Declarations that end with a semicolon or a block -/

theorem blockStatements_inOrder {p : Pattern Part} (hp : p.progresses = true) (kind : Kind)
    (shape : Match Part → Shape Span) (mask : List Char) :
    InOrder (declarations (blockStatements p kind shape mask)) := by
  refine inOrder_map (pairwise_topLevelMatches p mask) fun m hm d hd => ?_
  cases hend : statementEndFrom m.span.stop (mask.drop m.span.stop) with
  | none => rw [hend] at hd; contradiction
  | some stop =>
      rw [hend] at hd
      obtain rfl := Outcome.declared.inj hd
      exact covers_of_found hp (found_of_mem_topLevel hm) (statementEndFrom_bounds hend).1.le (shape m)

theorem typeDefinitions_inOrder (mask : List Char) : InOrder (declarations (typeDefinitions mask)) :=
  blockStatements_inOrder (by decide) _ _ mask

theorem classes_inOrder (mask : List Char) : InOrder (declarations (classes mask)) :=
  blockStatements_inOrder (by decide) _ _ mask

/-! ## Declarations with a body -/

/-- The body of a declaration stands behind its header, between matching braces. -/
def HasBody {α : Type} (mask : List Char) (d : Declaration α) : Prop :=
  ∃ opening, d.headerEnd? = some opening ∧ d.span.start < opening ∧
    Encloses mask opening d.span.stop

/-- The body of a function or resource comes behind its match. -/
theorem encloses_of_callableParts {start : Nat} {parts : CallableParts}
    (h : callableParts mask start = .ok parts) :
    start < parts.tail.opening ∧ Encloses mask parts.tail.opening parts.stop := by
  obtain ⟨behind, front, body, hbehind, -, hmask, hfront, hstop, -, hle⟩ := exists_of_callableParts h
  rw [← hfront] at hstop
  constructor
  · have hlt := (closingFrom_bounds hbehind).1
    omega
  · rw [← hfront]
    exact encloses_of_blockEnd hmask hstop

theorem functions_inOrder (mask : List Char) : InOrder (declarations (functions mask)) := by
  refine inOrder_map (Patterns.function.pairwise_allMatches mask) fun m hm d hd => ?_
  split_ifs at hd
  obtain ⟨parts, hparts, rfl⟩ := functionOutcome_eq_declared.mp hd
  obtain ⟨hlt, hbody⟩ := encloses_of_callableParts hparts
  have hstop := hbody.bounds.1
  exact covers_of_found (by decide) (found_of_mem_allMatches hm) (by omega) _

theorem functions_hasBody {d : Declaration Span} (hd : d ∈ declarations (functions mask)) :
    HasBody mask d := by
  obtain ⟨m, hm, -, parts, hparts, rfl⟩ := mem_functions.mp hd
  obtain ⟨hlt, hbody⟩ := encloses_of_callableParts hparts
  have hle := (bounds_of_found (found_of_mem_allMatches hm)).1
  exact ⟨parts.tail.opening, rfl, lt_of_le_of_lt hle hlt, hbody⟩

/-! ## Services -/

/-- The body of a service comes behind its match. -/
theorem encloses_of_serviceOpening {m : Match Part} {opening stop : Nat}
    (hm : m.span.stop ≤ mask.length) (hopening : serviceOpening? mask m = some opening)
    (hstop : Bracket.blockEndFrom (opening + 1) (mask.drop (opening + 1)) = some stop) :
    m.span.stop ≤ opening ∧ Encloses mask opening stop := by
  obtain ⟨gap, body, hbody, hsplit⟩ := serviceOpening_bounds hm hopening
  obtain ⟨hbehind, -⟩ := drop_behind hbody
  have hmask : mask = mask.take m.span.stop ++ gap ++ '{' :: body := by
    rw [List.append_assoc, ← hbody, List.take_append_drop]
  have hfront : (mask.take m.span.stop ++ gap).length = opening := by
    rw [List.length_append, List.length_take_of_le hm, hsplit]
  rw [hsplit, hbehind, ← hsplit, ← hfront] at hstop
  constructor
  · omega
  · rw [← hfront]
    exact encloses_of_blockEnd hmask hstop

theorem services_inOrder (mask : List Char) : InOrder (declarations (services mask)) := by
  refine inOrder_map (pairwise_topLevelMatches Patterns.service mask) fun m hm d hd => ?_
  have hfound := found_of_mem_topLevel hm
  obtain ⟨opening, stop, hopening, hstop, rfl⟩ := serviceOutcome_eq_declared.mp hd
  obtain ⟨hle, hbody⟩ := encloses_of_serviceOpening (bounds_of_found hfound).2.1 hopening hstop
  have hlt := hbody.bounds.1
  exact covers_of_found (by decide) hfound (by omega) _

theorem services_hasBody {d : Declaration Span} (hd : d ∈ declarations (services mask)) :
    HasBody mask d := by
  obtain ⟨m, hm, opening, stop, hopening, hstop, rfl⟩ := mem_services hd
  have hfound := found_of_mem_topLevel hm
  obtain ⟨hle, hbody⟩ := encloses_of_serviceOpening (bounds_of_found hfound).2.1 hopening hstop
  have hlt := start_lt_stop_of_found (consumes_of_progresses (by decide)) hfound
  exact ⟨opening, rfl, lt_of_lt_of_le hlt hle, hbody⟩

/-! ## Resources -/

section

variable {owner : Service Span} {body : Span}

theorem resources_inOrder (owner : Service Span) (hle : body.start ≤ body.stop)
    (hstop : body.stop ≤ mask.length) : InOrder (declarations (resources mask owner body)) := by
  rw [resources_eq]
  refine inOrder_of_covers (Patterns.resource.pairwise_matchesIn mask body) fun m hm d hd => ?_
  obtain ⟨-, parts, hparts, -, rfl⟩ := resourceOutcome_eq_declared.mp hd
  obtain ⟨hlt, hbody⟩ := encloses_of_callableParts hparts
  have hbehind := hbody.bounds.1
  exact covers_of_found (by decide) (found_of_mem_matchesIn hle hstop hm) (by omega) _

theorem resources_hasBody (hle : body.start ≤ body.stop) (hstop : body.stop ≤ mask.length)
    {d : Declaration Span} (hd : d ∈ declarations (resources mask owner body)) :
    HasBody mask d := by
  obtain ⟨m, hm, -, parts, hparts, -, rfl⟩ := mem_resources.mp hd
  obtain ⟨hlt, hbody⟩ := encloses_of_callableParts hparts
  have hbegins := (bounds_of_found (found_of_mem_matchesIn hle hstop hm)).1
  exact ⟨parts.tail.opening, rfl, lt_of_le_of_lt hbegins hlt, hbody⟩

end

/-- A declaration stands in a region, and what is before it in the region is balanced: it is
in no block of the region. -/
structure DirectlyIn {α : Type} (mask : List Char) (region : Span) (d : Declaration α) : Prop where
  start_le : region.start ≤ d.span.start
  stop_le : d.span.stop ≤ region.stop
  balanced : Balanced '{' '}' (Span.slice ⟨region.start, d.span.start⟩ mask)

/-- In a balanced inside, a resource stands where as many blocks were closed as opened. -/
theorem directlyIn_of_mem_resources {front inside behind : List Char} {owner : Service Span}
    (hinside : Balanced '{' '}' inside) {d : Declaration Span}
    (hd : d ∈ declarations (resources (front ++ (inside ++ behind)) owner
      ⟨front.length, front.length + inside.length⟩)) :
    DirectlyIn (front ++ (inside ++ behind)) ⟨front.length, front.length + inside.length⟩ d := by
  obtain ⟨m, hm, htop, parts, hparts, hstop, rfl⟩ := mem_resources.mp hd
  have hstart : front.length ≤ m.span.start := le_start_of_mem_matchesFrom hm
  have hfound := found_of_mem_matchesIn (Nat.le_add_right _ _)
    (by simp only [List.length_append]; omega) hm
  obtain ⟨hlt, hbody⟩ := encloses_of_callableParts hparts
  have hbegins := (bounds_of_found hfound).1
  have hbehind := hbody.bounds.1
  simp only at hstop
  -- The inside up to the resource, and the rest of it.
  obtain ⟨passed, rest, rfl, hpassed⟩ : ∃ passed rest, inside = passed ++ rest ∧
      front.length + passed.length = m.span.start := by
    refine ⟨inside.take (m.span.start - front.length), _, (List.take_append_drop _ _).symm, ?_⟩
    rw [List.length_take]
    omega
  have hrest : rest ≠ [] := by
    rintro rfl
    rw [List.append_nil] at hstop
    omega
  rw [← hpassed, isTopLevel_ofRegion_iff front passed rest behind hrest] at htop
  refine ⟨hstart, hstop, ?_⟩
  have hslice : Span.slice ⟨front.length, m.span.start⟩ (front ++ (passed ++ rest ++ behind)) =
      passed := by
    rw [← hpassed, Span.slice, List.drop_left, Nat.add_sub_cancel_left, List.append_assoc,
      List.take_left]
  show Balanced _ _ (Span.slice ⟨front.length, m.span.start⟩ _)
  rw [hslice]
  exact balanced_of_blockDepth hinside (List.prefix_append _ _) htop

/-- The body of a service, as a balanced stretch of the mask. -/
theorem exists_body_of_service {d : Declaration Span} (hd : d ∈ declarations (services mask)) :
    ∃ header front inside behind, d.shape = .service header ∧
      mask = front ++ (inside ++ behind) ∧ Balanced '{' '}' inside ∧
      d.body? = some ⟨front.length, front.length + inside.length⟩ ∧
      resourcesOf mask (.declared d) =
        resources mask header ⟨front.length, front.length + inside.length⟩ := by
  obtain ⟨header, hshape, -⟩ := service_bounds hd
  obtain ⟨opening, hopening, -, front, inside, behind, hmask, hfront, hstop, hinside⟩ :=
    services_hasBody hd
  obtain ⟨span, shape⟩ := d
  obtain rfl : shape = .service header := hshape
  obtain rfl : header.opening = opening := Option.some.inj hopening
  simp only at hstop
  have hbody : (⟨header.opening + 1, span.stop - 1⟩ : Span) =
      ⟨(front ++ ['{']).length, (front ++ ['{']).length + inside.length⟩ := by
    rw [Span.mk.injEq, List.length_append, List.length_singleton, hfront]
    exact ⟨rfl, by omega⟩
  refine ⟨header, front ++ ['{'], inside, '}' :: behind, rfl, by simpa using hmask, hinside, ?_, ?_⟩
  · rw [← hbody]
    rfl
  · rw [← hbody]
    rfl

/-- The resources of a service stand directly in its body. -/
theorem directlyIn_of_mem_resourcesOf {s : Declaration Span}
    (hs : s ∈ declarations (services mask)) :
    ∃ body, s.body? = some body ∧
      ∀ r ∈ declarations (resourcesOf mask (.declared s)), DirectlyIn mask body r ∧ HasBody mask r := by
  obtain ⟨header, front, inside, behind, -, hmask, hinside, hbody, hresources⟩ :=
    exists_body_of_service hs
  have hlength : front.length + inside.length ≤ mask.length := by
    rw [hmask, List.length_append, List.length_append]
    omega
  refine ⟨_, hbody, fun r hr => ?_⟩
  rw [hresources] at hr
  refine ⟨?_, resources_hasBody (Nat.le_add_right _ _) hlength hr⟩
  rw [hmask] at hr ⊢
  exact directlyIn_of_mem_resources hinside hr

theorem resourcesOf_inOrder {s : Declaration Span} (hs : s ∈ declarations (services mask)) :
    InOrder (declarations (resourcesOf mask (.declared s))) := by
  obtain ⟨header, front, inside, behind, -, hmask, -, -, hresources⟩ := exists_body_of_service hs
  rw [hresources]
  apply resources_inOrder
  · exact Nat.le_add_right _ _
  · rw [hmask, List.length_append, List.length_append]
    show front.length + inside.length ≤ _
    omega

end Locate

end SourceChunks
