import Mathlib
import SourceChunks.Proofs.Declaration.Seam
import SourceChunks.Proofs.Declaration.Shift
import SourceChunks.Proofs.Pattern.Order

/-!
# Declarations in two masks

A mask that ends with a semicolon and white space, and in which the brackets of each kind
are balanced, is complete: nothing that is looked for in it runs into what follows it, and
nothing that is looked for behind it depends on it.

* `Complete`: what is asked of the first mask, and nothing of the second.
* `Splits`: a search finds in both what it finds in the first and, further on, what it
  finds in the second.
* `imports_splits` and the lemmas behind it: every search for declarations does.
* `resourcesOf_append`, `resourcesOf_shift`: the resources of each service.
-/

namespace SourceChunks

/-- A text ends with a semicolon and white space, and closes exactly what it opens. -/
structure Complete (tail text : List Char) : Prop extends Seam tail text where
  parens : level '(' ')' 0 text = some 0
  squares : level '[' ']' 0 text = some 0
  braces : level '{' '}' 0 text = some 0

theorem Complete.settled {tail text front rest : List Char} (h : Complete tail text)
    (htext : text = front ++ rest) (hsuffix : ';' :: tail <:+ rest) : Settled tail rest where
  suffix := hsuffix
  blank := h.blank
  parens := exists_level_of_append (htext ▸ h.parens)
  squares := exists_level_of_append (htext ▸ h.squares)
  braces := exists_level_of_append (htext ▸ h.braces)

theorem Complete.settled_drop {tail text : List Char} {offset : Nat} (h : Complete tail text)
    (hsuffix : ';' :: tail <:+ text.drop offset) : Settled tail (text.drop offset) :=
  h.settled (List.take_append_drop offset text).symm hsuffix

namespace Locate

open Pattern

variable {tail text more : List Char} {p : Pattern Part}

/-! ## Matches -/

/-- A match and what it marks lie in the text. -/
theorem bounds_of_found {m : Match Part} (hm : p.Found text m) :
    m.span.start ≤ m.span.stop ∧ m.span.stop ≤ text.length ∧
      ∀ mark ∈ m.marks, mark.2.start ≤ mark.2.stop ∧ mark.2.stop ≤ text.length := by
  obtain ⟨front, rest, d, rfl, -, hd, rfl⟩ := hm
  obtain ⟨passed, hlead⟩ := leads_of_mem_ends hd
  have hrest : rest = passed ++ d.rest := hlead.rest_eq
  have hoffset : d.offset = front.length + passed.length := hlead.offset_eq
  have hstop : d.offset ≤ (front ++ rest).length := by
    rw [hrest, List.length_append, List.length_append, hoffset]
    omega
  refine ⟨?_, hstop, fun mark hmark => ?_⟩
  · show front.length ≤ d.offset
    omega
  · obtain ⟨marks, hmarks, hbounds⟩ := hlead.marks_eq
    have hmem : mark ∈ marks := by
      rw [← List.append_nil marks, ← hmarks]
      exact hmark
    obtain ⟨-, hle, hend⟩ := hbounds mark hmem
    exact ⟨hle, hend.trans hstop⟩

theorem part_bounds {m : Match Part} (hm : p.Found text m) (label : Part) :
    (part m label).start ≤ (part m label).stop ∧ (part m label).stop ≤ text.length := by
  rw [part, Match.part?]
  cases hmark : m.marks.find? (·.1 = label) with
  | none => exact ⟨le_refl _, Nat.zero_le _⟩
  | some mark => exact (bounds_of_found hm).2.2 mark (List.mem_of_find?_eq_some hmark)

theorem found_of_mem_topLevel {m : Match Part} (hm : m ∈ topLevelMatches p text) :
    p.Found text m :=
  found_of_mem_allMatches (List.mem_filter.mp hm).1

theorem topLevelMatches_append (h : Complete tail text) (hp : p.Local tail more)
    (hedge : p.AtEdge) :
    topLevelMatches p (text ++ more) =
      topLevelMatches p text ++ (topLevelMatches p more).map (·.shift text.length) := by
  rw [topLevelMatches, topLevelMatches, topLevelMatches,
    allMatches_append_of_atEdge h.toSeam hp hedge, List.filter_append, List.filter_map]
  congr 1
  · refine List.filter_congr fun m hm => ?_
    obtain ⟨hle, hstop, -⟩ := bounds_of_found (found_of_mem_allMatches hm)
    exact BlockMap.isTopLevel_left h.braces more (hle.trans hstop)
  · refine congrArg (List.map _) (List.filter_congr fun m _ => ?_)
    exact BlockMap.isTopLevel_right h.braces more m.span.start

/-- Behind a match of a pattern that stays before the semicolon, the text is settled. -/
theorem settled_of_found (h : Complete tail text) (hp : p.Stays tail more) (hedge : p.AtEdge)
    {m : Match Part} (hm : p.Found text m) :
    m.span.stop ≤ text.length ∧ Settled tail (text.drop m.span.stop) := by
  obtain ⟨hstop, hsuffix⟩ := suffix_of_found h.toSeam hp hedge hm
  exact ⟨hstop, h.settled_drop hsuffix⟩

/-- If a pattern ends with a parenthesis, that is settled too. -/
theorem settled_paren_of_found {front rest : List Char} (h : Complete tail text)
    (htext : text = front ++ rest) {m : Match Part}
    (hm : (p ++ one (· == '(')).Found front m) (hsuffix : ';' :: tail <:+ text.drop m.span.stop) :
    m.span.stop ≤ text.length ∧ Settled tail ('(' :: text.drop m.span.stop) := by
  -- The match ends right behind its parenthesis, so that one step back is the parenthesis.
  obtain ⟨before, x, after, rfl, hx, hstop⟩ := exists_of_found_one hm
  obtain rfl : x = '(' := beq_iff_eq.mp hx
  have hsplit : text = before ++ '(' :: (after ++ rest) := by
    rw [htext, List.append_assoc]
    rfl
  have hdrop : text.drop m.span.stop = after ++ rest := by
    rw [hstop, hsplit, ← List.drop_drop, List.drop_left]
    rfl
  rw [hdrop] at hsuffix ⊢
  refine ⟨?_, h.settled hsplit (hsuffix.trans (List.suffix_cons _ _))⟩
  rw [hstop, hsplit]
  simp only [List.length_append, List.length_cons]
  omega

/-! ## Searches -/

/-- A search finds in two texts what it finds in the first and, further on, what it finds
in the second. -/
def Splits (search : List Char → List Outcome) (text more : List Char) : Prop :=
  search (text ++ more) = search text ++ (search more).map (·.shift text.length)

/-- A search splits if its matches do and each of them stands for the same outcome. -/
theorem splits_map {matches' : List Char → List (Match Part)} {f : List Char → Match Part → Outcome}
    (hmatches : matches' (text ++ more) =
      matches' text ++ (matches' more).map (·.shift text.length))
    (hleft : ∀ m ∈ matches' text, f (text ++ more) m = f text m)
    (hright : ∀ m ∈ matches' more, f (text ++ more) (m.shift text.length) =
      (f more m).shift text.length) :
    Splits (fun mask => (matches' mask).map (f mask)) text more := by
  show (matches' (text ++ more)).map _ = _
  rw [hmatches, List.map_append, List.map_map, List.map_map, List.map_congr_left hleft]
  exact congrArg _ (List.map_congr_left hright)

/-! ## Declarations that end with a semicolon -/

/-- A search for declarations that are whole matches splits if their shapes are shifted. -/
theorem wholeMatches_splits (h : Complete tail text) (pattern : Pattern Part)
    (hp : pattern.Local tail more) (hedge : pattern.AtEdge) (shape : Match Part → Shape Span)
    (hshape : ∀ m, pattern.Found more m →
      shape (m.shift text.length) = (shape m).shift (·.shift text.length) text.length) :
    Splits (fun mask => (topLevelMatches pattern mask).map fun m => .declared ⟨m.span, shape m⟩)
      text more := by
  refine splits_map (topLevelMatches_append h hp hedge) (fun _ _ => rfl) fun m hm => ?_
  rw [hshape m (found_of_mem_topLevel hm)]
  rfl

theorem imports_splits (h : Complete tail text) : Splits imports text more :=
  wholeMatches_splits h Patterns.importClause (local_of_stops (by decide)) trivial
    (fun _ => .importClause) fun _ _ => rfl

theorem configurables_splits (h : Complete tail text) : Splits configurables text more := by
  refine wholeMatches_splits h Patterns.configurable (local_of_stops (by decide)) trivial
    (fun m => .configurable (m.hasPart .visibility) (part m .type) (part m .name)) fun m hm => ?_
  have htype : Patterns.configurable.Marks .type := by decide
  have hname : Patterns.configurable.Marks .name := by decide
  rw [Match.hasPart_shift, part_shift_of_found htype hm, part_shift_of_found hname hm]
  rfl

theorem constants_splits (h : Complete tail text) : Splits constants text more := by
  refine wholeMatches_splits h Patterns.constant (local_of_stops (by decide)) trivial
    (fun m => .constant (m.hasPart .visibility) (m.part? .type) (part m .name)) fun m hm => ?_
  have hname : Patterns.constant.Marks .name := by decide
  rw [Match.hasPart_shift, Match.part_shift, part_shift_of_found hname hm]
  rfl

/-- A variable is told by its type, its name and its statement, all of which are shifted. -/
theorem moduleVariables_splits (h : Complete tail text) : Splits moduleVariables text more := by
  -- Its pattern begins at the start of a line, and not at the edge of a word.
  have hmatches := Patterns.allMatches_append_moduleVariable h.toSeam more
  show moduleVariables (text ++ more) = _
  rw [moduleVariables, moduleVariables, moduleVariables, hmatches, List.filterMap_append,
    List.filterMap_map, List.map_filterMap]
  congr 1
  · refine List.filterMap_congr fun m hm => ?_
    have hfound := found_of_mem_allMatches hm
    obtain ⟨hle, hstop⟩ := part_bounds hfound .statement
    simp only
    rw [Span.slice_append _ _ (part_bounds hfound .type).2,
      BlockMap.isTopLevel_left h.braces more (hle.trans hstop)]
  · refine List.filterMap_congr fun m hm => ?_
    have hfound := found_of_mem_allMatches hm
    have htype : Patterns.moduleVariable.Marks .type := by decide
    have hname : Patterns.moduleVariable.Marks .name := by decide
    have hstatement : Patterns.moduleVariable.Marks .statement := by decide
    simp only [Function.comp_apply]
    rw [part_shift_of_found htype hfound, part_shift_of_found hname hfound,
      part_shift_of_found hstatement hfound, Span.slice_shift]
    have htop := BlockMap.isTopLevel_right h.braces more (part m .statement).start
    rw [show ((part m .statement).shift text.length).start =
      (part m .statement).start + text.length from rfl, htop]
    split_ifs
    · rfl
    · rfl
    · rfl

/-! ## Declarations that end with a semicolon or a block -/

theorem blockStatements_splits (h : Complete tail text) (pattern : Pattern Part)
    (hp : pattern.Stays tail more) (hedge : pattern.AtEdge) (kind : Kind)
    (shape : Match Part → Shape Span)
    (hshape : ∀ m, pattern.Found more m →
      shape (m.shift text.length) = (shape m).shift (·.shift text.length) text.length) :
    Splits (blockStatements pattern kind shape) text more := by
  refine splits_map (topLevelMatches_append h hp.isLocal hedge) (fun m hm => ?_) fun m hm => ?_
  · obtain ⟨hstop, hsettled⟩ := settled_of_found h hp hedge (found_of_mem_topLevel hm)
    rw [List.drop_append_of_le_length hstop, statementEndFrom_append _ hsettled]
  · have hstop : (m.shift text.length).span.stop = m.span.stop + text.length := rfl
    rw [hstop, drop_shift, statementEndFrom_shift, hshape m (found_of_mem_topLevel hm)]
    cases statementEndFrom m.span.stop (more.drop m.span.stop) with
    | none => rfl
    | some stop => rfl

theorem typeDefinitions_splits (h : Complete tail text) : Splits typeDefinitions text more := by
  refine blockStatements_splits h Patterns.typeDefinition (stays_of_stops (by decide)) trivial _ _
    fun m hm => ?_
  have hname : Patterns.typeDefinition.Marks .name := by decide
  rw [Match.hasPart_shift, part_shift_of_found hname hm]
  rfl

theorem classes_splits (h : Complete tail text) : Splits classes text more := by
  refine blockStatements_splits h Patterns.classDefinition (stays_of_stops (by decide)) trivial _ _
    fun m hm => ?_
  have hname : Patterns.classDefinition.Marks .name := by decide
  rw [Match.hasPart_shift, part_shift_of_found hname hm]
  rfl

/-! ## Services -/

theorem stays_service (h : Complete tail text) : Patterns.service.Stays tail more :=
  Patterns.stays_service h.blank (Patterns.newline_mem h.toSeam)

theorem serviceOutcome_append (h : Complete tail text) {m : Match Part}
    (hm : m ∈ topLevelMatches Patterns.service text) (more : List Char) :
    serviceOutcome (text ++ more) m = serviceOutcome text m := by
  have hstays : Patterns.service.Stays tail more := stays_service h
  obtain ⟨hstop, hsettled⟩ := settled_of_found h hstays trivial (found_of_mem_topLevel hm)
  rw [serviceOutcome, serviceOutcome, serviceOpening_append hstop hsettled]
  cases hopening : serviceOpening? text m with
  | none => rfl
  | some opening =>
      obtain ⟨gap, body, hbody, hopening⟩ := serviceOpening_bounds hstop hopening
      simp only
      rw [blockEndFrom_append hsettled hbody hopening]

theorem services_splits (h : Complete tail text) : Splits services text more :=
  splits_map (topLevelMatches_append h (stays_service h).isLocal trivial)
    (fun _ hm => serviceOutcome_append h hm more) fun m _ => serviceOutcome_shift text more m

/-- Where the body of a service stands. -/
theorem service_bounds {d : Declaration Span} (hd : d ∈ declarations (services text)) :
    ∃ header, d.shape = .service header ∧ header.opening + 1 < d.span.stop ∧
      d.span.stop ≤ text.length ∧
      Bracket.blockEndFrom (header.opening + 1) (text.drop (header.opening + 1)) =
        some d.span.stop := by
  obtain ⟨m, hm, opening, stop, hopening, hstop, rfl⟩ := mem_services hd
  obtain ⟨-, hle, -⟩ := bounds_of_found (found_of_mem_topLevel hm)
  obtain ⟨gap, body, hbody, hsplit⟩ := serviceOpening_bounds hle hopening
  obtain ⟨hbehind, hend⟩ := drop_behind hbody
  obtain ⟨hlt, hbound⟩ := closingFrom_bounds hstop
  rw [List.length_drop] at hbound
  rw [← hsplit] at hend
  exact ⟨_, rfl, hlt, by show stop ≤ _; omega, hstop⟩

/-- The last semicolon stands behind the body of every service. -/
theorem suffix_of_service (h : Complete tail text) {d : Declaration Span}
    (hd : d ∈ declarations (services text)) : ';' :: tail <:+ text.drop d.span.stop := by
  obtain ⟨m, hm, opening, stop, hopening, hstop, rfl⟩ := mem_services hd
  have hstays : Patterns.service.Stays tail [] := stays_service h
  obtain ⟨hle, hsettled⟩ := settled_of_found h hstays trivial (found_of_mem_topLevel hm)
  obtain ⟨gap, body, hbody, hsplit⟩ := serviceOpening_bounds hle hopening
  obtain ⟨hbehind, -⟩ := drop_behind hbody
  rw [← hsplit] at hbehind
  rw [hbody] at hsettled
  have hbodySettled : Settled tail (text.drop (opening + 1)) := by
    rw [hbehind]
    exact hsettled.behind (by decide) (by decide)
  -- The brace that closes the body comes before the last semicolon.
  have hclosed := settled_of_closingFrom hbodySettled
    (hbodySettled.notMem (by decide) (by decide)) hstop
  obtain ⟨hlt, -⟩ := closingFrom_bounds hstop
  rw [List.drop_drop, Nat.add_sub_cancel' hlt.le] at hclosed
  exact hclosed.suffix

/-! ## Resources -/

theorem resources_append (h : Complete tail text) {body : Span} (hle : body.start ≤ body.stop)
    (hstop : body.stop ≤ text.length) (hsuffix : ';' :: tail <:+ text.drop body.stop)
    (service : Service Span) (more : List Char) :
    resources (text ++ more) service body = resources text service body := by
  have hscope : BlockMap.ofRegion (text ++ more) body = BlockMap.ofRegion text body := by
    rw [BlockMap.ofRegion, BlockMap.ofRegion, Span.slice_append more body hstop]
  rw [resources, resources, hscope, matchesIn_append _ hle hstop]
  refine List.filterMap_congr fun m hm => ?_
  have hfound := found_of_mem_matchesIn hle hstop hm
  obtain ⟨-, hend, -⟩ := bounds_of_found hfound
  have hend' : m.span.stop ≤ body.stop := hend.trans (List.length_take_le _ _)
  have hbehind : text.drop body.stop <:+ text.drop m.span.stop := by
    rw [← Nat.add_sub_cancel' hend', ← List.drop_drop]
    exact List.drop_suffix _ _
  obtain ⟨hbound, hsettled⟩ := settled_paren_of_found h (List.take_append_drop body.stop text).symm
    hfound (hsuffix.trans hbehind)
  rw [callableParts_append hbound hsettled]

theorem resources_shift (front : List Char) {body : Span} (hstart : body.start ≠ 0)
    (hle : body.start ≤ body.stop) (hstop : body.stop ≤ text.length) (service : Service Span) :
    resources (front ++ text) (service.shift (·.shift front.length) front.length)
        (body.shift front.length) =
      (resources text service body).map (·.shift front.length) := by
  rw [resources, resources, matchesIn_shift _ _ _ hstart (hle.trans hstop), List.filterMap_map,
    List.map_filterMap]
  refine List.filterMap_congr fun m hm => ?_
  have hfound := found_of_mem_matchesIn hle hstop hm
  have hmethod : Patterns.resource.Marks .method := by decide
  have hpath : Patterns.resource.Marks .path := by decide
  have htop := BlockMap.isTopLevel_ofRegion_shift front text body m.span.start
  have hspan : (m.shift front.length).span =
      ⟨m.span.start + front.length, m.span.stop + front.length⟩ := rfl
  simp only [Function.comp_apply]
  rw [hspan, htop, callableParts_shift, part_shift_of_found hmethod hfound,
    part_shift_of_found hpath hfound]
  split_ifs
  · rfl
  · cases callableParts text m.span.stop with
    | error e => exact congrArg (some ∘ Outcome.skipped) (skip_shift _ _ _ _)
    | ok parts =>
        have hstops : parts.stop + front.length > body.stop + front.length ↔
            parts.stop > body.stop := Nat.add_lt_add_iff_right
        show (if parts.stop + front.length > body.stop + front.length then none else
          some (Outcome.declared ⟨_, .resource _ _ _ (callable (m.shift _) (parts.shift _))⟩)) = _
        simp only [hstops]
        split_ifs
        · rfl
        · rw [callable_shift]
          rfl

/-- The resources of a service of the first text stay what they are. -/
theorem resourcesOf_append (h : Complete tail text) {outcome : Outcome}
    (houtcome : outcome ∈ services text) (more : List Char) :
    resourcesOf (text ++ more) outcome = resourcesOf text outcome := by
  cases outcome with
  | skipped skip => rfl
  | declared d =>
      have hd : d ∈ declarations (services text) := List.mem_filterMap.mpr ⟨_, houtcome, rfl⟩
      obtain ⟨header, hshape, hlt, hstop, -⟩ := service_bounds hd
      have hsuffix := suffix_of_service h hd
      have hbefore : text.drop d.span.stop <:+ text.drop (d.span.stop - 1) := by
        rw [show d.span.stop = d.span.stop - 1 + 1 by omega, ← List.drop_drop]
        exact List.drop_suffix _ _
      obtain ⟨span, shape⟩ := d
      obtain rfl : shape = .service header := hshape
      simp only at hlt hstop
      exact resources_append h (by show header.opening + 1 ≤ span.stop - 1; omega)
        (by show span.stop - 1 ≤ _; omega) (hsuffix.trans hbefore) header more

/-- The resources of a service further on are further on. -/
theorem resourcesOf_shift (front : List Char) {outcome : Outcome}
    (houtcome : outcome ∈ services text) :
    resourcesOf (front ++ text) (outcome.shift front.length) =
      (resourcesOf text outcome).map (·.shift front.length) := by
  cases outcome with
  | skipped skip => rfl
  | declared d =>
      have hd : d ∈ declarations (services text) := List.mem_filterMap.mpr ⟨_, houtcome, rfl⟩
      obtain ⟨header, hshape, hlt, hstop, -⟩ := service_bounds hd
      obtain ⟨span, shape⟩ := d
      obtain rfl : shape = .service header := hshape
      simp only at hlt hstop
      have hbody : (⟨header.opening + front.length + 1, span.stop + front.length - 1⟩ : Span) =
          Span.shift ⟨header.opening + 1, span.stop - 1⟩ front.length := by
        rw [Span.shift, Span.mk.injEq]
        exact ⟨Nat.add_right_comm _ _ _, by show _ = span.stop - 1 + _; omega⟩
      show resources _ (header.shift _ _)
        ⟨header.opening + front.length + 1, span.stop + front.length - 1⟩ = _
      rw [hbody]
      exact resources_shift front (Nat.succ_ne_zero _)
        (by show header.opening + 1 ≤ span.stop - 1; omega) (by show span.stop - 1 ≤ _; omega) header

/-- What is listed for each service splits if it does for the services of either text. -/
theorem services_flatMap_splits (h : Complete tail text)
    {listed : List Char → Outcome → List Outcome}
    (hleft : ∀ outcome ∈ services text, listed (text ++ more) outcome = listed text outcome)
    (hright : ∀ outcome ∈ services more, listed (text ++ more) (outcome.shift text.length) =
      (listed more outcome).map (·.shift text.length)) :
    Splits (fun mask => (services mask).flatMap (listed mask)) text more := by
  have hservices : services (text ++ more) = _ := services_splits h
  show (services (text ++ more)).flatMap _ = _
  rw [hservices, List.flatMap_append, List.flatMap_map, List.map_flatMap, List.flatMap_congr hleft]
  exact congrArg _ (List.flatMap_congr hright)

theorem servicesWithResources_splits (h : Complete tail text) :
    Splits servicesWithResources text more := by
  refine services_flatMap_splits h (fun outcome houtcome => ?_) fun outcome houtcome => ?_
  · rw [resourcesOf_append h houtcome]
  · rw [resourcesOf_shift text houtcome]
    rfl

/-! ## Functions -/

theorem start_lt_of_mem_serviceBlocks {block : Span} (hblock : block ∈ serviceBlocks text) :
    block.start < text.length := by
  obtain ⟨d, hd, header, hshape, rfl⟩ := mem_serviceBlocks.mp hblock
  obtain ⟨header', hshape', hlt, hstop, -⟩ := service_bounds hd
  obtain rfl : header = header' := Shape.service.inj (hshape.symm.trans hshape')
  show header.opening < _
  omega

theorem serviceBlocks_append (h : Complete tail text) (more : List Char) :
    serviceBlocks (text ++ more) =
      serviceBlocks text ++ (serviceBlocks more).map (·.shift text.length) := by
  have hservices : services (text ++ more) = _ := services_splits h
  rw [serviceBlocks, serviceBlocks, serviceBlocks, hservices, declarations_append,
    declarations_shift, List.filterMap_append, List.filterMap_map, List.map_filterMap]
  congr 1
  refine List.filterMap_congr fun d _ => ?_
  rw [Function.comp_apply, Declaration.shift_headerEnd, Option.map_map, Option.map_map]
  rfl

theorem shift_inj {n : Nat} {span span' : Span} (h : span.shift n = span'.shift n) :
    span = span' := by
  obtain ⟨start, stop⟩ := span
  obtain ⟨start', stop'⟩ := span'
  rw [Span.shift, Span.shift, Span.mk.injEq] at h
  rw [Span.mk.injEq]
  exact ⟨Nat.add_right_cancel h.1, Nat.add_right_cancel h.2⟩

/-- Whether a place of the first text is in a service does not depend on the second. -/
theorem inService_left (h : Complete tail text) (more : List Char) {offset : Nat}
    (hoffset : offset ≤ text.length) :
    ((BlockMap.ofMask (text ++ more)).enclosing? offset).any (serviceBlocks (text ++ more)).contains =
      ((BlockMap.ofMask text).enclosing? offset).any (serviceBlocks text).contains := by
  rw [BlockMap.enclosing_left h.braces more hoffset, serviceBlocks_append h]
  cases hblock : (BlockMap.ofMask text).enclosing? offset with
  | none => rfl
  | some block =>
      obtain ⟨-, hstart, -⟩ :=
        (BlockMap.enclosing_eq_some_iff (BlockMap.inSequence_ofMask text)).mp hblock
      rw [Option.any_some, Option.any_some, List.contains_append]
      -- The block around the place begins in the first text, and the other services do not.
      have hnone : ((serviceBlocks more).map (·.shift text.length)).contains block = false := by
        rw [← Bool.not_eq_true, List.contains_iff_mem]
        intro hmem
        obtain ⟨inner, -, rfl⟩ := List.mem_map.mp hmem
        have hshift : (inner.shift text.length).start = inner.start + text.length := rfl
        omega
      rw [hnone, Bool.or_false]

/-- Whether a place of the second text is in a service does not depend on the first. -/
theorem inService_right (h : Complete tail text) (more : List Char) (offset : Nat) :
    ((BlockMap.ofMask (text ++ more)).enclosing? (offset + text.length)).any
        (serviceBlocks (text ++ more)).contains =
      ((BlockMap.ofMask more).enclosing? offset).any (serviceBlocks more).contains := by
  rw [BlockMap.enclosing_right h.braces more, serviceBlocks_append h]
  cases (BlockMap.ofMask more).enclosing? offset with
  | none => rfl
  | some block =>
      rw [Option.map_some, Option.any_some, Option.any_some, List.contains_append]
      -- The block around the place begins behind the first text, and its services do not.
      have hnone : (serviceBlocks text).contains (block.shift text.length) = false := by
        rw [← Bool.not_eq_true, List.contains_iff_mem]
        intro hmem
        have hlt := start_lt_of_mem_serviceBlocks hmem
        have hshift : (block.shift text.length).start = block.start + text.length := rfl
        omega
      rw [hnone, Bool.false_or, Bool.eq_iff_iff, List.contains_iff_mem, List.contains_iff_mem,
        List.mem_map]
      constructor
      · rintro ⟨inner, hinner, heq⟩
        rwa [← shift_inj heq]
      · exact fun hmem => ⟨block, hmem, rfl⟩

theorem functionOutcome_append (h : Complete tail text) {m : Match Part}
    (hm : Patterns.function.Found text m) (more : List Char) :
    functionOutcome (text ++ more) m = functionOutcome text m := by
  have hstays : Patterns.function.Stays tail more := stays_of_stops (by decide)
  obtain ⟨-, hsuffix⟩ := suffix_of_found h.toSeam hstays trivial hm
  obtain ⟨hstop, hsettled⟩ := settled_paren_of_found h (List.append_nil text).symm hm hsuffix
  rw [functionOutcome, functionOutcome, callableParts_append hstop hsettled]

theorem functions_splits (h : Complete tail text) : Splits functions text more := by
  refine splits_map (allMatches_append_of_atEdge h.toSeam (local_of_stops (by decide)) trivial)
    (fun m hm => ?_) fun m hm => ?_
  · have hfound := found_of_mem_allMatches hm
    obtain ⟨hle, hstop, -⟩ := bounds_of_found hfound
    rw [inService_left h more (hle.trans hstop), functionOutcome_append h hfound]
  · have hname : Patterns.function.Marks .name := by decide
    have hpart := hasPart_of_found hname (found_of_mem_allMatches hm)
    have hstart : (m.shift text.length).span.start = m.span.start + text.length := rfl
    rw [hstart, inService_right h, functionOutcome_shift text more hpart, part_shift _ hpart]
    split_ifs
    · rfl
    · rfl

/-! ## Kinds -/

theorem declarations_of_splits {search : List Char → List Outcome} (h : Splits search text more) :
    declarations (search (text ++ more)) = declarations (search text) ++
      (declarations (search more)).map (·.shift (·.shift text.length) text.length) := by
  rw [h, declarations_append, declarations_shift]

@[simp] theorem declarations_of_skipped (outcomes : List Outcome) :
    declarations (outcomes.filter (·.skip?.isSome)) = [] := by
  rw [declarations, List.filterMap_eq_nil_iff]
  intro outcome houtcome
  cases outcome with
  | declared d => exact absurd (List.mem_filter.mp houtcome).2 (by simp [Outcome.skip?])
  | skipped skip => rfl

/-- Every kind of declaration is found in two masks where it is found in either. -/
theorem declarations_ofKind_append (h : Complete tail text) (more : List Char) (kind : Kind) :
    declarations (ofKind (text ++ more) kind) = declarations (ofKind text kind) ++
      (declarations (ofKind more kind)).map (·.shift (·.shift text.length) text.length) := by
  cases kind with
  | importClause => exact declarations_of_splits (imports_splits h)
  | configurable => exact declarations_of_splits (configurables_splits h)
  | moduleVariable => exact declarations_of_splits (moduleVariables_splits h)
  | typeDefinition => exact declarations_of_splits (typeDefinitions_splits h)
  | function =>
      -- What is skipped of the services is listed before, but declares nothing.
      simp only [ofKind, declarations_append, declarations_of_skipped, List.nil_append]
      exact declarations_of_splits (functions_splits h)
  | service => exact declarations_of_splits (services_splits h)
  | resource =>
      have hsplits : Splits (fun mask => (services mask).flatMap fun outcome =>
          if outcome.skip?.isSome then [outcome] else resourcesOf mask outcome) text more := by
        refine services_flatMap_splits h (fun outcome houtcome => ?_) fun outcome houtcome => ?_
        · rw [resourcesOf_append h houtcome]
        · rw [resourcesOf_shift text houtcome, Outcome.shift_skip, Option.isSome_map]
          split_ifs
          · rfl
          · rfl
      exact declarations_of_splits hsplits
  | classDefinition => exact declarations_of_splits (classes_splits h)
  | constant => exact declarations_of_splits (constants_splits h)

end Locate

end SourceChunks
