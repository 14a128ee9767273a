import Mathlib
import SourceChunks.Proofs.Declaration.Spans
import SourceChunks.Proofs.Except

/-!
# Searches that check where brackets open

A bracket can be matched only where it opens, and matching one at another place is refused.
The searches for declarations match brackets at places that they have come to in several ways:
at the end of a header, behind a return type, at the first brace of a statement.  Here they
check each of these places before they go on, and none of the checks fails.

* `Guarded.returnTypeEnd`, `Guarded.callableParts`, `Guarded.statementEnd`: the walks behind a
  header, with a check at each bracket that is matched.
* `Guarded.all`: the searches for all declarations of a mask.
* `Guarded.all_eq_ok`: no check fails, and what is found is what is found without them.
-/

namespace SourceChunks

/-! ## Brackets -/

/-- A bracket is matched where it opens. -/
theorem closing_eq_ok {mask rest : List Char} {opening closing : Char} {offset : Nat}
    (h : mask.drop offset = opening :: rest) :
    Bracket.closing? mask offset opening closing =
      .ok (Bracket.closingFrom opening closing 0 (offset + 1) rest) := by
  unfold Bracket.closing?
  rw [h]
  exact if_pos rfl

theorem blockEnd_eq_ok {mask rest : List Char} {offset : Nat} (h : mask.drop offset = '{' :: rest) :
    Bracket.blockEnd? mask offset = .ok (Bracket.blockEndFrom (offset + 1) rest) :=
  closing_eq_ok h

theorem drop_succ {mask rest : List Char} {c : Char} {offset : Nat}
    (h : mask.drop offset = c :: rest) : mask.drop (offset + 1) = rest := by
  rw [← List.drop_drop, h]
  rfl

/-- In open blocks, a return type goes on behind the brace that closes them. -/
theorem returnTypeEndFrom_succ (read : List Char) (depth offset : Nat) (text : List Char) :
    returnTypeEndFrom read (depth + 1) offset text =
      (Bracket.closingFrom '{' '}' depth offset text).bind fun stop =>
        returnTypeEndFrom ((text.take (stop - offset)).reverse ++ read) 0 stop
          (text.drop (stop - offset)) := by
  induction text generalizing read depth offset with
  | nil => rfl
  | cons c text ih =>
      -- The next character is passed, in the walk as in the search for the brace.
      have hnext : ∀ depth', (Bracket.closingFrom '{' '}' depth' (offset + 1) text).bind (fun stop =>
          returnTypeEndFrom ((text.take (stop - (offset + 1))).reverse ++ c :: read) 0 stop
            (text.drop (stop - (offset + 1)))) =
          (Bracket.closingFrom '{' '}' depth' (offset + 1) text).bind fun stop =>
            returnTypeEndFrom (((c :: text).take (stop - offset)).reverse ++ read) 0 stop
              ((c :: text).drop (stop - offset)) := by
        intro depth'
        refine Option.bind_congr fun stop hstop => ?_
        obtain ⟨hlt, -⟩ := closingFrom_bounds hstop
        obtain ⟨gap, rfl⟩ := Nat.exists_eq_add_of_lt hlt
        have hgap : offset + 1 + gap + 1 - offset = gap + 1 + 1 := by omega
        have hgap' : offset + 1 + gap + 1 - (offset + 1) = gap + 1 := by omega
        rw [hgap, hgap', List.take_succ_cons, List.reverse_cons, List.append_assoc,
          List.drop_succ_cons]
        rfl
      by_cases hopen : c = '{'
      · subst hopen
        simp [returnTypeEndFrom, ih, hnext]
      · by_cases hclose : c = '}'
        · subst hclose
          cases depth with
          | zero => simp [returnTypeEndFrom]
          | succ depth => simp [returnTypeEndFrom, ih, hnext]
        · simp [returnTypeEndFrom, hopen, hclose, ih, hnext]

namespace Guarded

open Locate

/-! ## Return types -/

/-- The offset of the brace behind a return type, as `returnTypeEndFrom` finds it, where the
block of an inline type is matched from its brace and passed over as a whole: `skip` more
characters belong to it. -/
def returnTypeEnd (mask : List Char) :
    (read : List Char) → (skip offset : Nat) → List Char → Except Bracket.NotOpening (Option Nat)
  | _, _, _, [] => .ok none
  | read, skip + 1, offset, c :: rest => returnTypeEnd mask (c :: read) skip (offset + 1) rest
  | read, 0, offset, c :: rest =>
      if c = '{' then
        if endsInlineType read then do
          match ← Bracket.blockEnd? mask offset with
          | none => return none
          | some stop => returnTypeEnd mask (c :: read) (stop - (offset + 1)) (offset + 1) rest
        else return some offset
      else if c = ';' || c = '=' then return none
      else returnTypeEnd mask (c :: read) 0 (offset + 1) rest

theorem returnTypeEnd_skip (mask read : List Char) (skip offset : Nat) (text : List Char) :
    returnTypeEnd mask read skip offset text =
      returnTypeEnd mask ((text.take skip).reverse ++ read) 0 (offset + skip) (text.drop skip) := by
  induction text generalizing read skip offset with
  | nil => cases skip <;> simp [returnTypeEnd]
  | cons c text ih =>
      cases skip with
      | zero => rfl
      | succ skip =>
          rw [returnTypeEnd, ih, List.take_succ_cons, List.reverse_cons, List.append_assoc,
            List.drop_succ_cons, Nat.add_assoc, Nat.add_comm 1]
          rfl

/-- A return type is passed over with all checks. -/
theorem returnTypeEnd_eq_ok {mask : List Char} (read : List Char) {offset : Nat} {rest : List Char}
    (h : mask.drop offset = rest) :
    returnTypeEnd mask read 0 offset rest = .ok (returnTypeEndFrom read 0 offset rest) := by
  -- On the length of the rest, since a block is passed over in one step.
  induction hlength : rest.length using Nat.strong_induction_on generalizing read offset rest with
  | _ n ih =>
      cases rest with
      | nil => rfl
      | cons c rest =>
          have hbehind := drop_succ h
          rw [returnTypeEnd, returnTypeEndFrom]
          split_ifs with hopen hinline hstop
          · rw [hopen] at h
            rw [blockEnd_eq_ok h, ok_bind, returnTypeEndFrom_succ]
            show _ = Except.ok (Option.bind (Bracket.blockEndFrom (offset + 1) rest) _)
            cases hend : Bracket.blockEndFrom (offset + 1) rest with
            | none => rfl
            | some stop =>
                obtain ⟨hlt, hle⟩ := closingFrom_bounds hend
                have hdrop : mask.drop stop = rest.drop (stop - (offset + 1)) := by
                  rw [← hbehind, List.drop_drop, Nat.add_sub_cancel' hlt.le]
                simp only [Option.bind_some]
                rw [returnTypeEnd_skip, Nat.add_sub_cancel' hlt.le]
                refine ih _ ?_ _ hdrop rfl
                rw [← hlength, List.length_drop, List.length_cons]
                omega
          · rfl
          · rfl
          · refine ih _ ?_ _ hbehind rfl
            rw [← hlength, List.length_cons]
            omega

/-! ## Functions and resources -/

/-- The return type and the opening brace behind a parameter list that ends at an offset. -/
def callableTail (mask : List Char) (offset : Nat) :
    Except Bracket.NotOpening (Option CallableTail) :=
  let rest := mask.drop offset
  let after := Text.trimLeft rest
  let place := offset + (rest.length - after.length)
  match behindReturns? after with
  | some type => do
      let start := place + "returns".length
      let opening? ← returnTypeEnd mask [] 0 start type
      return opening?.map fun opening => ⟨some ⟨start, opening⟩, opening⟩
  | none => return if after.head? = some '{' then some ⟨none, place⟩ else none

/-- The parts of a function whose parameters are opened at an offset. -/
def callableParts (mask : List Char) (paren : Nat) :
    Except Bracket.NotOpening (Except CallableFailure CallableParts) := do
  match ← Bracket.closing? mask paren '(' ')' with
  | none => return .error .openParameters
  | some behind =>
      match ← callableTail mask behind with
      | none => return .error .noBody
      | some tail =>
          match ← Bracket.blockEnd? mask tail.opening with
          | none => return .error .openBody
          | some stop => return .ok ⟨⟨paren + 1, behind - 1⟩, tail, stop⟩

@[simp] theorem callableTail_eq_ok (mask : List Char) (offset : Nat) :
    callableTail mask offset = .ok (callableTail? offset (mask.drop offset)) := by
  obtain ⟨gap, hgap, -⟩ := Text.exists_trimLeft (mask.drop offset)
  have hlength := congrArg List.length hgap
  rw [List.length_append] at hlength
  unfold callableTail callableTail?
  cases htype : behindReturns? (Text.trimLeft (mask.drop offset)) with
  | none =>
      simp only [htype]
      rfl
  | some type =>
      obtain ⟨hafter, -⟩ := behindReturns_eq_some.mp htype
      -- The type begins behind the white space and the word.
      have hdrop : mask.drop (offset + ((mask.drop offset).length -
          (Text.trimLeft (mask.drop offset)).length) + "returns".length) = type := by
        have hcount : (mask.drop offset).length - (Text.trimLeft (mask.drop offset)).length =
            gap.length := by omega
        have hword : "returns".length = "returns".toList.length := by decide
        rw [hcount, hword, ← List.drop_drop, ← List.drop_drop, hgap, List.drop_left, hafter,
          List.drop_left]
      simp only [htype]
      rw [returnTypeEnd_eq_ok [] hdrop]
      rfl

/-- From the parenthesis that opens its parameters, the parts of a function are found with all
checks. -/
theorem callableParts_eq_ok {mask rest : List Char} {paren : Nat}
    (h : mask.drop paren = '(' :: rest) :
    callableParts mask paren = .ok (SourceChunks.callableParts mask (paren + 1)) := by
  unfold callableParts SourceChunks.callableParts
  rw [closing_eq_ok h, ok_bind, drop_succ h]
  cases Bracket.closingFrom '(' ')' 0 (paren + 1) rest with
  | none => rfl
  | some behind =>
      simp only
      rw [callableTail_eq_ok, ok_bind]
      cases htail : callableTail? behind (mask.drop behind) with
      | none => rfl
      | some tail =>
          -- The body opens at a brace.
          obtain ⟨gap, body, hbody, hopening, -⟩ := exists_of_callableTail htail
          have hdrop : mask.drop tail.opening = '{' :: body := by
            rw [hopening, ← List.drop_drop, hbody, List.drop_left]
          simp only
          rw [blockEnd_eq_ok hdrop, ok_bind, drop_succ hdrop]
          cases Bracket.blockEndFrom (tail.opening + 1) body with
          | none => rfl
          | some stop => rfl

/-! ## Statements -/

/-- The offset past the end of a declaration: past its semicolon, or past its first block and a
semicolon behind that. -/
def statementEnd (mask : List Char) :
    (offset : Nat) → List Char → Except Bracket.NotOpening (Option Nat)
  | _, [] => .ok none
  | offset, c :: rest =>
      if c = ';' then return some (offset + 1)
      else if c = '{' then do
        let stop? ← Bracket.blockEnd? mask offset
        return stop?.map fun stop => behindSemicolon stop (mask.drop stop)
      else statementEnd mask (offset + 1) rest

theorem statementEnd_eq_ok {mask : List Char} {offset : Nat} {rest : List Char}
    (h : mask.drop offset = rest) :
    statementEnd mask offset rest = .ok (statementEndFrom offset rest) := by
  induction rest generalizing offset with
  | nil => rfl
  | cons c rest ih =>
      have hbehind := drop_succ h
      rw [statementEnd, statementEndFrom]
      split_ifs with hsemicolon hopen
      · rfl
      · rw [hopen] at h
        rw [blockEnd_eq_ok h, ok_bind]
        show Except.ok (Option.map _ _) = Except.ok (Option.map _ _)
        congr 1
        refine Option.map_congr fun stop hstop => ?_
        obtain ⟨hlt, -⟩ := closingFrom_bounds hstop
        rw [← hbehind, List.drop_drop, Nat.add_sub_cancel' hlt.le]
      · exact ih hbehind

/-! ## Headers -/

/-- A header that goes up to an opening parenthesis has it as its last character. -/
theorem drop_paren_of_found {p : Pattern Part} {text mask : List Char} (htext : text <+: mask)
    {m : Match Part} (hm : (p ++ Pattern.one (· == '(')).Found text m) :
    ∃ paren rest, m.span.stop = paren + 1 ∧ mask.drop paren = '(' :: rest := by
  obtain ⟨front, x, rest, rfl, hx, hstop⟩ := Pattern.exists_of_found_one hm
  obtain ⟨more, rfl⟩ := htext
  refine ⟨front.length, rest ++ more, hstop, ?_⟩
  rw [List.append_assoc, List.drop_left, List.cons_append, eq_of_beq hx]

/-- The outcomes for the declarations that end with a semicolon or a block. -/
def blockStatements (pattern : Pattern Part) (kind : Kind) (shape : Match Part → Shape Span)
    (mask : List Char) : Except Bracket.NotOpening (List Outcome) :=
  (topLevelMatches pattern mask).mapM fun m => do
    match ← statementEnd mask m.span.stop (mask.drop m.span.stop) with
    | none => return .skipped (.unmatched kind none m.span.start)
    | some stop => return .declared ⟨⟨m.span.start, stop⟩, shape m⟩

theorem blockStatements_eq_ok (pattern : Pattern Part) (kind : Kind)
    (shape : Match Part → Shape Span) (mask : List Char) :
    blockStatements pattern kind shape mask =
      .ok (Locate.blockStatements pattern kind shape mask) := by
  apply mapM_eq_ok
  intro m _
  rw [statementEnd_eq_ok rfl, ok_bind]
  cases statementEndFrom m.span.stop (mask.drop m.span.stop) with
  | none => rfl
  | some stop => rfl

/-! ### Services -/

/-- What becomes of the header of a service. -/
def serviceOutcome (mask : List Char) (m : Match Part) : Except Bracket.NotOpening Outcome :=
  match serviceOpening? mask m with
  | none => return .skipped (.serviceWithoutBody m.span.start)
  | some opening => do
      match ← Bracket.blockEnd? mask opening with
      | none => return .skipped (.unmatched .service none m.span.start)
      | some stop =>
          return .declared ⟨⟨m.span.start, stop⟩, .service (serviceHeader m opening)⟩

/-- The services of a mask. -/
def services (mask : List Char) : Except Bracket.NotOpening (List Outcome) :=
  (topLevelMatches Patterns.service mask).mapM (serviceOutcome mask)

@[simp] theorem services_eq_ok (mask : List Char) : services mask = .ok (Locate.services mask) := by
  apply mapM_eq_ok
  intro m hm
  unfold serviceOutcome Locate.serviceOutcome
  cases hopening : serviceOpening? mask m with
  | none => rfl
  | some opening =>
      obtain ⟨gap, body, hbody, rfl⟩ :=
        serviceOpening_bounds (bounds_of_found (found_of_mem_topLevel hm)).2.1 hopening
      have hdrop : mask.drop (m.span.stop + gap.length) = '{' :: body := by
        rw [← List.drop_drop, hbody, List.drop_left]
      simp only
      rw [blockEnd_eq_ok hdrop, ok_bind, drop_succ hdrop]
      cases Bracket.blockEndFrom (m.span.stop + gap.length + 1) body with
      | none => rfl
      | some stop => rfl

/-! ### Resources -/

/-- What becomes of the header of a resource, if anything does. -/
def resourceOutcome (mask : List Char) (owner : Service Span) (body : Span) (m : Match Part) :
    Except Bracket.NotOpening (Option Outcome) :=
  if !(BlockMap.ofRegion mask body).isTopLevel m.span.start then return none
  else do
    match ← callableParts mask (m.span.stop - 1) with
    | .error e => return some (.skipped (CallableFailure.skip .resource m.span.start e))
    | .ok parts =>
        if parts.stop > body.stop then return none
        else
          return some (.declared ⟨⟨m.span.start, parts.stop⟩,
            .resource owner (part m .method) (part m .path) (callable m parts)⟩)

/-- The resources of a service of a mask. -/
def resources (mask : List Char) (owner : Service Span) (body : Span) :
    Except Bracket.NotOpening (List Outcome) := do
  let outcomes ← (Patterns.resource.matchesIn mask body).mapM (resourceOutcome mask owner body)
  return outcomes.reduceOption

/-- The resources that belong to an outcome of the search for services. -/
def resourcesOf (mask : List Char) : Outcome → Except Bracket.NotOpening (List Outcome)
  | .declared ⟨span, .service service⟩ =>
      resources mask service ⟨service.opening + 1, span.stop - 1⟩
  | _ => return []

/-- An outcome of the search for services, before the resources that belong to it. -/
def withResources (mask : List Char) (outcome : Outcome) :
    Except Bracket.NotOpening (List Outcome) := do
  let members ← resourcesOf mask outcome
  return outcome :: members

/-- The services of a mask, each before its resources. -/
def servicesWithResources (mask : List Char) : Except Bracket.NotOpening (List Outcome) := do
  let found ← services mask
  let groups ← found.mapM (withResources mask)
  return groups.flatten

theorem resourceOutcome_eq_ok {mask : List Char} (owner : Service Span) {body : Span} {m : Match Part}
    {paren : Nat} {rest : List Char} (hstop : m.span.stop = paren + 1)
    (hparen : mask.drop paren = '(' :: rest) :
    resourceOutcome mask owner body m = .ok (resourceOutcome? mask owner body m) := by
  unfold resourceOutcome resourceOutcome?
  split_ifs with hnested
  · rfl
  · rw [hstop, Nat.add_sub_cancel, callableParts_eq_ok hparen, ok_bind]
    cases SourceChunks.callableParts mask (paren + 1) with
    | error e => rfl
    | ok parts =>
        simp only
        split_ifs with hbehind
        · rfl
        · rfl

theorem resources_eq_ok {mask : List Char} (owner : Service Span) {body : Span}
    (hle : body.start ≤ body.stop) (hstop : body.stop ≤ mask.length) :
    resources mask owner body = .ok (Locate.resources mask owner body) := by
  have houtcomes : (Patterns.resource.matchesIn mask body).mapM (resourceOutcome mask owner body) =
      .ok ((Patterns.resource.matchesIn mask body).map (resourceOutcome? mask owner body)) := by
    refine mapM_eq_ok fun m hm => ?_
    have hfound := Pattern.found_of_mem_matchesIn hle hstop hm
    obtain ⟨paren, rest, hparen, hrest⟩ := drop_paren_of_found (List.take_prefix _ _) hfound
    exact resourceOutcome_eq_ok owner hparen hrest
  rw [resources, houtcomes, ok_bind, Locate.resources_eq, List.reduceOption, List.filterMap_map]
  rfl

/-- The body of a service lies in the mask, so its resources are found with all checks. -/
theorem resourcesOf_eq_ok {mask : List Char} {outcome : Outcome}
    (houtcome : outcome ∈ Locate.services mask) :
    resourcesOf mask outcome = .ok (Locate.resourcesOf mask outcome) := by
  cases outcome with
  | skipped skip => rfl
  | declared service =>
      obtain ⟨header, hshape, hopening, hstop, -⟩ := service_bounds (mem_declarations.mpr houtcome)
      obtain ⟨span, shape⟩ := service
      obtain rfl : shape = .service header := hshape
      apply resources_eq_ok
      · show header.opening + 1 ≤ span.stop - 1
        simp only at hopening
        omega
      · exact (Nat.sub_le _ _).trans hstop

@[simp] theorem servicesWithResources_eq_ok (mask : List Char) :
    servicesWithResources mask = .ok (Locate.servicesWithResources mask) := by
  have hgroups : (Locate.services mask).mapM (withResources mask) = .ok
      ((Locate.services mask).map fun outcome => outcome :: Locate.resourcesOf mask outcome) := by
    refine mapM_eq_ok fun outcome houtcome => ?_
    rw [withResources, resourcesOf_eq_ok houtcome]
    rfl
  rw [servicesWithResources, services_eq_ok, ok_bind, hgroups, ok_bind]
  rfl

/-! ### Functions -/

/-- What becomes of the header of a function, where some blocks are bodies of services. -/
def functionOutcome (mask : List Char) (bodies : List Span) (m : Match Part) :
    Except Bracket.NotOpening Outcome :=
  if ((BlockMap.ofMask mask).enclosing? m.span.start).any bodies.contains then
    return .skipped (.serviceMember (part m .name) m.span.start)
  else do
    match ← callableParts mask (m.span.stop - 1) with
    | .error e => return .skipped (CallableFailure.skip .function m.span.start e)
    | .ok parts =>
        return .declared ⟨⟨m.span.start, parts.stop⟩,
          .function (m.hasPart .visibility) (part m .name) (callable m parts)⟩

/-- The functions of a mask that belong to no service. -/
def functions (mask : List Char) : Except Bracket.NotOpening (List Outcome) := do
  let found ← services mask
  let bodies := (declarations found).filterMap fun d =>
    d.headerEnd?.map fun opening => (⟨opening, d.span.stop⟩ : Span)
  (Patterns.function.allMatches mask).mapM (functionOutcome mask bodies)

@[simp] theorem functions_eq_ok (mask : List Char) :
    functions mask = .ok (Locate.functions mask) := by
  rw [functions, services_eq_ok, ok_bind]
  refine mapM_eq_ok fun m hm => ?_
  have hfound := Pattern.found_of_mem_allMatches hm
  obtain ⟨paren, rest, hparen, hrest⟩ := drop_paren_of_found List.prefix_rfl hfound
  unfold functionOutcome Locate.functionOutcome serviceBlocks
  split_ifs with hmember
  · rfl
  · rw [hparen, Nat.add_sub_cancel, callableParts_eq_ok hrest, ok_bind]
    cases SourceChunks.callableParts mask (paren + 1) with
    | error e => rfl
    | ok parts => rfl

/-! ## All of them -/

/-- The type definitions of a mask. -/
def typeDefinitions (mask : List Char) : Except Bracket.NotOpening (List Outcome) :=
  blockStatements Patterns.typeDefinition .typeDefinition
    (fun m => .typeDefinition (m.hasPart .visibility) (part m .name)) mask

/-- The classes of a mask. -/
def classes (mask : List Char) : Except Bracket.NotOpening (List Outcome) :=
  blockStatements Patterns.classDefinition .classDefinition
    (fun m => .classDefinition (m.hasPart .visibility) (part m .name)) mask

/-- All declarations of a mask, in the order of a listing.  Only those with brackets to match
have anything to check. -/
def all (mask : List Char) : Except Bracket.NotOpening (List Outcome) := do
  let types ← typeDefinitions mask
  let functions ← functions mask
  let services ← servicesWithResources mask
  let classes ← classes mask
  return imports mask ++ configurables mask ++ moduleVariables mask ++ types ++ functions ++
    services ++ classes ++ constants mask

/-- In every mask, all brackets that the searches match open where they are looked for. -/
@[simp] theorem all_eq_ok (mask : List Char) : all mask = .ok (Locate.all mask) := by
  unfold all typeDefinitions classes
  rw [blockStatements_eq_ok, ok_bind, functions_eq_ok, ok_bind, servicesWithResources_eq_ok, ok_bind,
    blockStatements_eq_ok, ok_bind]
  rfl

end Guarded

end SourceChunks
