import Mathlib
import SourceChunks.Proofs.Declaration.Headers

/-!
# Members of services and of classes

A service whose body opens outside all blocks has one of the outermost blocks of its file
as its body.  No function that begins in that body, however deep, is listed as one of its
own; every other function with a body is, and in particular every method of a class.

* `exists_match_of_mem`, `exists_statementEnd_of_mem`: the match that a declaration comes from.
* `mem_services`: what is known of a service that is found.
* `depth_of_no_listener`: the body of a service without a listener opens outside all blocks.
* `block_of_service`: such a body is an outermost block.
* `mem_functions`: a function is listed unless the block around it is one of a service.
* `mem_resources`: a resource is listed if it stands directly in the body of its service.
* `service_members`: what becomes of functions in services, in classes, and elsewhere.
-/

namespace SourceChunks

/-! ## Outcomes -/

@[simp] theorem declarations_append (outcomes outcomes' : List Outcome) :
    declarations (outcomes ++ outcomes') = declarations outcomes ++ declarations outcomes' :=
  List.filterMap_append

namespace Locate

@[simp] theorem declaration_eq_some {outcome : Outcome} {d : Declaration Span} :
    outcome.declaration? = some d ↔ outcome = .declared d := by
  cases outcome <;> simp [Outcome.declaration?]

@[simp] theorem mem_declarations {outcomes : List Outcome} {d : Declaration Span} :
    d ∈ declarations outcomes ↔ .declared d ∈ outcomes := by
  simp [declarations, declaration_eq_some]

theorem mem_declarations_map {ms : List (Match Part)} {f : Match Part → Outcome}
    {d : Declaration Span} (hd : d ∈ declarations (ms.map f)) : ∃ m ∈ ms, f m = .declared d :=
  List.mem_map.mp (mem_declarations.mp hd)

/-- Where every match is declared, a declaration is that of a match. -/
theorem exists_match_of_mem {ms : List (Match Part)} {f : Match Part → Declaration Span}
    {d : Declaration Span} (hd : d ∈ declarations (ms.map fun m => .declared (f m))) :
    ∃ m ∈ ms, d = f m := by
  obtain ⟨m, hm, heq⟩ := mem_declarations_map hd
  exact ⟨m, hm, (Outcome.declared.inj heq).symm⟩

/-- A declaration that ends with a semicolon or a block goes up to where its statement ends. -/
theorem exists_statementEnd_of_mem {p : Pattern Part} {kind : Kind}
    {shape : Match Part → Shape Span} {mask : List Char} {d : Declaration Span}
    (hd : d ∈ declarations (blockStatements p kind shape mask)) :
    ∃ m ∈ topLevelMatches p mask, ∃ stop,
      statementEndFrom m.span.stop (mask.drop m.span.stop) = some stop ∧
      d = ⟨⟨m.span.start, stop⟩, shape m⟩ := by
  obtain ⟨m, hm, hdeclared⟩ := mem_declarations_map hd
  cases hend : statementEndFrom m.span.stop (mask.drop m.span.stop) with
  | none => rw [hend] at hdeclared; contradiction
  | some stop =>
      rw [hend] at hdeclared
      exact ⟨m, hm, stop, hend, (Outcome.declared.inj hdeclared).symm⟩

/-- What is listed for each outcome, where nothing is declared for what was skipped. -/
theorem declarations_flatMap {listed : Outcome → List Outcome}
    (hskipped : ∀ skip, declarations (listed (.skipped skip)) = []) (outcomes : List Outcome) :
    declarations (outcomes.flatMap listed) =
      (declarations outcomes).flatMap fun d => declarations (listed (.declared d)) := by
  induction outcomes with
  | nil => rfl
  | cons outcome outcomes ih =>
      rw [List.flatMap_cons, declarations_append, ih]
      cases outcome with
      | skipped skip => rw [hskipped]; rfl
      | declared d => rfl

/-! ## Headers at the top level -/

/-- A match at the top level begins where no block is open, at an end of its pattern. -/
theorem found_of_mem_topLevelMatches {p : Pattern Part} {mask : List Char} {m : Match Part}
    (hm : m ∈ topLevelMatches p mask) :
    ∃ front rest d, mask = front ++ rest ∧ blockDepth 0 front = 0 ∧
      d ∈ p.ends ⟨front.getLast?, rest, front.length, []⟩ ∧
      m = ⟨⟨front.length, d.offset⟩, d.marks⟩ := by
  obtain ⟨hmem, htop⟩ := List.mem_filter.mp hm
  obtain ⟨front, rest, d, rfl, hrest, hd, rfl⟩ := Pattern.found_of_mem_allMatches hmem
  exact ⟨front, rest, d, rfl, (BlockMap.isTopLevel_iff front hrest).mp htop, hd, rfl⟩

/-- A header without braces ends where no block is open. -/
theorem depth_behind_header {p : Pattern Part} {mask : List Char} {m : Match Part}
    (hpasses : ∀ front c d, mask = front ++ c.rest → c.before = front.getLast? → d ∈ p.ends c →
      Cursor.Passes Patterns.NoBrace c d) (hm : m ∈ topLevelMatches p mask) :
    ∃ front rest, mask = front ++ rest ∧ front.length = m.span.stop ∧ blockDepth 0 front = 0 := by
  obtain ⟨front, rest, d, rfl, hdepth, hd, rfl⟩ := found_of_mem_topLevelMatches hm
  obtain ⟨passed, hlead, hsort⟩ := hpasses front _ d rfl rfl hd
  have hrest : rest = passed ++ d.rest := hlead.rest_eq
  refine ⟨front ++ passed, d.rest, by rw [hrest, List.append_assoc], ?_, ?_⟩
  · rw [List.length_append]
    exact hlead.offset_eq.symm
  · rw [blockDepth_append, hdepth]
    exact blockDepth_eq_self hsort 0

/-! ## Services -/

theorem exists_of_blockStartFrom {depth offset opening : Nat} {text : List Char}
    (h : Bracket.blockStartFrom depth offset text = some opening) :
    ∃ gap rest, text = gap ++ '{' :: rest ∧ opening = offset + gap.length := by
  induction text generalizing depth offset with
  | nil => contradiction
  | cons c text ih =>
      have hnext : ∀ depth, Bracket.blockStartFrom depth (offset + 1) text = some opening →
          ∃ gap rest, c :: text = gap ++ '{' :: rest ∧ opening = offset + gap.length := by
        intro depth h
        obtain ⟨gap, rest, rfl, hopening⟩ := ih h
        exact ⟨c :: gap, rest, rfl, by rw [List.length_cons]; omega⟩
      rw [Bracket.blockStartFrom] at h
      split_ifs at h with _ _ hopen
      · exact hnext _ h
      · exact hnext _ h
      · simp only [Bool.and_eq_true, decide_eq_true_eq] at hopen
        obtain rfl : offset = opening := Option.some.inj h
        exact ⟨[], text, by rw [hopen.2]; rfl, rfl⟩
      · exact hnext _ h

/-- The brace that opens the body of a service; without a listener, there is only white
space in front of it. -/
theorem exists_of_serviceOpening {mask front rest : List Char} {m : Match Part} {opening : Nat}
    (hmask : mask = front ++ rest) (hfront : front.length = m.span.stop)
    (h : serviceOpening? mask m = some opening) :
    ∃ gap more, rest = gap ++ '{' :: more ∧ opening = front.length + gap.length ∧
      (m.hasPart .listener = false → ∀ x ∈ gap, Text.isBlank x = true) := by
  have hdrop : mask.drop m.span.stop = rest := by rw [hmask, ← hfront, List.drop_left]
  rw [serviceOpening?, hdrop, ← hfront] at h
  by_cases hlistener : m.hasPart .listener = true
  · rw [if_pos hlistener] at h
    obtain ⟨gap, more, hrest, hopening⟩ := exists_of_blockStartFrom h
    exact ⟨gap, more, hrest, hopening, fun hnone => absurd hlistener (by simp [hnone])⟩
  · rw [if_neg hlistener] at h
    obtain ⟨gap, hgap, hblank⟩ := Text.exists_trimLeft rest
    simp only [Option.ite_none_right_eq_some, Option.some.injEq] at h
    obtain ⟨hhead, hopening⟩ := h
    obtain ⟨more, hmore⟩ := List.head?_eq_some_iff.mp hhead
    have hlength := congrArg List.length hgap
    rw [List.length_append] at hlength
    exact ⟨gap, more, by rw [← hmore]; exact hgap, by omega, fun _ => hblank⟩

/-- What the header of a service says, from its match and the brace that opens its body. -/
def serviceHeader (m : Match Part) (opening : Nat) : Service Span where
  path := (m.part? .path).or (m.part? .identifier)
  listener := if m.hasPart .listener then some ⟨m.span.stop, opening⟩ else none
  opening := opening

theorem hasPart_of_no_listener {m : Match Part} {opening : Nat}
    (h : (serviceHeader m opening).listener = none) : m.hasPart .listener = false := by
  by_contra hlistener
  rw [Bool.not_eq_false] at hlistener
  rw [serviceHeader, if_pos hlistener] at h
  contradiction

/-- What a header of a service becomes, if its body opens and is closed. -/
theorem serviceOutcome_eq_declared {mask : List Char} {m : Match Part} {d : Declaration Span} :
    serviceOutcome mask m = .declared d ↔ ∃ opening stop, serviceOpening? mask m = some opening ∧
      Bracket.blockEndFrom (opening + 1) (mask.drop (opening + 1)) = some stop ∧
      d = ⟨⟨m.span.start, stop⟩, .service (serviceHeader m opening)⟩ := by
  unfold serviceOutcome
  cases serviceOpening? mask m with
  | none => simp
  | some opening =>
      simp only [Option.some.injEq, exists_and_left, exists_eq_left']
      cases Bracket.blockEndFrom (opening + 1) (mask.drop (opening + 1)) with
      | none => simp
      | some stop =>
          simp only [Outcome.declared.injEq, Option.some.injEq, exists_eq_left']
          exact eq_comm

/-- What is known of a service that is found: its header, the brace that opens its body,
and the one that closes it. -/
theorem mem_services {mask : List Char} {d : Declaration Span}
    (hd : d ∈ declarations (services mask)) :
    ∃ m ∈ topLevelMatches Patterns.service mask, ∃ opening stop,
      serviceOpening? mask m = some opening ∧
      Bracket.blockEndFrom (opening + 1) (mask.drop (opening + 1)) = some stop ∧
      d = ⟨⟨m.span.start, stop⟩, .service (serviceHeader m opening)⟩ := by
  obtain ⟨m, hm, hdeclared⟩ := mem_declarations_map hd
  exact ⟨m, hm, serviceOutcome_eq_declared.mp hdeclared⟩

/-- A service and the mask around the brace that opens its body. -/
theorem split_of_service {text : List Char} {d : Declaration Span}
    (hd : d ∈ declarations (services (mask text))) :
    ∃ header front rest, d.shape = .service header ∧ mask text = front ++ '{' :: rest ∧
      front.length = header.opening ∧
      Bracket.blockEndFrom (front.length + 1) rest = some d.span.stop ∧
      (header.listener = none → blockDepth 0 front = 0) := by
  obtain ⟨m, hm, opening, stop, hopening, hstop, rfl⟩ := mem_services hd
  obtain ⟨front, rest, hmask, hfront, hdepth⟩ := depth_behind_header
    (fun front c d hmask hbefore hd => Patterns.passes_service hmask hbefore hd) hm
  obtain ⟨gap, more, rfl, hlength, hgap⟩ := exists_of_serviceOpening hmask hfront hopening
  have hsplit : mask text = front ++ gap ++ '{' :: more := by rw [hmask, List.append_assoc]
  have hlength' : (front ++ gap).length = opening := by rw [List.length_append, hlength]
  have hdrop : (mask text).drop (opening + 1) = more := by
    rw [hsplit, ← hlength', ← List.drop_drop, List.drop_left]
    rfl
  refine ⟨_, front ++ gap, more, rfl, hsplit, hlength', ?_, fun hlistener => ?_⟩
  · rw [hlength', ← hdrop]
    exact hstop
  · -- Between the header and the brace there is only white space.
    have hblank := hgap (hasPart_of_no_listener hlistener)
    rw [blockDepth_append, hdepth]
    exact blockDepth_eq_self (fun x hx => Patterns.noBrace_of_isBlank x (hblank x hx)) 0

/-- The body of a service without a listener opens where no block is open. -/
theorem depth_of_no_listener {text : List Char} {d : Declaration Span} {header : Service Span}
    (hd : d ∈ declarations (services (mask text))) (hshape : d.shape = .service header)
    (hlistener : header.listener = none) : blockDepth 0 ((mask text).take header.opening) = 0 := by
  obtain ⟨header', front, rest, hshape', hmask, hfront, -, hdepth⟩ := split_of_service hd
  obtain rfl : header = header' := Shape.service.inj (hshape.symm.trans hshape')
  rw [hmask, ← hfront, List.take_left]
  exact hdepth hlistener

/-- A service whose body opens where no block is open has an outermost block as its body,
which encloses everything strictly inside of it. -/
theorem block_of_service {text : List Char} {d : Declaration Span} {header : Service Span}
    (hd : d ∈ declarations (services (mask text))) (hshape : d.shape = .service header)
    (hdepth : blockDepth 0 ((mask text).take header.opening) = 0) :
    ⟨header.opening, d.span.stop⟩ ∈ (BlockMap.ofMask (mask text)).blocks ∧
      ∀ offset, header.opening < offset → offset < d.span.stop →
        (BlockMap.ofMask (mask text)).enclosing? offset = some ⟨header.opening, d.span.stop⟩ := by
  obtain ⟨header', front, rest, hshape', hmask, hfront, hstop, -⟩ := split_of_service hd
  obtain rfl : header = header' := Shape.service.inj (hshape.symm.trans hshape')
  rw [hmask, ← hfront, List.take_left] at hdepth
  rw [hmask, ← hfront]
  exact ⟨BlockMap.mem_blocks_of_closing hdepth hstop,
    fun offset hstart hoffset => BlockMap.enclosing_of_closing hdepth hstop hstart hoffset⟩

/-! ## Functions -/

theorem mem_serviceBlocks {mask : List Char} {block : Span} :
    block ∈ serviceBlocks mask ↔ ∃ d ∈ declarations (services mask), ∃ header,
      d.shape = .service header ∧ block = ⟨header.opening, d.span.stop⟩ := by
  rw [serviceBlocks, List.mem_filterMap]
  constructor
  · rintro ⟨d, hd, hblock⟩
    obtain ⟨m, -, opening, stop, -, -, rfl⟩ := mem_services hd
    exact ⟨_, hd, _, rfl, (Option.some.inj hblock).symm⟩
  · rintro ⟨d, hd, header, hshape, rfl⟩
    refine ⟨d, hd, ?_⟩
    rw [Declaration.headerEnd?, hshape]
    rfl

/-- What a function that was matched says. -/
def functionShape (m : Match Part) (parts : CallableParts) : Shape Span :=
  .function (m.hasPart .visibility) (part m .name) (callable m parts)

/-- What a header of a function becomes, if it has a body that is closed. -/
theorem functionOutcome_eq_declared {mask : List Char} {m : Match Part} {d : Declaration Span} :
    functionOutcome mask m = .declared d ↔ ∃ parts, callableParts mask m.span.stop = .ok parts ∧
      d = ⟨⟨m.span.start, parts.stop⟩, functionShape m parts⟩ := by
  unfold functionOutcome
  cases callableParts mask m.span.stop with
  | error e => simp
  | ok parts =>
      simp only [Outcome.declared.injEq, Except.ok.injEq, exists_eq_left']
      exact eq_comm

/-- A function is listed exactly if it has a body and the block around it is not the body
of a service. -/
theorem mem_functions {mask : List Char} {f : Declaration Span} :
    f ∈ declarations (functions mask) ↔
      ∃ m ∈ Patterns.function.allMatches mask,
        (∀ block ∈ (BlockMap.ofMask mask).enclosing? m.span.start, block ∉ serviceBlocks mask) ∧
        ∃ parts, callableParts mask m.span.stop = .ok parts ∧
          f = ⟨⟨m.span.start, parts.stop⟩, functionShape m parts⟩ := by
  rw [mem_declarations, functions, List.mem_map]
  refine exists_congr fun m => and_congr_right fun _ => ?_
  have hany : ((BlockMap.ofMask mask).enclosing? m.span.start).any (serviceBlocks mask).contains = true ↔
      ¬ ∀ block ∈ (BlockMap.ofMask mask).enclosing? m.span.start, block ∉ serviceBlocks mask := by
    simp [Option.any_eq_true]
  by_cases hservice : ∀ block ∈ (BlockMap.ofMask mask).enclosing? m.span.start,
      block ∉ serviceBlocks mask
  · rw [if_neg (by rw [hany]; exact fun h => h hservice), functionOutcome_eq_declared]
    exact ⟨fun h => ⟨hservice, h⟩, fun h => h.2⟩
  · rw [if_pos (hany.mpr hservice)]
    constructor
    · intro h
      contradiction
    · rintro ⟨hnone, -⟩
      exact absurd hnone hservice

/-- Nothing that begins in the body of a service is listed as a function. -/
theorem not_in_service_of_mem_functions {text : List Char} {d f : Declaration Span}
    {header : Service Span} (hd : d ∈ declarations (services (mask text)))
    (hshape : d.shape = .service header)
    (hdepth : blockDepth 0 ((mask text).take header.opening) = 0)
    (hf : f ∈ declarations (functions (mask text))) :
    ¬ (header.opening < f.span.start ∧ f.span.start < d.span.stop) := by
  rintro ⟨hstart, hstop⟩
  obtain ⟨m, -, hblocks, parts, -, rfl⟩ := mem_functions.mp hf
  have henclosing := (block_of_service hd hshape hdepth).2 m.span.start hstart hstop
  exact hblocks _ henclosing (mem_serviceBlocks.mpr ⟨d, hd, header, hshape, rfl⟩)

/-- A function with a body that begins in no such body is listed. -/
theorem mem_functions_of_outside {mask : List Char} {m : Match Part} {parts : CallableParts}
    (hm : m ∈ Patterns.function.allMatches mask) (hparts : callableParts mask m.span.stop = .ok parts)
    (houtside : ∀ d ∈ declarations (services mask), ∀ header, d.shape = .service header →
      blockDepth 0 (mask.take header.opening) = 0 →
      ¬ (header.opening < m.span.start ∧ m.span.start < d.span.stop)) :
    ⟨⟨m.span.start, parts.stop⟩, functionShape m parts⟩ ∈ declarations (functions mask) := by
  refine mem_functions.mpr ⟨m, hm, fun block hblock hservice => ?_, parts, hparts, rfl⟩
  -- The block around the function would be the body of a service, and an outermost block,
  -- which begins where none is open.
  obtain ⟨hmem, hinside⟩ :=
    (BlockMap.enclosing_eq_some_iff (BlockMap.inSequence_ofMask mask)).mp hblock
  obtain ⟨d, hd, header, hshape, rfl⟩ := mem_serviceBlocks.mp hservice
  exact houtside d hd header hshape (BlockMap.blockDepth_of_mem_blocks hmem) hinside

/-! ## Resources -/

/-- What becomes of the header of a resource, if anything does. -/
def resourceOutcome? (mask : List Char) (owner : Service Span) (body : Span) (m : Match Part) :
    Option Outcome :=
  if !(BlockMap.ofRegion mask body).isTopLevel m.span.start then none
  else
    match callableParts mask m.span.stop with
    | .error e => some (.skipped (CallableFailure.skip .resource m.span.start e))
    | .ok parts =>
        if parts.stop > body.stop then none
        else
          some (.declared ⟨⟨m.span.start, parts.stop⟩,
            .resource owner (part m .method) (part m .path) (callable m parts)⟩)

theorem resources_eq (mask : List Char) (owner : Service Span) (body : Span) :
    resources mask owner body =
      (Patterns.resource.matchesIn mask body).filterMap (resourceOutcome? mask owner body) :=
  rfl

/-- A header of a resource becomes one, if it stands directly in the body of its service and
has a body of its own that is closed in there. -/
theorem resourceOutcome_eq_declared {mask : List Char} {owner : Service Span} {body : Span}
    {m : Match Part} {d : Declaration Span} :
    resourceOutcome? mask owner body m = some (.declared d) ↔
      (BlockMap.ofRegion mask body).isTopLevel m.span.start = true ∧
        ∃ parts, callableParts mask m.span.stop = .ok parts ∧ parts.stop ≤ body.stop ∧
          d = ⟨⟨m.span.start, parts.stop⟩,
            .resource owner (part m .method) (part m .path) (callable m parts)⟩ := by
  unfold resourceOutcome?
  rw [Option.ite_none_left_eq_some, Bool.not_eq_true', Bool.not_eq_false]
  refine and_congr_right fun _ => ?_
  cases callableParts mask m.span.stop with
  | error e => simp
  | ok parts =>
      simp only [Option.ite_none_left_eq_some, Option.some.injEq, Outcome.declared.injEq,
        Except.ok.injEq, exists_eq_left', not_lt, gt_iff_lt]
      exact and_congr_right fun _ => eq_comm

/-- A resource is listed exactly if it stands directly in the body of its service, with a body
of its own that is closed in there. -/
theorem mem_resources {mask : List Char} {owner : Service Span} {body : Span}
    {d : Declaration Span} :
    d ∈ declarations (resources mask owner body) ↔
      ∃ m ∈ Patterns.resource.matchesIn mask body,
        (BlockMap.ofRegion mask body).isTopLevel m.span.start = true ∧
          ∃ parts, callableParts mask m.span.stop = .ok parts ∧ parts.stop ≤ body.stop ∧
            d = ⟨⟨m.span.start, parts.stop⟩,
              .resource owner (part m .method) (part m .path) (callable m parts)⟩ := by
  rw [mem_declarations, resources_eq, List.mem_filterMap]
  exact exists_congr fun m => and_congr_right fun _ => resourceOutcome_eq_declared

/-! ## Classes -/

/-- The body of a class is an outermost block, which encloses its methods. -/
theorem enclosing_of_class {mask rest : List Char} {m : Match Part} {stop offset : Nat}
    (hm : m ∈ topLevelMatches Patterns.classDefinition mask)
    (hbody : mask.drop m.span.stop = '{' :: rest)
    (hstop : Bracket.blockEndFrom (m.span.stop + 1) rest = some stop)
    (hstart : m.span.stop < offset) (hoffset : offset < stop) :
    (BlockMap.ofMask mask).enclosing? offset = some ⟨m.span.stop, stop⟩ := by
  obtain ⟨front, rest', hmask, hfront, hdepth⟩ := depth_behind_header
    (fun _ c d _ _ hd => Patterns.passes_classDefinition hd) hm
  have hrest : rest' = '{' :: rest := by rw [← hbody, hmask, ← hfront, List.drop_left]
  rw [hmask, hrest, ← hfront]
  rw [← hfront] at hstop hstart
  exact BlockMap.enclosing_of_closing hdepth hstop hstart hoffset

/-- The methods of a class are listed, unless its body is the body of a service as well. -/
theorem mem_functions_of_class {mask rest : List Char} {c m : Match Part} {stop : Nat}
    {parts : CallableParts} (hc : c ∈ topLevelMatches Patterns.classDefinition mask)
    (hbody : mask.drop c.span.stop = '{' :: rest)
    (hstop : Bracket.blockEndFrom (c.span.stop + 1) rest = some stop)
    (hservice : ⟨c.span.stop, stop⟩ ∉ serviceBlocks mask)
    (hm : m ∈ Patterns.function.allMatches mask) (hstart : c.span.stop < m.span.start)
    (hinside : m.span.start < stop) (hparts : callableParts mask m.span.stop = .ok parts) :
    ⟨⟨m.span.start, parts.stop⟩, functionShape m parts⟩ ∈ declarations (functions mask) := by
  refine mem_functions.mpr ⟨m, hm, fun block hblock => ?_, parts, hparts, rfl⟩
  rw [enclosing_of_class hc hbody hstop hstart hinside] at hblock
  obtain rfl : ⟨c.span.stop, stop⟩ = block := Option.some.inj hblock
  exact hservice

/-! ## Members -/

/-- Members of services and of classes in a mask: the body of a service that opens where no
block is open, as it does without a listener, is an outermost block, and nothing that
begins in it is listed as a function; every other function with parameters that are closed
and a body that is closed is listed, and so are the methods of a class whose body is not
that of a service. -/
theorem service_members (text : List Char) :
    (∀ d ∈ declarations (services (mask text)), ∃ header, d.shape = .service header ∧
      (header.listener = none → blockDepth 0 ((mask text).take header.opening) = 0) ∧
      (blockDepth 0 ((mask text).take header.opening) = 0 →
        ⟨header.opening, d.span.stop⟩ ∈ (BlockMap.ofMask (mask text)).blocks ∧
        ∀ f ∈ declarations (functions (mask text)),
          ¬ (header.opening < f.span.start ∧ f.span.start < d.span.stop))) ∧
    (∀ m ∈ Patterns.function.allMatches (mask text), ∀ parts,
      callableParts (mask text) m.span.stop = .ok parts →
      (∀ d ∈ declarations (services (mask text)), ∀ header, d.shape = .service header →
        blockDepth 0 ((mask text).take header.opening) = 0 →
        ¬ (header.opening < m.span.start ∧ m.span.start < d.span.stop)) →
      ⟨⟨m.span.start, parts.stop⟩, functionShape m parts⟩ ∈
        declarations (functions (mask text))) ∧
    (∀ c ∈ topLevelMatches Patterns.classDefinition (mask text), ∀ rest stop,
      (mask text).drop c.span.stop = '{' :: rest →
      Bracket.blockEndFrom (c.span.stop + 1) rest = some stop →
      ⟨c.span.stop, stop⟩ ∉ serviceBlocks (mask text) →
      ∀ m ∈ Patterns.function.allMatches (mask text), c.span.stop < m.span.start →
        m.span.start < stop → ∀ parts, callableParts (mask text) m.span.stop = .ok parts →
        ⟨⟨m.span.start, parts.stop⟩, functionShape m parts⟩ ∈
          declarations (functions (mask text))) := by
  refine ⟨fun d hd => ?_, fun m hm parts hparts houtside => ?_, ?_⟩
  · obtain ⟨header, front, rest, hshape, -⟩ := split_of_service hd
    refine ⟨header, hshape, depth_of_no_listener hd hshape, fun hdepth => ?_⟩
    exact ⟨(block_of_service hd hshape hdepth).1,
      fun f hf => not_in_service_of_mem_functions hd hshape hdepth hf⟩
  · exact mem_functions_of_outside hm hparts houtside
  · intro c hc rest stop hbody hstop hservice m hm hstart hinside parts hparts
    exact mem_functions_of_class hc hbody hstop hservice hm hstart hinside hparts

/-- A service with a function in it, and a class with one. -/
def serviceAndClass : List Char :=
  ("service /a \x7b\nfunction g() \x7b\n\x7d\n\x7d\n" ++
    "class C \x7b\nfunction m() \x7b\n\x7d\n\x7d").toList

/-- The function in the service is not listed, and the method of the class is. -/
theorem service_members_serviceAndClass :
    (∃ m ∈ Patterns.function.allMatches (mask serviceAndClass), m.span = ⟨13, 24⟩ ∧
      ∀ f ∈ declarations (functions (mask serviceAndClass)), f.span.start ≠ m.span.start) ∧
    ∃ f ∈ declarations (functions (mask serviceAndClass)), f.span = ⟨42, 58⟩ := by
  obtain ⟨hservices, -, hclasses⟩ := service_members serviceAndClass
  constructor
  · have hd : ⟨⟨0, 31⟩, .service ⟨some ⟨8, 10⟩, none, 11⟩⟩ ∈
        declarations (services (mask serviceAndClass)) := by decide +kernel
    obtain ⟨header, hshape, hdepth, hmembers⟩ := hservices _ hd
    obtain rfl := Shape.service.inj hshape
    obtain ⟨-, houtside⟩ := hmembers (hdepth rfl)
    obtain ⟨m, hm, hspan⟩ : ∃ m ∈ Patterns.function.allMatches (mask serviceAndClass),
        m.span = ⟨13, 24⟩ := by decide +kernel
    refine ⟨m, hm, hspan, fun f hf hstart => houtside f hf ?_⟩
    rw [hstart, hspan]
    decide
  · obtain ⟨c, hc, hclass⟩ : ∃ c ∈ topLevelMatches Patterns.classDefinition (mask serviceAndClass),
        c.span = ⟨32, 40⟩ := by decide +kernel
    obtain ⟨m, hm, hmethod⟩ : ∃ m ∈ Patterns.function.allMatches (mask serviceAndClass),
        m.span = ⟨42, 53⟩ := by decide +kernel
    have hbody : (mask serviceAndClass).drop c.span.stop =
        '{' :: (mask serviceAndClass).drop 41 := by
      rw [hclass]
      decide +kernel
    have hstop : Bracket.blockEndFrom (c.span.stop + 1) ((mask serviceAndClass).drop 41) =
        some 60 := by
      rw [hclass]
      decide +kernel
    have hservice : ⟨c.span.stop, 60⟩ ∉ serviceBlocks (mask serviceAndClass) := by
      rw [hclass]
      decide +kernel
    have hparts : callableParts (mask serviceAndClass) m.span.stop =
        .ok ⟨⟨53, 53⟩, ⟨none, 55⟩, 58⟩ := by
      rw [hmethod]
      decide +kernel
    have hlisted := hclasses c hc _ 60 hbody hstop hservice m hm
      (by rw [hclass, hmethod]; decide) (by rw [hmethod]; decide) _ hparts
    rw [hmethod] at hlisted
    exact ⟨_, hlisted, rfl⟩

end Locate

end SourceChunks
