import Mathlib
import SourceChunks.Proofs.Declaration.Locality

/-!
# Reading declarations from a longer text

The parts of a declaration that is found in a mask lie within the length of the mask, and
so within the text.  Reading them needs nothing of what stands behind the text, and behind
some more characters the same words are read.

* `Declaration.Within`: all of a declaration lies in the first characters of a text.
* `Declaration.read_append`, `Declaration.read_shift`: reading from two texts.
* `finds_ofKind`, `finds_servicesWithResources`: what is found in a mask lies within it.
-/

namespace SourceChunks

/-! ## Parts -/

/-- The parts of a header. -/
def Callable.parts {α : Type} (callable : Callable α) : List α :=
  callable.qualifiers ++ callable.parameters :: callable.returns.toList

/-- The parts of a header. -/
def Service.parts {α : Type} (service : Service α) : List α :=
  service.path.toList ++ service.listener.toList

/-- The parts of a shape. -/
def Shape.parts {α : Type} : Shape α → List α
  | importClause => []
  | configurable _ type name => [type, name]
  | moduleVariable type name => [type, name]
  | typeDefinition _ name => [name]
  | function _ name callable => name :: callable.parts
  | .service header => header.parts
  | resource owner method path callable => method :: path :: (owner.parts ++ callable.parts)
  | classDefinition _ name => [name]
  | constant _ type name => name :: type.toList

/-- A declaration and its parts lie in the first `n` characters of a text. -/
structure Declaration.Within (n : Nat) (d : Declaration Span) : Prop where
  start : d.span.start ≤ n
  stop : d.span.stop ≤ n
  parts : ∀ span ∈ d.shape.parts, span.stop ≤ n
  opening : ∀ opening ∈ d.headerEnd?, opening ≤ n

/-! ## Reading -/

section

variable {text text' : List Char}

theorem readPart_congr {span : Span} (h : span.slice text = span.slice text') :
    readPart text span = readPart text' span := by
  rw [readPart, readPart, h]

theorem readTrimmed_congr {span : Span} (h : span.slice text = span.slice text') :
    readTrimmed text span = readTrimmed text' span := by
  rw [readTrimmed, readTrimmed, h]

theorem Callable.read_congr {callable : Callable Span}
    (h : ∀ span ∈ callable.parts, span.slice text = span.slice text') :
    callable.read text = callable.read text' := by
  obtain ⟨qualifiers, parameters, returns, opening⟩ := callable
  have hqualifiers : qualifiers.map (readPart text) = qualifiers.map (readPart text') :=
    List.map_congr_left fun span hspan => readPart_congr (h span (List.mem_append_left _ hspan))
  have hparameters : readPart text parameters = readPart text' parameters :=
    readPart_congr (h parameters (List.mem_append_right _ List.mem_cons_self))
  have hreturns : returns.bind (readTrimmed text) = returns.bind (readTrimmed text') := by
    cases returns with
    | none => rfl
    | some span => exact readTrimmed_congr (h span (by simp [parts]))
  rw [read, read, hqualifiers, hparameters, hreturns]

theorem Service.read_congr {service : Service Span}
    (h : ∀ span ∈ service.parts, span.slice text = span.slice text') :
    service.read text = service.read text' := by
  obtain ⟨path, listener, opening⟩ := service
  have hpath : path.map (readPart text) = path.map (readPart text') := by
    cases path with
    | none => rfl
    | some span => exact congrArg some (readPart_congr (h span (by simp [parts])))
  have hlistener : listener.bind (readTrimmed text) = listener.bind (readTrimmed text') := by
    cases listener with
    | none => rfl
    | some span => exact readTrimmed_congr (h span (by simp [parts]))
  rw [read, read, hpath, hlistener]

/-- Reading a shape looks at nothing but its parts. -/
theorem Shape.read_congr {shape : Shape Span}
    (h : ∀ span ∈ shape.parts, span.slice text = span.slice text') :
    shape.read text = shape.read text' := by
  have hpart : ∀ span ∈ shape.parts, readPart text span = readPart text' span :=
    fun span hspan => readPart_congr (h span hspan)
  cases shape with
  | importClause => rfl
  | configurable isPublic type name =>
      rw [read, read, hpart type (by simp [parts]), hpart name (by simp [parts])]
  | moduleVariable type name =>
      rw [read, read, hpart type (by simp [parts]), hpart name (by simp [parts])]
  | typeDefinition isPublic name => rw [read, read, hpart name (by simp [parts])]
  | function isPublic name callable =>
      have hcallable : callable.read text = callable.read text' :=
        Callable.read_congr fun span hspan => h span (List.mem_cons_of_mem _ hspan)
      rw [read, read, hpart name (by simp [parts]), hcallable]
  | service header => exact congrArg Shape.service (Service.read_congr h)
  | resource owner method path callable =>
      have howner : owner.read text = owner.read text' :=
        Service.read_congr fun span hspan => h span (by simp [parts, hspan])
      have hcallable : callable.read text = callable.read text' :=
        Callable.read_congr fun span hspan => h span (by simp [parts, hspan])
      rw [read, read, hpart method (by simp [parts]), hpart path (by simp [parts]), howner,
        hcallable]
  | classDefinition isPublic name => rw [read, read, hpart name (by simp [parts])]
  | constant isPublic type name =>
      have htype : type.map (readPart text) = type.map (readPart text') := by
        cases type with
        | none => rfl
        | some span => exact congrArg some (hpart span (by simp [parts]))
      rw [read, read, hpart name (by simp [parts]), htype]

/-- What follows a text does not matter to a declaration within the text. -/
theorem Declaration.read_append {d : Declaration Span} (h : d.Within text.length)
    (more : List Char) : d.read (text ++ more) = d.read text := by
  rw [read, read]
  refine congrArg (Declaration.mk d.span) (Shape.read_congr fun span hspan => ?_)
  exact Span.slice_append more span (h.parts span hspan)

end

@[simp] theorem readPart_shift (front text : List Char) (span : Span) :
    readPart (front ++ text) (span.shift front.length) = readPart text span := by
  rw [readPart, Span.slice_shift]
  rfl

@[simp] theorem readTrimmed_shift (front text : List Char) (span : Span) :
    readTrimmed (front ++ text) (span.shift front.length) = readTrimmed text span := by
  rw [readTrimmed, Span.slice_shift]
  rfl

theorem Callable.read_shift (front text : List Char) (callable : Callable Span) :
    (callable.shift (·.shift front.length) front.length).read (front ++ text) =
      (callable.read text).shift id front.length := by
  obtain ⟨qualifiers, parameters, returns, opening⟩ := callable
  simp only [shift, read, List.map_map, Option.bind_map, Function.comp_def, readPart_shift,
    readTrimmed_shift, Option.map_id, id]

theorem Service.read_shift (front text : List Char) (service : Service Span) :
    (service.shift (·.shift front.length) front.length).read (front ++ text) =
      (service.read text).shift id front.length := by
  obtain ⟨path, listener, opening⟩ := service
  simp only [shift, read, Option.map_map, Option.bind_map, Function.comp_def, readPart_shift,
    readTrimmed_shift, Option.map_id, id]

theorem Shape.read_shift (front text : List Char) (shape : Shape Span) :
    (shape.shift (·.shift front.length) front.length).read (front ++ text) =
      (shape.read text).shift id front.length := by
  cases shape with
  | importClause => rfl
  | configurable isPublic type name => rw [shift, read, readPart_shift, readPart_shift]; rfl
  | moduleVariable type name => rw [shift, read, readPart_shift, readPart_shift]; rfl
  | typeDefinition isPublic name => rw [shift, read, readPart_shift]; rfl
  | function isPublic name callable =>
      rw [shift, read, readPart_shift, Callable.read_shift]
      rfl
  | service header => exact congrArg Shape.service (Service.read_shift front text header)
  | resource owner method path callable =>
      rw [shift, read, readPart_shift, readPart_shift, Service.read_shift, Callable.read_shift]
      rfl
  | classDefinition isPublic name => rw [shift, read, readPart_shift]; rfl
  | constant isPublic type name =>
      rw [shift, read, readPart_shift]
      simp only [Option.map_map, Function.comp_def, readPart_shift]
      simp only [read, shift, Option.map_id, id]

/-- Behind some more characters, the same words are read. -/
theorem Declaration.read_shift (front text : List Char) (d : Declaration Span) :
    (d.shift (·.shift front.length) front.length).read (front ++ text) =
      (d.read text).shift id front.length := by
  rw [read, shift]
  exact congrArg (Declaration.mk _) (Shape.read_shift front text d.shape)

/-! ## What is found lies within the mask -/

/-- The kind at whose place in a listing a kind stands: resources follow their service. -/
def Kind.group : Kind → Kind
  | resource => service
  | kind => kind

namespace Locate

open Pattern

variable {text : List Char} {p : Pattern Part}

theorem parts_stop_le {m : Match Part} (hm : p.Found text m) (label : Part) :
    ∀ span ∈ m.parts label, span.stop ≤ text.length := by
  intro span hspan
  obtain ⟨mark, hmark, rfl⟩ := List.mem_map.mp hspan
  have hmem := (List.mem_filter.mp (List.mem_reverse.mp hmark)).1
  exact ((bounds_of_found hm).2.2 mark hmem).2

theorem part?_stop_le {m : Match Part} (hm : p.Found text m) (label : Part) :
    ∀ span ∈ m.part? label, span.stop ≤ text.length := by
  intro span hspan
  obtain ⟨mark, hmark, rfl⟩ := Option.map_eq_some_iff.mp hspan
  exact ((bounds_of_found hm).2.2 mark (List.mem_of_find?_eq_some hmark)).2

/-- What a search finds belongs to one group and lies within the mask. -/
def Finds (group : Kind) (search : List Char → List Outcome) : Prop :=
  ∀ text, ∀ d ∈ declarations (search text), d.kind.group = group ∧ d.Within text.length

/-- A declaration without a body that is made of parts of a match. -/
theorem within_of_found {m : Match Part} (hm : p.Found text m) {span : Span} {shape : Shape Span}
    (hstart : span.start ≤ text.length) (hstop : span.stop ≤ text.length)
    (hopening : shape.opening? = none)
    (hparts : ∀ part ∈ shape.parts, ∃ label, part ∈ m.part? label ∨ part = Locate.part m label) :
    Declaration.Within text.length ⟨span, shape⟩ where
  start := hstart
  stop := hstop
  parts := by
    intro part hpart
    obtain ⟨label, hlabel | rfl⟩ := hparts part hpart
    · exact part?_stop_le hm label part hlabel
    · exact (part_bounds hm label).2
  opening := by
    rw [Declaration.headerEnd?, hopening]
    intro opening h
    contradiction

/-- Declarations that are whole matches lie within the mask, as the matches do. -/
theorem finds_wholeMatches {kind : Kind} {shape : Match Part → Shape Span}
    (hkind : ∀ m, (shape m).kind.group = kind) (hopening : ∀ m, (shape m).opening? = none)
    (hparts : ∀ m, ∀ span ∈ (shape m).parts,
      ∃ label, span ∈ m.part? label ∨ span = part m label) :
    Finds kind (fun mask => (topLevelMatches p mask).map fun m =>
      .declared ⟨m.span, shape m⟩) := by
  intro text d hd
  obtain ⟨m, hm, rfl⟩ := exists_match_of_mem hd
  have hfound := found_of_mem_topLevel hm
  obtain ⟨hle, hstop, -⟩ := bounds_of_found hfound
  exact ⟨hkind m, within_of_found hfound (hle.trans hstop) hstop (hopening m) (hparts m)⟩

theorem finds_imports : Finds .importClause imports :=
  finds_wholeMatches (fun _ => rfl) (fun _ => rfl) fun _ _ hspan => absurd hspan List.not_mem_nil

theorem finds_configurables : Finds .configurable configurables := by
  refine finds_wholeMatches (fun _ => rfl) (fun _ => rfl) fun m span hspan => ?_
  rcases List.mem_pair.mp hspan with rfl | rfl
  · exact ⟨.type, .inr rfl⟩
  · exact ⟨.name, .inr rfl⟩

theorem finds_constants : Finds .constant constants := by
  refine finds_wholeMatches (fun _ => rfl) (fun _ => rfl) fun m span hspan => ?_
  rcases List.mem_cons.mp hspan with rfl | hspan
  · exact ⟨.name, .inr rfl⟩
  · exact ⟨.type, .inl (Option.mem_toList.mp hspan)⟩

theorem finds_moduleVariables : Finds .moduleVariable moduleVariables := by
  intro text d hd
  obtain ⟨outcome, houtcome, hdeclared⟩ := List.mem_filterMap.mp hd
  obtain ⟨m, hm, hoption⟩ := List.mem_filterMap.mp houtcome
  have hfound := found_of_mem_allMatches hm
  simp only [Option.ite_none_left_eq_some, Option.some.injEq] at hoption
  obtain ⟨-, -, rfl⟩ := hoption
  obtain rfl := Option.some.inj hdeclared
  obtain ⟨hle, hstop⟩ := part_bounds hfound .statement
  refine ⟨rfl, within_of_found hfound (hle.trans hstop) hstop rfl fun span hspan => ?_⟩
  rcases List.mem_pair.mp hspan with rfl | rfl
  · exact ⟨.type, .inr rfl⟩
  · exact ⟨.name, .inr rfl⟩

theorem finds_blockStatements {kind : Kind} {shape : Match Part → Shape Span}
    (hkind : ∀ m, (shape m).kind.group = kind) (hopening : ∀ m, (shape m).opening? = none)
    (hparts : ∀ m, (shape m).parts = [part m .name]) :
    Finds kind (blockStatements p kind shape) := by
  intro text d hd
  obtain ⟨m, hm, stop, hend, rfl⟩ := exists_statementEnd_of_mem hd
  have hfound := found_of_mem_topLevel hm
  obtain ⟨hle, hstop, -⟩ := bounds_of_found hfound
  obtain ⟨-, hbound⟩ := statementEndFrom_bounds hend
  rw [List.length_drop] at hbound
  have hstop' : stop ≤ text.length := by omega
  refine ⟨hkind m,
    within_of_found hfound (hle.trans hstop) hstop' (hopening m) fun span hspan => ?_⟩
  rw [hparts, List.mem_singleton] at hspan
  exact ⟨.name, .inr hspan⟩

theorem finds_typeDefinitions : Finds .typeDefinition typeDefinitions :=
  finds_blockStatements (fun _ => rfl) (fun _ => rfl) fun _ => rfl

theorem finds_classes : Finds .classDefinition classes :=
  finds_blockStatements (fun _ => rfl) (fun _ => rfl) fun _ => rfl

/-! ### Functions, services and resources -/

theorem callable_within {m : Match Part} {start : Nat} {parts : CallableParts}
    (hqualifiers : ∀ span ∈ m.parts .qualifier, span.stop ≤ text.length)
    (hparts : callableParts text start = .ok parts) :
    ∀ span ∈ (callable m parts).parts, span.stop ≤ text.length := by
  obtain ⟨hparameters, hreturns, -, -⟩ := callableParts_bounds hparts
  intro span hspan
  rcases List.mem_append.mp hspan with hspan | hspan
  · exact hqualifiers span hspan
  · rcases List.mem_cons.mp hspan with rfl | hspan
    · exact hparameters
    · exact hreturns span (Option.mem_toList.mp hspan)

theorem finds_functions : Finds .function functions := by
  intro text d hd
  obtain ⟨m, hm, -, parts, hparts, rfl⟩ := mem_functions.mp hd
  have hfound := found_of_mem_allMatches hm
  obtain ⟨hle, hend, -⟩ := bounds_of_found hfound
  obtain ⟨-, -, hopening, hstop⟩ := callableParts_bounds hparts
  refine ⟨rfl, hle.trans hend, hstop, fun span hspan => ?_, fun opening h => ?_⟩
  · rcases List.mem_cons.mp hspan with rfl | hspan
    · exact (part_bounds hfound .name).2
    · exact callable_within (parts_stop_le hfound .qualifier) hparts span hspan
  · obtain rfl : parts.tail.opening = opening := Option.some.inj h
    exact hopening.le

theorem finds_services : Finds .service services := by
  intro text d hd
  obtain ⟨header, hshape, hlt, hstop, -⟩ := service_bounds hd
  obtain ⟨m, hm, opening, stop, hopening, -, rfl⟩ := mem_services hd
  obtain rfl := Shape.service.inj hshape
  have hfound := found_of_mem_topLevel hm
  have hle : opening ≤ text.length := by
    have hlt' : opening + 1 < stop := hlt
    have hstop' : stop ≤ text.length := hstop
    omega
  obtain ⟨hstart, hend, -⟩ := bounds_of_found hfound
  refine ⟨rfl, hstart.trans hend, hstop, fun span hspan => ?_, fun opening' h => ?_⟩
  · rcases List.mem_append.mp hspan with hspan | hspan
    · rcases Option.or_eq_some_iff.mp (Option.mem_toList.mp hspan) with hpath | ⟨-, hidentifier⟩
      · exact part?_stop_le hfound .path span hpath
      · exact part?_stop_le hfound .identifier span hidentifier
    · -- The listener goes up to the brace that opens the body.
      have hlistener := Option.mem_toList.mp hspan
      simp only [serviceHeader, Option.ite_none_right_eq_some, Option.some.injEq] at hlistener
      obtain ⟨-, rfl⟩ := hlistener
      exact hle
  · obtain rfl : opening = opening' := Option.some.inj h
    exact hle

/-- The resources of a service lie within the mask, as the service does. -/
theorem finds_resourcesOf {outcome : Outcome} (houtcome : outcome ∈ services text) :
    ∀ d ∈ declarations (resourcesOf text outcome),
      d.kind.group = .service ∧ d.Within text.length := by
  intro d hd
  cases outcome with
  | skipped skip => contradiction
  | declared owner =>
      have howner : owner ∈ declarations (services text) :=
        List.mem_filterMap.mpr ⟨_, houtcome, rfl⟩
      have hwithin := (finds_services text owner howner).2
      obtain ⟨header, hshape, hlt, hstop, -⟩ := service_bounds howner
      obtain ⟨span, shape⟩ := owner
      obtain rfl : shape = .service header := hshape
      simp only at hlt hstop
      obtain ⟨m, hm, -, parts, hparts, -, rfl⟩ := mem_resources.mp hd
      have hfound := found_of_mem_matchesIn
        (by show header.opening + 1 ≤ span.stop - 1; omega) (by show span.stop - 1 ≤ _; omega) hm
      have hlength : (text.take (span.stop - 1)).length ≤ text.length := List.length_take_le' _ _
      obtain ⟨-, -, hopening, hend⟩ := callableParts_bounds hparts
      obtain ⟨hstart, hle, -⟩ := bounds_of_found hfound
      refine ⟨rfl, (hstart.trans hle).trans hlength, hend, fun part hpart => ?_,
        fun opening h => ?_⟩
      · simp only [Shape.parts, List.mem_cons, List.mem_append] at hpart
        rcases hpart with rfl | rfl | hpart | hpart
        · exact (part_bounds hfound .method).2.trans hlength
        · exact (part_bounds hfound .path).2.trans hlength
        · exact hwithin.parts part hpart
        · exact callable_within
            (fun part hpart => (parts_stop_le hfound .qualifier part hpart).trans hlength)
            hparts part hpart
      · obtain rfl : parts.tail.opening = opening := Option.some.inj h
        exact hopening.le

theorem finds_servicesWithResources : Finds .service servicesWithResources := by
  intro text d hd
  obtain ⟨outcome, houtcome, hdeclared⟩ := List.mem_filterMap.mp hd
  obtain ⟨service, hservice, houtcome⟩ := List.mem_flatMap.mp houtcome
  rcases List.mem_cons.mp houtcome with rfl | houtcome
  · exact finds_services text d (List.mem_filterMap.mpr ⟨_, hservice, hdeclared⟩)
  · exact finds_resourcesOf hservice d (List.mem_filterMap.mpr ⟨outcome, houtcome, hdeclared⟩)

@[simp] theorem declarations_ofKind_function (mask : List Char) :
    declarations (ofKind mask .function) = declarations (functions mask) := by
  simp only [ofKind, declarations_append, declarations_of_skipped, List.nil_append]

/-- Whatever is found in a mask lies within it. -/
theorem finds_ofKind (kind : Kind) : Finds kind.group (ofKind · kind) := by
  intro text d hd
  cases kind with
  | importClause => exact finds_imports text d hd
  | configurable => exact finds_configurables text d hd
  | moduleVariable => exact finds_moduleVariables text d hd
  | typeDefinition => exact finds_typeDefinitions text d hd
  | function =>
      rw [declarations_ofKind_function] at hd
      exact finds_functions text d hd
  | service => exact finds_services text d hd
  | resource =>
      obtain ⟨outcome, houtcome, hdeclared⟩ := List.mem_filterMap.mp hd
      obtain ⟨service, hservice, houtcome⟩ := List.mem_flatMap.mp houtcome
      split_ifs at houtcome with hskip
      · rw [List.mem_singleton.mp houtcome] at hdeclared
        cases service with
        | declared owner => contradiction
        | skipped skip => contradiction
      · exact finds_resourcesOf hservice d (List.mem_filterMap.mpr ⟨outcome, houtcome, hdeclared⟩)
  | classDefinition => exact finds_classes text d hd
  | constant => exact finds_constants text d hd

end Locate

end SourceChunks
