import Mathlib
import SourceChunks.Proofs.Declaration.Reading
import SourceChunks.Proofs.Source.Interior

/-!
# Declarations of two texts

A text that ends with a line end in program text, and of which the mask is complete, can
stand in front of any other text: what is found in both is what is found in the first and
then, further on, what is found in the second.

* `SelfContained`: what is asked of the first text.
* `SelfContained.exists_complete`: its mask is complete.
* `found_append`: the declarations of each kind.
* `foundByService_append`: the resources of each service.
* `Locate.ofGroup`, `declaredBy_append`: the declarations of each group of a listing.
-/

namespace SourceChunks

/-- A text ends with a line end in program text; in its mask, the last character that is not
white space is a semicolon, and the brackets of each kind are balanced. -/
structure SelfContained (text : List Char) : Prop where
  line : text.getLast? = some '\n'
  code : ∃ fresh, scan (.code true) text [] = .code fresh
  semicolon : (Text.trimRight (mask text)).getLast? = some ';'
  parens : Balanced '(' ')' (mask text)
  squares : Balanced '[' ']' (mask text)
  braces : Balanced '{' '}' (mask text)

/-- A line end is never blanked. -/
theorem getLast_mask {text : List Char} (h : text.getLast? = some '\n') :
    (mask text).getLast? = some '\n' := by
  obtain ⟨front, rfl⟩ := List.getLast?_eq_some_iff.mp h
  have hkept : ∀ mode, maskFrom mode ['\n'] = ['\n'] := by
    intro mode
    cases mode with
    | code fresh => rfl
    | comment => rfl
    | string escaped => rfl
    | template => rfl
  rw [mask, maskFrom_append, hkept, List.getLast?_concat]

/-- What is trimmed off at the end of a text is white space. -/
theorem exists_of_trimRight {text : List Char} {x : Char}
    (h : (Text.trimRight text).getLast? = some x) :
    ∃ front tail, text = front ++ x :: tail ∧ ∀ y ∈ tail, Text.isBlank y = true := by
  obtain ⟨gap, hgap, hblank⟩ := Text.exists_trimLeft text.reverse
  rw [Text.trimRight, List.getLast?_reverse] at h
  obtain ⟨more, hmore⟩ := List.head?_eq_some_iff.mp h
  rw [hmore] at hgap
  refine ⟨more.reverse, gap.reverse, ?_, fun y hy => hblank y (List.mem_reverse.mp hy)⟩
  have hreverse := congrArg List.reverse hgap
  rw [List.reverse_reverse] at hreverse
  rw [hreverse]
  simp

namespace SelfContained

variable {text : List Char}

/-- The mask of such a text is complete. -/
theorem exists_complete (h : SelfContained text) : ∃ tail, Complete tail (mask text) := by
  obtain ⟨front, tail, hmask, hblank⟩ := exists_of_trimRight h.semicolon
  have hlast := getLast_mask h.line
  refine ⟨tail, ⟨⟨front, hmask.symm⟩, hblank, ?_⟩, h.parens.level_eq (by decide) 0,
    h.squares.level_eq (by decide) 0, h.braces.level_eq (by decide) 0⟩
  rw [hmask, List.getLast?_append, List.getLast?_cons] at hlast
  cases hline : tail.getLast? with
  | none =>
      rw [hline] at hlast
      exact absurd (Option.some.inj hlast) (by decide)
  | some x =>
      rw [hline] at hlast
      exact hlast

theorem mask_append (h : SelfContained text) (more : List Char) :
    mask (text ++ more) = mask text ++ mask more := by
  obtain ⟨front, rfl⟩ := List.getLast?_eq_some_iff.mp h.line
  obtain ⟨fresh, hcode⟩ := h.code
  exact SourceChunks.mask_append hcode more

end SelfContained

/-! ## Declarations -/

/-- The declarations that a search finds in the mask of a text, read from the text. -/
def declaredBy (search : List Char → List Outcome) (text : List Char) :
    List (Declaration String) :=
  (declarations (search (mask text))).map (·.read text)

section

variable {text : List Char}

/-- Declarations that are found in either of two masks are read from either of two texts. -/
theorem read_of_append {ds ds' : List (Declaration Span)}
    (hwithin : ∀ d ∈ ds, d.Within text.length) (more : List Char) :
    (ds ++ ds'.map (·.shift (·.shift text.length) text.length)).map (·.read (text ++ more)) =
      ds.map (·.read text) ++ (ds'.map (·.read more)).map (·.shift id text.length) := by
  rw [List.map_append, List.map_map, List.map_map]
  congr 1
  · exact List.map_congr_left fun d hd => Declaration.read_append (hwithin d hd) more
  · exact List.map_congr_left fun d _ => Declaration.read_shift text more d

theorem declaredBy_append (h : SelfContained text) (more : List Char) {group : Kind}
    {search : List Char → List Outcome} (hfinds : Locate.Finds group search)
    (hsplit : declarations (search (mask text ++ mask more)) = declarations (search (mask text)) ++
      (declarations (search (mask more))).map
        (·.shift (·.shift (mask text).length) (mask text).length)) :
    declaredBy search (text ++ more) =
      declaredBy search text ++ (declaredBy search more).map (·.shift id text.length) := by
  have hwithin : ∀ d ∈ declarations (search (mask text)), d.Within text.length := by
    intro d hd
    rw [← mask_length text]
    exact (hfinds (mask text) d hd).2
  rw [declaredBy, declaredBy, declaredBy, h.mask_append, hsplit, mask_length,
    read_of_append hwithin]

/-- The declarations of each kind in two texts. -/
theorem found_append (h : SelfContained text) (more : List Char) (kind : Kind) :
    found (text ++ more) kind =
      found text kind ++ (found more kind).map (·.shift id text.length) := by
  obtain ⟨tail, hcomplete⟩ := h.exists_complete
  exact declaredBy_append h more (Locate.finds_ofKind kind)
    (Locate.declarations_ofKind_append hcomplete (mask more) kind)

/-- The resources of each service of two texts. -/
theorem foundByService_append (h : SelfContained text) (more : List Char) :
    foundByService (text ++ more) =
      foundByService text ++ (foundByService more).map (·.map (·.shift id text.length)) := by
  obtain ⟨tail, hcomplete⟩ := h.exists_complete
  have hservices : Locate.services (mask text ++ mask more) = _ := Locate.services_splits hcomplete
  rw [foundByService, foundByService, foundByService, h.mask_append, hservices, List.map_append,
    List.map_map, List.map_map]
  congr 1
  · refine List.map_congr_left fun outcome houtcome => ?_
    rw [Locate.resourcesOf_append hcomplete houtcome]
    refine List.map_congr_left fun d hd => Declaration.read_append ?_ more
    rw [← mask_length text]
    exact (Locate.finds_resourcesOf houtcome d hd).2
  · refine List.map_congr_left fun outcome houtcome => ?_
    rw [Function.comp_apply, Function.comp_apply, Locate.resourcesOf_shift (mask text) houtcome,
      declarations_shift, mask_length, List.map_map, List.map_map]
    exact List.map_congr_left fun d _ => Declaration.read_shift text more d

end

/-! ## Groups -/

/-- The groups of a listing, in their order. -/
def Kind.groups : List Kind :=
  [importClause, configurable, moduleVariable, typeDefinition, function, service, classDefinition,
    constant]

namespace Locate

/-- The search that lists a group. -/
def ofGroup : Kind → List Char → List Outcome
  | .importClause => imports
  | .configurable => configurables
  | .moduleVariable => moduleVariables
  | .typeDefinition => typeDefinitions
  | .function => functions
  | .service => servicesWithResources
  | .resource => servicesWithResources
  | .classDefinition => classes
  | .constant => constants

theorem all_eq (mask : List Char) : all mask = Kind.groups.flatMap (ofGroup · mask) := by
  simp only [all, Kind.groups, ofGroup, List.flatMap_cons, List.flatMap_nil, List.append_nil,
    List.append_assoc]

theorem finds_ofGroup (group : Kind) : Finds group.group (ofGroup group) := by
  cases group with
  | importClause => exact finds_imports
  | configurable => exact finds_configurables
  | moduleVariable => exact finds_moduleVariables
  | typeDefinition => exact finds_typeDefinitions
  | function => exact finds_functions
  | service => exact finds_servicesWithResources
  | resource => exact finds_servicesWithResources
  | classDefinition => exact finds_classes
  | constant => exact finds_constants

theorem ofGroup_splits {tail text : List Char} (h : Complete tail text) (more : List Char)
    (group : Kind) : Splits (ofGroup group) text more := by
  cases group with
  | importClause => exact imports_splits h
  | configurable => exact configurables_splits h
  | moduleVariable => exact moduleVariables_splits h
  | typeDefinition => exact typeDefinitions_splits h
  | function => exact functions_splits h
  | service => exact servicesWithResources_splits h
  | resource => exact servicesWithResources_splits h
  | classDefinition => exact classes_splits h
  | constant => exact constants_splits h

end Locate

/-- The declarations of each group in two texts. -/
theorem declaredBy_ofGroup_append {text : List Char} (h : SelfContained text) (more : List Char)
    (group : Kind) :
    declaredBy (Locate.ofGroup group) (text ++ more) =
      declaredBy (Locate.ofGroup group) text ++
        (declaredBy (Locate.ofGroup group) more).map (·.shift id text.length) := by
  obtain ⟨tail, hcomplete⟩ := h.exists_complete
  exact declaredBy_append h more (Locate.finds_ofGroup group)
    (Locate.declarations_of_splits (Locate.ofGroup_splits hcomplete (mask more) group))

end SourceChunks
