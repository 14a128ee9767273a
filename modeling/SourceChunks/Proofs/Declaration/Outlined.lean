import Mathlib
import SourceChunks.Proofs.Declaration.Lookahead
import SourceChunks.Proofs.Declaration.Spans
import SourceChunks.Proofs.Declaration.Values
import SourceChunks.Proofs.Source.Widened

/-!
# What a mask shows of a declaration

A declaration ends with a semicolon or a brace, its body opens with a brace, and the type of a
variable and the method of a resource hold no line ends.

* `Outlined`: all of that.
* `newline_mem_slice_mask`, `slice_eq_of_visible`, `allBlank_slice_of_mask`: stretches of a mask and
  of its text.
* `readPart_of_visible`, `readTrimmed_of_visible`: what is read of a part.
* `outlined_importsLike`, …, `outlined_resourcesOf`: it is so for every kind.
-/

namespace SourceChunks

/-- The parts that are given as they stand: the type of a variable, the method of a resource. -/
def Shape.plainParts {α : Type} : Shape α → List α
  | configurable _ type _ => [type]
  | moduleVariable type _ => [type]
  | resource _ method _ _ => [method]
  | constant _ type _ => type.toList
  | _ => []

@[simp] theorem Shape.plainParts_read (text : List Char) (shape : Shape Span) :
    (shape.read text).plainParts = shape.plainParts.map (readPart text) := by
  cases shape with
  | constant isPublic type name => cases type <;> rfl
  | _ => rfl

/-- The characters that end a declaration. -/
def stopChars : List Char := [';', '}']

/-- A mask shows where a declaration ends and where its body opens. -/
structure Outlined (mask : List Char) (d : Declaration Span) : Prop where
  start_lt : d.span.start < d.span.stop
  last : ∃ c ∈ stopChars, mask[d.span.stop - 1]? = some c
  body : d.headerEnd?.isSome → Locate.HasBody mask d
  plain : ∀ part ∈ d.shape.plainParts, '\n' ∉ part.slice mask

/-! ## Masks and texts -/

theorem newline_mem_slice_mask {text : List Char} {span : Span} (h : '\n' ∈ span.slice text) :
    '\n' ∈ span.slice (mask text) := by
  obtain ⟨i, hstart, hstop, hi⟩ := Span.mem_slice_iff.mp h
  exact Span.mem_slice_iff.mpr ⟨i, hstart, hstop, getElem?_maskFrom_newline hi⟩

/-- Where a mask shows no spaces, it shows the text. -/
theorem slice_eq_of_visible {text : List Char} {span : Span}
    (hvisible : ' ' ∉ span.slice (mask text)) : span.slice text = span.slice (mask text) := by
  refine List.ext_getElem? fun i => ?_
  rw [Span.slice, Span.slice, List.getElem?_take, List.getElem?_take]
  split_ifs with hi
  · rw [List.getElem?_drop, List.getElem?_drop]
    cases hc : (mask text)[span.start + i]? with
    | none =>
        rw [List.getElem?_eq_none_iff, mask_length] at hc
        exact List.getElem?_eq_none hc
    | some c =>
        refine getElem?_of_maskFrom (fun heq => hvisible ?_) hc
        exact Span.mem_slice_iff.mpr ⟨span.start + i, by omega, by omega, by rw [hc, heq]⟩
  · rfl

/-- Where a mask shows more than white space, so does its text. -/
theorem allBlank_slice_of_mask {text : List Char} {span : Span}
    (h : Text.allBlank (span.slice (mask text)) = false) :
    Text.allBlank (span.slice text) = false := by
  obtain ⟨x, hx, hvisible⟩ := List.all_eq_false.mp h
  obtain ⟨i, hstart, hstop, hi⟩ := Span.mem_slice_iff.mp hx
  have hspace : x ≠ ' ' := by
    rintro rfl
    exact hvisible (by decide)
  have hmem := Span.mem_slice_iff.mpr ⟨i, hstart, hstop, getElem?_of_maskFrom hspace hi⟩
  exact List.all_eq_false.mpr ⟨x, hmem, hvisible⟩

/-- A part without white space is read as it stands in the mask. -/
theorem readPart_of_visible {text part : List Char} {span : Span}
    (hslice : span.slice (mask text) = part) (hvisible : ' ' ∉ part) :
    readPart text span = String.ofList part := by
  subst hslice
  rw [readPart, slice_eq_of_visible hvisible]

/-- A part that is not blank is read without the white space around it. -/
theorem readTrimmed_of_visible {text : List Char} {span : Span}
    (h : Text.allBlank (span.slice text) = false) :
    readTrimmed text span = some (String.ofList (Text.trim (span.slice text))) := by
  rw [readTrimmed]
  exact if_neg (by rw [List.isEmpty_iff]; exact Text.trim_ne_nil h)

theorem Outlined.stop_le {text : List Char} {d : Declaration Span} (hd : Outlined (mask text) d) :
    d.span.stop ≤ text.length := by
  obtain ⟨c, -, hlast⟩ := hd.last
  have hlt := (List.getElem?_eq_some_iff.mp hlast).1
  rw [mask_length] at hlt
  omega

namespace Locate

open Pattern Patterns

variable {mask : List Char} {d : Declaration Span}

/-! ## Parts -/

/-- A part whose classes do not hold the line feed is on one line. -/
theorem newline_notMem_part? {p : Pattern Part} {label : Part}
    (hp : p.labelAvoids label ['\n'] = true) {m : Match Part} (hm : p.Found mask m) :
    ∀ span ∈ m.part? label, '\n' ∉ span.slice mask :=
  fun span hspan hmem => notMem_of_found hp hm span hspan '\n' hmem (by simp)

theorem newline_notMem_part {p : Pattern Part} {label : Part}
    (hp : p.labelAvoids label ['\n'] = true) {m : Match Part} (hm : p.Found mask m) :
    '\n' ∉ (part m label).slice mask := by
  rw [part]
  cases hpart : m.part? label with
  | none => exact List.not_mem_nil
  | some span => exact newline_notMem_part? hp hm span hpart

/-! ## Declarations that end with a semicolon -/

theorem outlined_importsLike (hd : d ∈ importsLike mask) : Outlined mask d := by
  obtain ⟨m, hm, rfl⟩ := List.mem_map.mp hd
  have hfound := found_of_mem_allMatches (List.mem_of_mem_filter hm)
  obtain ⟨-, x, hx, hlast⟩ := last_of_found_one List.prefix_rfl hfound
  obtain rfl := beq_iff_eq.mp hx
  exact ⟨start_lt_stop_of_found (consumes_of_progresses (by decide)) hfound,
    ⟨';', by decide, hlast⟩, nofun, nofun⟩

theorem outlined_configurables (hd : d ∈ declarations (configurables mask)) : Outlined mask d := by
  obtain ⟨equals, hassigns, -⟩ := keywordHeader_of_configurable hd
  have hlt := (configurables_inOrder mask).nonempty d hd
  obtain ⟨m, hm, rfl⟩ := exists_match_of_mem hd
  refine ⟨hlt, ⟨';', by decide, hassigns.semicolon_at⟩, nofun, fun part hpart => ?_⟩
  rw [List.mem_singleton.mp hpart]
  exact newline_notMem_part (by decide) (found_of_mem_topLevel hm)

theorem outlined_constants (hd : d ∈ declarations (constants mask)) : Outlined mask d := by
  obtain ⟨equals, hassigns, -⟩ := keywordHeader_of_constant hd
  have hlt := (constants_inOrder mask).nonempty d hd
  obtain ⟨m, hm, rfl⟩ := exists_match_of_mem hd
  refine ⟨hlt, ⟨';', by decide, hassigns.semicolon_at⟩, nofun, fun part hpart => ?_⟩
  exact newline_notMem_part? (by decide) (found_of_mem_topLevel hm) part (Option.mem_toList.mp hpart)

theorem outlined_moduleVariables (hd : d ∈ declarations (moduleVariables mask)) :
    Outlined mask d := by
  obtain ⟨type, name, equals, -, hheader, -⟩ := variableHeader_of_mem hd
  have hlt := (moduleVariables_inOrder mask).nonempty d hd
  obtain ⟨m, hm, hsome⟩ := List.mem_filterMap.mp (mem_declarations.mp hd)
  simp only [Option.ite_none_left_eq_some, Option.some.injEq, Outcome.declared.injEq] at hsome
  obtain ⟨-, -, rfl⟩ := hsome
  refine ⟨hlt, ⟨';', by decide, hheader.assigns.semicolon_at⟩, nofun, fun part hpart => ?_⟩
  rw [List.mem_singleton.mp hpart]
  exact newline_notMem_part (by decide) (found_of_mem_allMatches hm)

/-! ## Declarations that end with a semicolon or a block -/

theorem exists_last_of_statementEnd {ending : List Char} (h : StatementEnd ending) :
    ∃ last ∈ stopChars, ending.getLast? = some last := by
  cases h with
  | semicolon => exact ⟨';', by decide, rfl⟩
  | block => exact ⟨'}', by decide, by rw [List.getLast?_cons, List.getLast?_append]; rfl⟩
  | blockSemicolon =>
      refine ⟨';', by decide, ?_⟩
      rw [List.getLast?_cons, List.getLast?_append, List.getLast?_cons, List.getLast?_append]
      rfl

theorem outlined_blockStatements {p : Pattern Part} (hp : p.progresses = true) {kind : Kind}
    {shape : Match Part → Shape Span} (hopening : ∀ m, (shape m).opening? = none)
    (hplain : ∀ m, (shape m).plainParts = [])
    (hd : d ∈ declarations (blockStatements p kind shape mask)) : Outlined mask d := by
  have hlt := (blockStatements_inOrder hp kind shape mask).nonempty d hd
  obtain ⟨m, hm, stop, hend, rfl⟩ := exists_statementEnd_of_mem hd
  obtain ⟨gap, ending, behind, hrest, -, -, hending, rfl⟩ := exists_of_statementEnd hend
  obtain ⟨last, hstops, hlast⟩ := exists_last_of_statementEnd hending
  refine ⟨hlt, ⟨last, hstops, ?_⟩, fun hsome => ?_, fun part hpart => ?_⟩
  · have hlength := hending.length_pos
    have hoffset : m.span.stop + gap.length + ending.length - 1 =
        m.span.stop + ((gap ++ ending).length - 1) := by
      rw [List.length_append]
      omega
    show mask[m.span.stop + gap.length + ending.length - 1]? = some last
    rw [hoffset, ← List.getElem?_drop, hrest, ← List.append_assoc]
    exact getElem?_of_getLast? (by rw [List.getLast?_append, hlast]; rfl) behind
  · rw [Declaration.headerEnd?, hopening] at hsome
    contradiction
  · rw [hplain] at hpart
    contradiction

theorem outlined_typeDefinitions (hd : d ∈ declarations (typeDefinitions mask)) : Outlined mask d :=
  outlined_blockStatements (by decide) (fun _ => rfl) (fun _ => rfl) hd

theorem outlined_classes (hd : d ∈ declarations (classes mask)) : Outlined mask d :=
  outlined_blockStatements (by decide) (fun _ => rfl) (fun _ => rfl) hd

/-! ## Declarations with a body -/

theorem outlined_of_hasBody (hd : HasBody mask d)
    (hplain : ∀ part ∈ d.shape.plainParts, '\n' ∉ part.slice mask) : Outlined mask d := by
  obtain ⟨opening, hopening, hlt, hbody⟩ := id hd
  have hbound := hbody.bounds.1
  exact ⟨by omega, ⟨'}', by decide, hbody.braces.2⟩, fun _ => hd, hplain⟩

theorem outlined_functions (hd : d ∈ declarations (functions mask)) : Outlined mask d := by
  refine outlined_of_hasBody (functions_hasBody hd) ?_
  obtain ⟨m, hm, -, parts, hparts, rfl⟩ := mem_functions.mp hd
  exact nofun

theorem outlined_services (hd : d ∈ declarations (services mask)) : Outlined mask d := by
  refine outlined_of_hasBody (services_hasBody hd) ?_
  obtain ⟨header, hshape, -⟩ := service_bounds hd
  rw [hshape]
  exact nofun

theorem outlined_resourcesOf {service : Declaration Span}
    (hservice : service ∈ declarations (services mask))
    (hd : d ∈ declarations (resourcesOf mask (.declared service))) : Outlined mask d := by
  obtain ⟨body, -, hresources⟩ := directlyIn_of_mem_resourcesOf hservice
  refine outlined_of_hasBody (hresources d hd).2 ?_
  obtain ⟨header, front, inside, behind, -, hmask, -, -, heq⟩ := exists_body_of_service hservice
  have hlength : front.length + inside.length ≤ mask.length := by
    rw [hmask, List.length_append, List.length_append]
    omega
  rw [heq] at hd
  obtain ⟨m, hm, -, parts, hparts, -, rfl⟩ := mem_resources.mp hd
  have hfound := found_of_mem_matchesIn (Nat.le_add_right _ _) hlength hm
  have hmethod : '\n' ∉ (part m .method).slice _ := newline_notMem_part (by decide) hfound
  have hbound := (part_bounds hfound .method).2
  intro span hspan
  rw [List.mem_singleton.mp hspan]
  rw [← Span.slice_append (mask.drop _) _ hbound, List.take_append_drop] at hmethod
  exact hmethod

end Locate

end SourceChunks
