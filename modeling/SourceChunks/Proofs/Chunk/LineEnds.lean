import Mathlib
import SourceChunks.Proofs.Chunk.Bounding
import SourceChunks.Proofs.Declaration.Listing
import SourceChunks.Proofs.Declaration.Outlined
import SourceChunks.Proofs.Declaration.Returns
import SourceChunks.Proofs.Source.Points

/-!
# Chunks and line ends

Whether the lines of a text end with a line feed alone or with a carriage return in front of it
makes no difference to its chunks, but for the carriage returns in their texts and for one thing:
an import needs two characters between its word and its semicolon, and the two characters of a
line end are enough.

* `positionOf_place`: lines and columns are the same.
* `Chunk.Agrees`: two chunks that differ in carriage returns only.
* `chunksOf_agrees`: the chunks of one declaration.
* `isBareImport_iff`, `imports_agree`: the imports that need the two characters of a line end.
* `wholeChunks_agrees`, `chunkText_agrees`: the chunks of a text.
-/

namespace SourceChunks

open Text Locate Patterns

/-! ## Positions -/

/-- A carriage return that ends a line is behind all that is on the line. -/
@[simp] theorem Point.behind_withReturns (front : List Char) :
    Point.behind (withReturns front) = Point.behind front := by
  induction front using List.reverseRecOn with
  | nil => rfl
  | append_singleton front c ih =>
      rw [withReturns_concat, behind_concat]
      split_ifs
      · have hsplit : withReturns front ++ ['\r', '\n'] = withReturns front ++ ['\r'] ++ ['\n'] := by
          rw [List.append_assoc]
          rfl
        rw [hsplit, behind_concat, if_pos rfl, behind_concat, if_neg (by decide), ih]
      · rw [behind_concat, if_neg ‹_›, ih]

theorem pointAt_withReturns {text : List Char} {offset : Nat} (hoffset : offset ≤ text.length) :
    (LineIndex.ofText (withReturns text)).pointAt (wideOffset text offset) =
      (LineIndex.ofText text).pointAt offset := by
  have hwide : wideOffset text offset ≤ (withReturns text).length := by
    have hmono := (strictMono_wideOffset text).monotone hoffset
    rwa [wideOffset_eq_length (le_refl _), List.take_length] at hmono
  rw [LineIndex.pointAt_eq_behind hwide, take_withReturns, Point.behind_withReturns,
    LineIndex.pointAt_eq_behind hoffset]

section

variable {text : List Char} {d : Declaration Span}

/-- The first and the last character of a declaration stand at the same lines and columns. -/
theorem positionOf_place (h : Widens (wideOffset text) (mask text) (mask (withReturns text)))
    (hd : Outlined (mask text) d) :
    positionOf (LineIndex.ofText (withReturns text)) (d.span.place (wideOffset text)) =
      positionOf (LineIndex.ofText text) d.span := by
  have hstop := hd.stop_le
  have hlt := hd.start_lt
  -- The last character is no line feed, so it has moved as far as the end behind it.
  have hlast : wideOffset text d.span.stop - 1 = wideOffset text (d.span.stop - 1) := by
    obtain ⟨c, hc, hlast⟩ := hd.last
    have hne : c ≠ '\n' := by
      rintro rfl
      exact absurd hc (by decide)
    exact (h.pred (by omega) hne hlast).symm
  have hle : wideOffset text d.span.start ≤ wideOffset text (d.span.stop - 1) :=
    h.mono.monotone (by omega)
  have hmax : max d.span.start (d.span.stop - 1) = d.span.stop - 1 := by omega
  have hfirst : d.span.start ≤ text.length := by omega
  have hbehind : d.span.stop - 1 ≤ text.length := by omega
  unfold positionOf
  simp only [Span.place, hlast, Nat.max_eq_right hle, hmax, pointAt_withReturns hfirst,
    pointAt_withReturns hbehind]

end

/-! ## What chunks tell -/

/-- Two chunks tell the same, but for carriage returns in the texts that are given as they
stand. -/
structure Chunk.Agrees (chunk chunk' : Chunk) : Prop where
  kind : chunk'.kind = chunk.kind
  role : chunk'.role = chunk.role
  position : chunk'.position = chunk.position
  visibility : chunk'.visibility = chunk.visibility
  variableType : chunk'.variableType = chunk.variableType
  parameters : chunk'.parameters = chunk.parameters
  returnType : chunk'.returnType = chunk.returnType
  httpMethod : chunk'.httpMethod = chunk.httpMethod
  name : chunk'.name.map withoutCr = chunk.name.map withoutCr
  content : withoutCr chunk'.content = withoutCr chunk.content
  path : chunk'.path.map withoutCr = chunk.path.map withoutCr
  listener : chunk'.listener.map withoutCr = chunk.listener.map withoutCr
  resourcePath : chunk'.resourcePath.map withoutCr = chunk.resourcePath.map withoutCr
  fullPath : chunk'.fullPath.map withoutCr = chunk.fullPath.map withoutCr
  servicePath : chunk'.servicePath.map withoutCr = chunk.servicePath.map withoutCr
  serviceListener : chunk'.serviceListener.map withoutCr = chunk.serviceListener.map withoutCr

theorem map_withoutCr_map_crlf (part : Option String) :
    (part.map crlf).map withoutCr = part.map withoutCr := by
  cases part with
  | none => rfl
  | some part => exact congrArg some (withoutCr_crlf part)

section

variable {bare bare' : String → Chunk} {φ : Nat → Nat}

/-- The halves of a function or resource agree if their texts do. -/
theorem callableChunks_agrees
    (hbare : ∀ content content', withoutCr content' = withoutCr content →
      (bare content).Agrees (bare' content'))
    {signature signature' : String} (hsignature : withoutCr signature' = withoutCr signature)
    (body : List Char) (callable : Callable String) {known known' : Chunk → Chunk}
    (hknown : ∀ chunk chunk', chunk.Agrees chunk' → (known chunk).Agrees (known' chunk')) :
    List.Forall₂ Chunk.Agrees (callableChunks bare signature body callable known)
      (callableChunks bare' signature' (withReturns body) (callable.place crlf φ) known') := by
  have hreturns : (((callable.place crlf φ).returns.map collapsed).getD noReturnType) =
      (callable.returns.map collapsed).getD noReturnType := by
    rw [show (callable.place crlf φ).returns = callable.returns.map crlf from rfl, Option.map_map,
      show collapsed ∘ crlf = collapsed from funext collapsed_crlf]
  have hhalf : ∀ (role : Role) {content content' : String}, withoutCr content' = withoutCr content →
      Chunk.Agrees
        { bare content with
          role := some role
          parameters := some (splitParameters callable.parameters)
          returnType := some ((callable.returns.map collapsed).getD noReturnType) }
        { bare' content' with
          role := some role
          parameters := some (splitParameters (crlf callable.parameters))
          returnType := some (((callable.place crlf φ).returns.map collapsed).getD noReturnType) } :=
    fun role content content' hcontent =>
      { hbare content content' hcontent with
        role := rfl
        parameters := congrArg some (splitParameters_crlf callable.parameters)
        returnType := congrArg some hreturns }
  have hbody : withoutCr (String.ofList (trim (withReturns body))) =
      withoutCr (String.ofList (trim body)) := by
    rw [trim_withReturns, ← crlf_ofList, withoutCr_crlf]
  exact .cons (hknown _ _ (hhalf .signature hsignature))
    (.cons (hknown _ _ (hhalf .body hbody)) .nil)

/-- The chunks of a shape agree if its bare chunks do, where the parts that are given as they
stand hold no line ends. -/
theorem chunksWith_agrees
    (hbare : ∀ content content', withoutCr content' = withoutCr content →
      (bare content).Agrees (bare' content'))
    (whole : String) (body : List Char) (header : String) {shape : Shape String}
    (hplain : ∀ part ∈ shape.plainParts, crlf part = part) :
    List.Forall₂ Chunk.Agrees (chunksWith bare whole body header shape)
      (chunksWith bare' (crlf whole) (withReturns body) (crlf header) (shape.place crlf φ)) := by
  have hwhole := hbare whole (crlf whole) (withoutCr_crlf whole)
  cases shape with
  | importClause => exact .cons hwhole .nil
  | configurable isPublic type name =>
      have htype := hplain type List.mem_cons_self
      exact .cons { hwhole with visibility := rfl, variableType := congrArg some htype } .nil
  | moduleVariable type name =>
      have htype := hplain type List.mem_cons_self
      exact .cons { hwhole with variableType := congrArg some htype } .nil
  | typeDefinition isPublic name => exact .cons { hwhole with visibility := rfl } .nil
  | function isPublic name callable =>
      rw [Shape.place, chunksWith, chunksWith]
      refine callableChunks_agrees hbare ?_ body callable fun chunk chunk' h =>
        { h with visibility := rfl }
      show withoutCr (functionSignature isPublic (callable.qualifiers.map crlf) (crlf name)
        (splitParameters (crlf callable.parameters)) (callable.returns.map crlf)) = _
      rw [splitParameters_crlf, withoutCr_functionSignature]
  | service service =>
      have hheader := hbare (collapsed header) (collapsed (crlf header))
        (by rw [collapsed_crlf])
      refine .cons { hheader with path := ?_, listener := ?_ } .nil
      · exact congrArg some (by rw [Service.place_route, withoutCr_crlf])
      · exact map_withoutCr_map_crlf service.listener
  | resource owner method path callable =>
      have hmethod := hplain method List.mem_cons_self
      have hfull : withoutCr (fullPath (owner.place crlf φ).route (crlf path)) =
          withoutCr (fullPath owner.route path) := by
        rw [Service.place_route, fullPath_crlf, withoutCr_crlf]
      have howner : withoutCr (owner.place crlf φ).name = withoutCr owner.name := by
        rw [Service.place_name, withoutCr_crlf]
      rw [Shape.place, chunksWith, chunksWith]
      refine callableChunks_agrees hbare ?_ body callable fun chunk chunk' h =>
        { h with
          httpMethod := congrArg some hmethod
          resourcePath := congrArg some (withoutCr_crlf path)
          fullPath := congrArg some hfull
          servicePath := congrArg some howner
          serviceListener := map_withoutCr_map_crlf owner.listener }
      show withoutCr (resourceSignature (callable.qualifiers.map crlf) (crlf method) (crlf path)
        (splitParameters (crlf callable.parameters)) (callable.returns.map crlf)) = _
      rw [splitParameters_crlf, withoutCr_resourceSignature]
  | classDefinition isPublic name => exact .cons { hwhole with visibility := rfl } .nil
  | constant isPublic type name =>
      have htype : type.map crlf = type := by
        cases type with
        | none => rfl
        | some type => exact congrArg some (hplain type List.mem_cons_self)
      exact .cons { hwhole with visibility := rfl, variableType := htype } .nil

end

/-! ## The chunks of a declaration -/

section

variable {text : List Char} {d : Declaration Span}

theorem Outlined.crlf_eq_self (hd : Outlined (mask text) d) :
    ∀ part ∈ (d.read text).shape.plainParts, crlf part = part := by
  intro part hpart
  rw [Declaration.read, Shape.plainParts_read] at hpart
  obtain ⟨span, hspan, rfl⟩ := List.mem_map.mp hpart
  refine Text.crlf_eq_self fun hmem => hd.plain span hspan (newline_mem_slice_mask ?_)
  rwa [readPart, String.toList_ofList] at hmem

variable (h : Widens (wideOffset text) (mask text) (mask (withReturns text)))

include h in
theorem bodyOf_place (hd : Outlined (mask text) d) :
    bodyOf (withReturns text) ((d.read text).place crlf (wideOffset text)) =
      withReturns (bodyOf text (d.read text)) := by
  have hbody : ((d.read text).place crlf (wideOffset text)).body? =
      (d.read text).body?.map (Span.place (wideOffset text)) := by
    cases hopening : d.headerEnd? with
    | none =>
        simp [Declaration.body?, Declaration.place_headerEnd, hopening]
    | some opening =>
        have hplaced := body_placed h (hd.body (by rw [hopening]; rfl))
        rw [Declaration.body?, Declaration.place_headerEnd] at hplaced
        rw [Declaration.body?, Declaration.place_headerEnd, Declaration.body?,
          Declaration.read_headerEnd]
        exact hplaced
  rw [bodyOf, bodyOf, hbody]
  cases (d.read text).body? with
  | none => rfl
  | some body => exact slice_withReturns text body

@[simp] theorem headerOf_place (d : Declaration String) :
    headerOf (withReturns text) (d.place crlf (wideOffset text)) = crlf (headerOf text d) := by
  rw [headerOf, headerOf, Declaration.place_headerEnd]
  cases d.headerEnd? with
  | none => rfl
  | some opening => exact readPart_crlf text ⟨d.span.start, opening⟩

include h in
/-- The chunks of a declaration agree with those of the same declaration with carriage returns. -/
theorem chunksOf_agrees (file : String) (hd : Outlined (mask text) d) :
    List.Forall₂ Chunk.Agrees (chunksOf file text (LineIndex.ofText text) (d.read text))
      (chunksOf file (withReturns text) (LineIndex.ofText (withReturns text))
        ((d.place (Span.place (wideOffset text)) (wideOffset text)).read (withReturns text))) := by
  rw [Declaration.read_place, chunksOf_eq, chunksOf_eq, bodyOf_place h hd, headerOf_place]
  rw [show ((d.read text).place crlf (wideOffset text)).span = d.span.place (wideOffset text) from rfl,
    readPart_crlf]
  refine chunksWith_agrees (fun content content' hcontent => ?_) _ _ _ hd.crlf_eq_self
  have hname : ((d.read text).place crlf (wideOffset text)).name?.map withoutCr =
      (d.read text).name?.map withoutCr := by
    rw [Declaration.place_name, map_withoutCr_map_crlf]
  exact {
    kind := Declaration.place_kind _ _ _
    role := rfl
    position := positionOf_place h hd
    visibility := rfl
    variableType := rfl
    parameters := rfl
    returnType := rfl
    httpMethod := rfl
    name := hname
    content := hcontent
    path := rfl
    listener := rfl
    resourcePath := rfl
    fullPath := rfl
    servicePath := rfl
    serviceListener := rfl }

end

/-! ## Imports -/

/-- The text of an import that names nothing: a line end is all that stands between its word
and its semicolon. -/
def importOfLineEnd : String :=
  "import\r\n;"

section

variable {text : List Char} {d : Declaration Span}

/-- A stretch becomes longer by the number of its line feeds. -/
theorem length_slice_place (hstop : d.span.stop ≤ text.length) (hle : d.span.start ≤ d.span.stop) :
    wideOffset text d.span.stop = wideOffset text d.span.start + (d.span.stop - d.span.start) +
      (d.span.slice text).count '\n' := by
  have hmono := (strictMono_wideOffset text).monotone hle
  have hwide : (d.span.place (wideOffset text)).stop ≤ (withReturns text).length := by
    have hmono := (strictMono_wideOffset text).monotone hstop
    rwa [wideOffset_eq_length (le_refl _), List.take_length] at hmono
  have hlength := Span.slice_length _ _ hwide
  rw [slice_withReturns, length_withReturns, Span.slice_length _ _ hstop] at hlength
  simp only [Span.place] at hlength
  omega

/-- What is bare with wide line ends is bare with line feeds. -/
theorem isBareImport_of_place (hd : d ∈ importsLike (mask text))
    (hbare : isBareImport (d.span.place (wideOffset text)) = true) :
    isBareImport d.span = true := by
  have hle := le_of_mem_importsLike hd
  have hlength := length_slice_place (outlined_importsLike hd).stop_le (by omega)
  have hplace : wideOffset text d.span.stop = wideOffset text d.span.start + 8 :=
    beq_iff_eq.mp hbare
  exact beq_iff_eq.mpr (by omega)

/-- An import that is bare with line feeds only has the text of a line end. -/
theorem isBareImport_iff (hd : d ∈ importsLike (mask text))
    (hwide : isBareImport (d.span.place (wideOffset text)) = false) :
    isBareImport d.span = true ↔ withReturns (d.span.slice text) = importOfLineEnd.toList := by
  have hstop := (outlined_importsLike hd).stop_le
  have hle := le_of_mem_importsLike hd
  have hlength := length_slice_place hstop (by omega)
  constructor
  · intro hbare
    obtain ⟨x, -, hslice⟩ := slice_of_bare_import hd hbare
    -- It has become longer, so the character between the word and the semicolon is a line feed.
    have hfeed : '\n' ∈ d.span.slice text := by
      by_contra hnone
      rw [List.count_eq_zero_of_not_mem hnone] at hlength
      have height : d.span.stop = d.span.start + 8 := beq_iff_eq.mp hbare
      have hne : ¬ wideOffset text d.span.stop = wideOffset text d.span.start + 8 :=
        beq_eq_false_iff_ne.mp hwide
      omega
    obtain rfl : x = '\n' := by
      have hmem := newline_mem_slice_mask hfeed
      rw [hslice, List.mem_append, List.mem_pair] at hmem
      rcases hmem with hword | rfl | hsemicolon
      · exact absurd hword (by decide)
      · rfl
      · exact absurd hsemicolon (by decide)
    rw [slice_eq_of_visible (by rw [hslice]; decide), hslice]
    decide
  · intro htext
    have hcount := congrArg (List.count '\n') htext
    have hsum := congrArg List.length htext
    rw [count_withReturns] at hcount
    rw [length_withReturns, hcount, Span.slice_length _ _ hstop] at hsum
    have hnine : d.span.stop - d.span.start + 1 = 9 := hsum
    exact beq_iff_eq.mpr (by omega)

end

/-! ## Listings -/

namespace Locate

variable {φ : Nat → Nat} {mask mask' : List Char}

/-- The declarations of a mask other than imports, in the order of a listing. -/
def others (mask : List Char) : List (Declaration Span) :=
  declarations (configurables mask) ++ declarations (moduleVariables mask) ++
    declarations (typeDefinitions mask) ++ declarations (functions mask) ++
    declarations (servicesWithResources mask) ++ declarations (classes mask) ++
    declarations (constants mask)

theorem declarations_all (mask : List Char) :
    declarations (all mask) = declarations (imports mask) ++ others mask := by
  simp only [all, others, declarations_append, List.append_assoc]

theorem servicesWithResources_widened (h : Widens φ mask mask') :
    declarations (servicesWithResources mask') =
      placed φ (declarations (servicesWithResources mask)) := by
  rw [declarations_servicesWithResources, declarations_servicesWithResources, services_widened h,
    placed, placed, List.flatMap_map, List.map_flatMap]
  refine List.flatMap_congr fun service hservice => ?_
  rw [resourcesOf_widened h hservice]
  rfl

theorem others_widened (h : Widens φ mask mask') : others mask' = placed φ (others mask) := by
  rw [others, configurables_widened h, moduleVariables_widened h, typeDefinitions_widened h,
    functions_widened h, servicesWithResources_widened h, classes_widened h, constants_widened h,
    others]
  simp only [placed, List.map_append]

theorem outlined_others {d : Declaration Span} (hd : d ∈ others mask) :
    Outlined mask d ∧ d.kind ≠ .importClause := by
  have hkind : ∀ kind, kind ≠ .importClause → d ∈ declarations (ofKind mask kind) →
      d.kind ≠ .importClause := fun kind hne hd => by rwa [kind_of_mem_ofKind hd]
  simp only [others, List.mem_append] at hd
  rcases hd with (((((hd | hd) | hd) | hd) | hd) | hd) | hd
  · exact ⟨outlined_configurables hd, hkind .configurable (by decide) hd⟩
  · exact ⟨outlined_moduleVariables hd, hkind .moduleVariable (by decide) hd⟩
  · exact ⟨outlined_typeDefinitions hd, hkind .typeDefinition (by decide) hd⟩
  · refine ⟨outlined_functions hd, hkind .function (by decide) ?_⟩
    rwa [declarations_ofKind_function]
  · rw [declarations_servicesWithResources, List.mem_flatMap] at hd
    obtain ⟨service, hservice, hd⟩ := hd
    rcases List.mem_cons.mp hd with rfl | hresource
    · exact ⟨outlined_services hservice, hkind .service (by decide) hservice⟩
    · refine ⟨outlined_resourcesOf hservice hresource, hkind .resource (by decide) ?_⟩
      rw [declarations_ofKind_resource]
      exact List.mem_flatMap.mpr ⟨service, hservice, hresource⟩
  · exact ⟨outlined_classes hd, hkind .classDefinition (by decide) hd⟩
  · exact ⟨outlined_constants hd, hkind .constant (by decide) hd⟩

end Locate

/-- An import chunk that names nothing. -/
def Chunk.importsNothing (chunk : Chunk) : Bool :=
  chunk.kind = .importClause && chunk.content = importOfLineEnd

/-- Put together member by member, two lists correspond if what the members give does, and if
the second list keeps nothing of those members that only it has. -/
theorem forall₂_flatMap_filter {α β γ : Type} {R : β → γ → Prop} {f : α → List β} {f' : α → List γ}
    {has has' : α → Bool} {keeps : γ → Bool} {l : List α}
    (hboth : ∀ a ∈ l, has a = true → has' a = true ∧ List.Forall₂ R (f a) ((f' a).filter keeps))
    (honly : ∀ a ∈ l, has a = false → has' a = true → (f' a).filter keeps = []) :
    List.Forall₂ R ((l.filter has).flatMap f) (((l.filter has').flatMap f').filter keeps) := by
  induction l with
  | nil => exact .nil
  | cons a l ih =>
      obtain ⟨hboth, hboths⟩ := List.forall_mem_cons.mp hboth
      obtain ⟨honly, honlys⟩ := List.forall_mem_cons.mp honly
      have ih := ih hboths honlys
      cases hhas : has a with
      | true =>
          obtain ⟨hhas', hfirst⟩ := hboth hhas
          rw [List.filter_cons_of_pos hhas, List.filter_cons_of_pos hhas', List.flatMap_cons,
            List.flatMap_cons, List.filter_append]
          exact List.rel_append hfirst ih
      | false =>
          rw [List.filter_cons_of_neg (by simp [hhas])]
          cases hhas' : has' a with
          | true =>
              rw [List.filter_cons_of_pos hhas', List.flatMap_cons, List.filter_append,
                honly hhas hhas']
              exact ih
          | false =>
              rw [List.filter_cons_of_neg (by simp [hhas'])]
              exact ih

section

variable (file : String) {text : List Char}

/-- The chunks of a declaration that was found in the mask of a text. -/
def chunksAt (file : String) (text : List Char) (d : Declaration Span) : List Chunk :=
  chunksOf file text (LineIndex.ofText text) (d.read text)

theorem wholeChunks_eq (file text : String) :
    wholeChunks file text =
      (declarations (imports (mask text.toList))).flatMap (chunksAt file text.toList) ++
        (others (mask text.toList)).flatMap (chunksAt file text.toList) := by
  rw [← List.flatMap_append, ← declarations_all]
  unfold wholeChunks declarationsOf
  rw [List.flatMap_map]
  rfl

/-- The one chunk of an import holds its text. -/
theorem filter_chunksAt_import {d : Declaration Span} (hshape : d.shape = .importClause) :
    (chunksAt file text d).filter (!·.importsNothing) =
      if d.span.slice text = importOfLineEnd.toList then [] else chunksAt file text d := by
  obtain ⟨span, shape⟩ := d
  obtain rfl : shape = .importClause := hshape
  have hchunks : chunksAt file text ⟨span, .importClause⟩ =
      [bareChunk file (LineIndex.ofText text) ⟨span, .importClause⟩ (readPart text span)] := rfl
  have hnothing : (bareChunk file (LineIndex.ofText text) ⟨span, .importClause⟩
      (readPart text span)).importsNothing = decide (span.slice text = importOfLineEnd.toList) := by
    have hcontent : readPart text span = importOfLineEnd ↔
        span.slice text = importOfLineEnd.toList := by
      rw [← String.toList_inj, readPart, String.toList_ofList]
    exact decide_eq_decide.mpr hcontent
  rw [hchunks, List.filter_singleton, hnothing]
  split_ifs <;> simp_all

/-- The chunks of other declarations import nothing at all. -/
theorem filter_chunksAt_other {d : Declaration Span} (hkind : d.kind ≠ .importClause) :
    (chunksAt file text d).filter (!·.importsNothing) = chunksAt file text d := by
  refine List.filter_eq_self.mpr fun chunk hchunk => ?_
  have hdescribes := (describes_of_mem_chunksOf hchunk).kind
  rw [Declaration.read_kind] at hdescribes
  simp [Chunk.importsNothing, hdescribes, hkind]

variable (h : Widens (wideOffset text) (mask text) (mask (withReturns text)))

include h in
theorem imports_agree :
    List.Forall₂ Chunk.Agrees ((declarations (imports (mask text))).flatMap (chunksAt file text))
      (((declarations (imports (mask (withReturns text)))).flatMap
        (chunksAt file (withReturns text))).filter (!·.importsNothing)) := by
  rw [imports_widened h, imports_eq, placed, List.flatMap_map]
  have hshape : ∀ d ∈ importsLike (mask text), d.shape = .importClause := by
    intro d hd
    obtain ⟨m, -, rfl⟩ := List.mem_map.mp hd
    rfl
  have hfilter : ∀ d ∈ importsLike (mask text),
      (chunksAt file (withReturns text)
        (d.place (Span.place (wideOffset text)) (wideOffset text))).filter (!·.importsNothing) =
      if withReturns (d.span.slice text) = importOfLineEnd.toList then []
      else chunksAt file (withReturns text)
        (d.place (Span.place (wideOffset text)) (wideOffset text)) := by
    intro d hd
    rw [filter_chunksAt_import file (by rw [Declaration.place, hshape d hd]; rfl), ← slice_withReturns]
    rfl
  refine forall₂_flatMap_filter (fun d hd hhas => ?_) fun d hd hnot hwide => ?_
  · have hbare : isBareImport d.span = false := by simpa using hhas
    have hwide : isBareImport (d.span.place (wideOffset text)) = false := by
      by_contra htrue
      rw [isBareImport_of_place hd (by simpa using htrue)] at hbare
      contradiction
    refine ⟨by rw [hwide]; rfl, ?_⟩
    rw [hfilter d hd, if_neg]
    · exact chunksOf_agrees h file (outlined_importsLike hd)
    · rw [← isBareImport_iff hd hwide, hbare]
      exact Bool.false_ne_true
  · rw [hfilter d hd, if_pos]
    exact (isBareImport_iff hd (by simpa using hwide)).mp (by simpa using hnot)

include h in
theorem others_agree :
    List.Forall₂ Chunk.Agrees ((others (mask text)).flatMap (chunksAt file text))
      (((others (mask (withReturns text))).flatMap
        (chunksAt file (withReturns text))).filter (!·.importsNothing)) := by
  rw [others_widened h, placed, List.flatMap_map, List.filter_flatMap]
  refine List.rel_flatMap (R := fun d d' => d = d' ∧ d ∈ others (mask text))
    (List.forall₂_same.mpr fun d hd => ⟨rfl, hd⟩) ?_
  rintro d _ ⟨rfl, hd⟩
  obtain ⟨houtlined, hkind⟩ := outlined_others hd
  simp only
  rw [filter_chunksAt_other file (by rwa [Declaration.place_kind])]
  exact chunksOf_agrees h file houtlined

end

/-- With wide line ends, a text has the chunks that it has with line feeds, and the imports that
name nothing. -/
theorem wholeChunks_agrees (file : String) {text : String}
    (hescape : ¬ ['\\', '\n'] <:+: text.toList) :
    List.Forall₂ Chunk.Agrees (wholeChunks file text)
      ((wholeChunks file (crlf text)).filter (!·.importsNothing)) := by
  have h := Widens.of_mask hescape
  rw [wholeChunks_eq, wholeChunks_eq, toList_crlf, List.filter_append]
  exact List.rel_append (imports_agree file h) (others_agree file h)

/-- Whether lines end with a line feed or with a carriage return and a line feed, a text that no
line of which ends with a backslash has the same chunks, but for carriage returns.  With carriage
returns there are also the imports that name nothing; without any of these, the chunks are the
same one by one. -/
theorem chunkText_agrees (limit : Limit) (file : String) {text : String}
    (hescape : ¬ ['\\', '\n'] <:+: text.toList)
    (hwhole : ∀ chunk ∈ chunkText limit file text, chunk.part = none)
    (hwhole' : ∀ chunk ∈ chunkText limit file (crlf text), chunk.part = none) :
    List.Forall₂ Chunk.Agrees (chunkText limit file text)
        ((chunkText limit file (crlf text)).filter (!·.importsNothing)) ∧
      (List.Forall₂ Chunk.Agrees (chunkText limit file text) (chunkText limit file (crlf text)) ↔
        ∀ chunk ∈ chunkText limit file (crlf text), chunk.importsNothing = false) := by
  rw [chunkText_of_unnumbered hwhole, chunkText_of_unnumbered hwhole']
  have hagrees := wholeChunks_agrees file hescape
  refine ⟨hagrees, fun hall chunk hchunk => ?_, fun hnone => ?_⟩
  · have hlength := hagrees.length_eq.symm.trans hall.length_eq
    simpa using List.length_filter_eq_length_iff.mp hlength chunk hchunk
  · rwa [List.filter_eq_self.mpr fun chunk hchunk => by rw [hnone chunk hchunk]; rfl] at hagrees

/-- A module with an import and a function on several lines each. -/
def linesWithin : String :=
  "import a\n;\nfunction f(int a,\n int b) returns\nint \x7b\n\x7d\n"

theorem chunkText_agrees_linesWithin :
    ¬ ['\\', '\n'] <:+: linesWithin.toList ∧
      (∀ chunk ∈ chunkText .standard "a.bal" linesWithin, chunk.part = none) ∧
      (∀ chunk ∈ chunkText .standard "a.bal" (crlf linesWithin), chunk.part = none) ∧
      List.Forall₂ Chunk.Agrees (chunkText .standard "a.bal" linesWithin)
        (chunkText .standard "a.bal" (crlf linesWithin)) := by
  have hescape : ¬ ['\\', '\n'] <:+: linesWithin.toList := by decide
  have hwhole : ∀ chunk ∈ chunkText .standard "a.bal" linesWithin, chunk.part = none := by
    decide +kernel
  have hwhole' : ∀ chunk ∈ chunkText .standard "a.bal" (crlf linesWithin), chunk.part = none := by
    decide +kernel
  refine ⟨hescape, hwhole, hwhole', ?_⟩
  exact (chunkText_agrees .standard "a.bal" hescape hwhole hwhole').2.mpr (by decide +kernel)

/-- With a carriage return, the line end is two characters, and those are all that an import
needs. -/
theorem chunkText_importOfLineEnd :
    '\r' ∉ "import\n;".toList ∧ ¬ ['\\', '\n'] <:+: "import\n;".toList ∧
      chunkText .standard "a.bal" "import\n;" = [] ∧
      (chunkText .standard "a.bal" (crlf "import\n;")).map (fun chunk => (chunk.kind, chunk.content)) =
        [(.importClause, "import\r\n;")] := by
  decide +kernel

end SourceChunks
