import Mathlib
import SourceChunks.Proofs.Declaration.Locality
import SourceChunks.Proofs.Declaration.Lookahead
import SourceChunks.Proofs.Declaration.Spans
import SourceChunks.Proofs.Pattern.Widened

/-!
# Declarations and wide line ends

In a mask with wide line ends, the same declarations are found as in the one with line feeds,
at the offsets to which they have moved.  Only imports need two characters between their word
and their semicolon, which a wide line end gives them and a line feed does not.

* `Declaration.place`: the same declaration in the wider mask.
* `callableParts_widened`, `statementEndFrom`, `serviceOpening_widened`: what is found
  behind a header.
* `functions_widened`, `services_widened`, `resourcesOf_widened`: the searches, kind by kind.
* `imports_widened`: the imports of the wider mask.
-/

namespace SourceChunks

open Text

section

variable {α : Type}

/-- The same header in a wider text, where `move` tells what becomes of a part. -/
def Callable.place (move : α → α) (φ : Nat → Nat) (callable : Callable α) : Callable α where
  qualifiers := callable.qualifiers.map move
  parameters := move callable.parameters
  returns := callable.returns.map move
  opening := φ callable.opening

/-- The same header in a wider text. -/
def Service.place (move : α → α) (φ : Nat → Nat) (service : Service α) : Service α where
  path := service.path.map move
  listener := service.listener.map move
  opening := φ service.opening

/-- The same shape in a wider text. -/
def Shape.place (move : α → α) (φ : Nat → Nat) : Shape α → Shape α
  | importClause => .importClause
  | configurable isPublic type name => .configurable isPublic (move type) (move name)
  | moduleVariable type name => .moduleVariable (move type) (move name)
  | typeDefinition isPublic name => .typeDefinition isPublic (move name)
  | function isPublic name callable => .function isPublic (move name) (callable.place move φ)
  | .service header => .service (header.place move φ)
  | resource owner method path callable =>
      .resource (owner.place move φ) (move method) (move path) (callable.place move φ)
  | classDefinition isPublic name => .classDefinition isPublic (move name)
  | constant isPublic type name => .constant isPublic (type.map move) (move name)

/-- The same declaration in a wider text. -/
def Declaration.place (move : α → α) (φ : Nat → Nat) (d : Declaration α) : Declaration α where
  span := d.span.place φ
  shape := d.shape.place move φ

theorem Declaration.place_headerEnd (move : α → α) (φ : Nat → Nat) (d : Declaration α) :
    (d.place move φ).headerEnd? = d.headerEnd?.map φ := by
  obtain ⟨span, shape⟩ := d
  cases shape <;> rfl

@[simp] theorem Declaration.place_kind (move : α → α) (φ : Nat → Nat) (d : Declaration α) :
    (d.place move φ).kind = d.kind := by
  obtain ⟨span, shape⟩ := d
  cases shape <;> rfl

end

/-- The same parts in a wider text. -/
def CallableTail.place (φ : Nat → Nat) (found : CallableTail) : CallableTail where
  returns := found.returns.map (Span.place φ)
  opening := φ found.opening

/-- The same parts in a wider text. -/
def CallableParts.place (φ : Nat → Nat) (parts : CallableParts) : CallableParts where
  parameters := parts.parameters.place φ
  tail := parts.tail.place φ
  stop := φ parts.stop

/-! ## Behind a header -/

theorem endsWithWord_alike {word read read' : List Char} (hword : ∀ x ∈ word, isBlank x = false)
    (h : Alike read read') : endsWithWord word read' = endsWithWord word read := by
  have hreverse : ∀ x ∈ word.reverse, isBlank x = false :=
    fun x hx => hword x (List.mem_reverse.mp hx)
  obtain ⟨hfront, hdrop⟩ := h.isPrefixOf_eq hreverse
  rw [endsWithWord, endsWithWord, hfront]
  cases hread : word.reverse.isPrefixOf read with
  | false => rfl
  | true =>
      have hmore := hdrop hread
      rw [List.length_reverse] at hmore
      rw [hmore.head_isWord]

theorem endsInlineType_alike {read read' : List Char} (h : Alike read read') :
    endsInlineType read' = endsInlineType read := by
  have hblank : ∀ word ∈ ["record".toList, "object".toList], word.all (!isBlank ·) = true := by
    decide
  have hword : ∀ word ∈ ["record".toList, "object".toList], ∀ x ∈ word, isBlank x = false :=
    fun word hmem x hx => by simpa using List.all_eq_true.mp (hblank word hmem) x hx
  rw [endsInlineType, endsInlineType,
    endsWithWord_alike (hword _ List.mem_cons_self) h.trimLeft,
    endsWithWord_alike (hword _ (by simp)) h.trimLeft]

theorem returnTypeEndFrom_blank {c : Char} (hc : isBlank c = true) (read : List Char)
    (depth offset : Nat) (rest : List Char) :
    returnTypeEndFrom read depth offset (c :: rest) =
      returnTypeEndFrom (c :: read) depth (offset + 1) rest := by
  have hne : ∀ {x}, isBlank x = false → c ≠ x := ne_of_isBlank hc
  cases depth with
  | zero =>
      rw [returnTypeEndFrom, if_neg (hne (by decide)), if_neg]
      simp [hne (x := ';') (by decide), hne (x := '=') (by decide)]
  | succ depth =>
      rw [returnTypeEndFrom, if_neg (hne (by decide)), if_neg (hne (by decide))]

namespace Widened

variable {φ : Nat → Nat} {offset : Nat} {s s' : List Char}

/-- The brace behind a return type moves with the text. -/
theorem returnTypeEndFrom (h : Widened φ offset s s') {read read' : List Char}
    (hread : Alike read read') (depth : Nat) :
    SourceChunks.returnTypeEndFrom read' depth (φ offset) s' =
      (SourceChunks.returnTypeEndFrom read depth offset s).map φ := by
  induction h generalizing read read' depth with
  | nil => cases depth <;> rfl
  | @plain offset c s s' hc hφ h ih =>
      cases depth with
      | zero =>
          rw [SourceChunks.returnTypeEndFrom, SourceChunks.returnTypeEndFrom, ← hφ,
            endsInlineType_alike hread, ih (.same c hread), ih (.same c hread)]
          split_ifs <;> rfl
      | succ depth =>
          rw [SourceChunks.returnTypeEndFrom, SourceChunks.returnTypeEndFrom, ← hφ,
            ih (.same c hread)]
  | @newline offset b s s' hb hφ h ih =>
      rw [returnTypeEndFrom_blank hb.isBlank, returnTypeEndFrom_blank isBlank_newline,
        returnTypeEndFrom_blank isBlank_newline,
        ← ih (.wide isBlank_newline isBlank_newline hb.isBlank hread), hφ]

/-- The word `returns` stands in front of both texts, or of none of them. -/
theorem behindReturns (h : Widened φ offset s s') :
    (behindReturns? s = none ∧ behindReturns? s' = none) ∨
      ∃ type type', behindReturns? s = some type ∧ behindReturns? s' = some type' ∧
        φ (offset + 7) = φ offset + 7 ∧ Widened φ (offset + 7) type type' := by
  have hblank : ∀ x ∈ "returns".toList, isBlank x = false := fun x hx => by
    simpa using List.all_eq_true.mp (by decide : "returns".toList.all (!isBlank ·) = true) x hx
  obtain ⟨hfront, hdrop⟩ := h.alike.isPrefixOf_eq hblank
  unfold behindReturns?
  simp only [hfront]
  cases hs : "returns".toList.isPrefixOf s with
  | false => exact .inl ⟨rfl, rfl⟩
  | true =>
      rw [(hdrop hs).head_isWord]
      simp only [Bool.true_and]
      split_ifs
      · obtain ⟨hstep, hmore⟩ := h.drop_of_isPrefixOf (by decide) hs
        exact .inr ⟨_, _, rfl, rfl, hstep, hmore⟩
      · exact .inl ⟨rfl, rfl⟩

/-- The return type and the brace behind a parameter list move with the text. -/
theorem callableTail (h : Widened φ offset s s') :
    callableTail? (φ offset) s' = (callableTail? offset s).map (·.place φ) := by
  obtain ⟨hstep, hafter⟩ := h.behind_trimLeft
  unfold callableTail?
  simp only [← hstep]
  rcases hafter.behindReturns with ⟨hnone, hnone'⟩ | ⟨type, type', htype, htype', hseven, hmore⟩
  · rw [hnone, hnone']
    simp only [hafter.head?_eq_some (c := '{') (by decide)]
    split_ifs <;> rfl
  · rw [htype, htype']
    simp only [show "returns".length = 7 from rfl, ← hseven]
    rw [hmore.returnTypeEndFrom .nil, Option.map_map, Option.map_map]
    rfl

/-- White space in front of a semicolon moves with the text. -/
theorem behindSemicolon (h : Widened φ offset s s') :
    Locate.behindSemicolon (φ offset) s' = φ (Locate.behindSemicolon offset s) := by
  obtain ⟨hstep, hafter⟩ := h.behind_trimLeft
  unfold Locate.behindSemicolon
  simp only [← hstep, hafter.head?_eq_some (c := ';') (by decide)]
  split_ifs with hhead
  · obtain ⟨more, hmore⟩ := List.head?_eq_some_iff.mp hhead
    rw [hmore] at hafter ⊢
    exact (hafter.of_cons (by decide)).1.symm
  · rfl

/-- The end of a statement moves with the text. -/
theorem statementEndFrom (hmono : StrictMono φ) (h : Widened φ offset s s') :
    Locate.statementEndFrom (φ offset) s' = (Locate.statementEndFrom offset s).map φ := by
  induction h with
  | nil => rfl
  | @plain offset c s s' hc hφ h ih =>
      rw [Locate.statementEndFrom, Locate.statementEndFrom, ← hφ]
      split_ifs
      · rfl
      · rw [h.blockEndFrom]
        cases hstop : Bracket.blockEndFrom (offset + 1) s with
        | none => rfl
        | some stop =>
            have hle := (closingFrom_bounds hstop).1.le
            have hbehind := (h.drop hmono (stop - (offset + 1))).behindSemicolon
            rw [Nat.add_sub_cancel' hle] at hbehind
            exact congrArg some hbehind
      · exact ih
  | @newline offset b s s' hb hφ h ih =>
      rw [Locate.statementEndFrom_blank hb.isBlank, Locate.statementEndFrom_blank isBlank_newline,
        Locate.statementEndFrom_blank isBlank_newline, ← ih, hφ]

/-- The brace that opens a block moves with the text. -/
theorem blockStartFrom (h : Widened φ offset s s') (depth : Nat) :
    Bracket.blockStartFrom depth (φ offset) s' = (Bracket.blockStartFrom depth offset s).map φ := by
  have hblank : ∀ {c : Char}, isBlank c = true → ∀ depth offset rest,
      Bracket.blockStartFrom depth offset (c :: rest) =
        Bracket.blockStartFrom depth (offset + 1) rest := by
    intro c hc depth offset rest
    have hne : ∀ {x}, isBlank x = false → (c = x) = False :=
      fun hx => eq_false (ne_of_isBlank hc hx)
    rw [Bracket.blockStartFrom]
    simp [hne (x := '(') (by decide), hne (x := '[') (by decide), hne (x := ')') (by decide),
      hne (x := ']') (by decide), hne (x := '{') (by decide), hne (x := ';') (by decide)]
  induction h generalizing depth with
  | nil => rfl
  | @plain offset c s s' hc hφ h ih =>
      rw [Bracket.blockStartFrom, Bracket.blockStartFrom, ← hφ, ih, ih, ih]
      split_ifs <;> rfl
  | @newline offset b s s' hb hφ h ih =>
      rw [hblank hb.isBlank, hblank isBlank_newline, hblank isBlank_newline, ← ih, hφ]

end Widened

/-! ## Parts of whole masks -/

section

variable {φ : Nat → Nat} {mask mask' : List Char}

/-- Behind a character at some distance from a place, no more has moved. -/
theorem Widens.succ_of_drop (h : Widens φ mask mask') {offset : Nat} {gap more : List Char}
    {c : Char} (hc : c ≠ '\n') (hdrop : mask.drop offset = gap ++ c :: more) :
    φ (offset + gap.length + 1) = φ (offset + gap.length) + 1 := by
  refine h.succ hc ?_
  rw [← List.getElem?_drop, hdrop, List.getElem?_append_right le_rfl, Nat.sub_self]
  rfl

theorem Widens.closingFrom (h : Widens φ mask mask') {opening closing : Char}
    (hopening : isBlank opening = false) (hclosing : isBlank closing = false) (offset : Nat) :
    Bracket.closingFrom opening closing 0 (φ offset) (mask'.drop (φ offset)) =
      (Bracket.closingFrom opening closing 0 offset (mask.drop offset)).map φ :=
  (h.drop offset).closingFrom hopening hclosing 0

/-- Behind a closing bracket, no more has moved. -/
theorem Widens.pred_of_closingFrom (h : Widens φ mask mask') {opening closing : Char}
    (hclosing : closing ≠ '\n') {offset stop : Nat}
    (hstop : Bracket.closingFrom opening closing 0 offset (mask.drop offset) = some stop) :
    φ (stop - 1) = φ stop - 1 := by
  obtain ⟨inside, behind, hdrop, rfl, -⟩ := exists_of_closingFrom hstop
  rw [h.succ_of_drop hclosing hdrop, Nat.add_sub_cancel, Nat.add_sub_cancel]

/-- The block behind a brace moves with the mask. -/
theorem Widens.blockEndFrom (h : Widens φ mask mask') {offset : Nat} {gap more : List Char}
    (hdrop : mask.drop offset = gap ++ '{' :: more) :
    Bracket.blockEndFrom (φ (offset + gap.length) + 1)
        (mask'.drop (φ (offset + gap.length) + 1)) =
      (Bracket.blockEndFrom (offset + gap.length + 1)
        (mask.drop (offset + gap.length + 1))).map φ := by
  rw [← h.succ_of_drop (by decide) hdrop]
  exact h.closingFrom (by decide) (by decide) _

/-- The parts of a function move with the mask. -/
theorem callableParts_widened (h : Widens φ mask mask') (start : Nat) :
    callableParts mask' (φ start) = (callableParts mask start).map (·.place φ) := by
  unfold callableParts
  rw [h.closingFrom (by decide) (by decide)]
  cases hbehind : Bracket.closingFrom '(' ')' 0 start (mask.drop start) with
  | none => rfl
  | some behind =>
      simp only [Option.map_some]
      rw [(h.drop behind).callableTail, ← h.pred_of_closingFrom (by decide) hbehind]
      cases htail : callableTail? behind (mask.drop behind) with
      | none => rfl
      | some found =>
          obtain ⟨gap, more, hdrop, hopening, -⟩ := exists_of_callableTail htail
          have hend := h.blockEndFrom hdrop
          rw [← hopening] at hend
          simp only [Option.map_some]
          rw [show (found.place φ).opening = φ found.opening from rfl, hend]
          cases Bracket.blockEndFrom (found.opening + 1) (mask.drop (found.opening + 1)) with
          | none => rfl
          | some stop => rfl

end

namespace Locate

open Pattern Patterns

variable {φ : Nat → Nat} {mask mask' : List Char}

theorem part_place (hzero : φ 0 = 0) (m : Match Part) (label : Part) :
    part (m.place φ) label = (part m label).place φ := by
  rw [part, part, Match.part_place]
  cases m.part? label with
  | some span => rfl
  | none =>
      show (⟨0, 0⟩ : Span) = ⟨φ 0, φ 0⟩
      rw [hzero]

theorem topLevelMatches_widened {p : Pattern Part} (hp : p.moves = true) (h : Widens φ mask mask') :
    topLevelMatches p mask' = (topLevelMatches p mask).map (·.place φ) := by
  rw [topLevelMatches, topLevelMatches, allMatches_widened hp h, List.filter_map]
  refine congrArg _ (List.filter_congr fun m _ => ?_)
  exact h.isTopLevel_ofMask m.span.start

/-- The same declarations in the wider mask. -/
def placed (φ : Nat → Nat) (ds : List (Declaration Span)) : List (Declaration Span) :=
  ds.map (·.place (Span.place φ) φ)

/-- A search that decides for each match what it declares, in the wider mask. -/
theorem declarations_placed {ms : List (Match Part)} {outcome outcome' : Match Part → Outcome}
    (houtcome : ∀ m ∈ ms, (outcome' (m.place φ)).declaration? =
      (outcome m).declaration?.map (·.place (Span.place φ) φ)) :
    declarations ((ms.map (·.place φ)).map outcome') = placed φ (declarations (ms.map outcome)) := by
  rw [placed, declarations, declarations, List.map_map, List.filterMap_map, List.filterMap_map,
    List.map_filterMap]
  exact List.filterMap_congr houtcome

/-! ## Declarations that end with a semicolon -/

theorem configurables_widened (h : Widens φ mask mask') :
    declarations (configurables mask') = placed φ (declarations (configurables mask)) := by
  rw [configurables, configurables, topLevelMatches_widened (by decide) h]
  refine declarations_placed fun m _ => ?_
  rw [Match.hasPart_place, part_place h.zero, part_place h.zero]
  rfl

theorem constants_widened (h : Widens φ mask mask') :
    declarations (constants mask') = placed φ (declarations (constants mask)) := by
  rw [constants, constants, topLevelMatches_widened (by decide) h]
  refine declarations_placed fun m _ => ?_
  rw [Match.hasPart_place, Match.part_place, part_place h.zero]
  rfl

/-- Whether a stretch is a reserved word is the same for both masks. -/
theorem reserved_widened (h : Widens φ mask mask') (span : Span) :
    reservedTypeWords.contains (String.ofList ((span.place φ).slice mask')) =
      reservedTypeWords.contains (String.ofList (span.slice mask)) := by
  have hwide := h.slice span
  by_cases hline : '\n' ∈ span.slice mask
  · -- No reserved word holds a line end.
    have hnone : ∀ {s : List Char}, '\n' ∈ s → reservedTypeWords.contains (String.ofList s) = false := by
      intro s hs
      have hwords : reservedTypeWords.all (fun word => !word.toList.contains '\n') = true := by
        decide
      by_contra hmem
      rw [Bool.not_eq_false, List.contains_iff_mem] at hmem
      have hword := List.all_eq_true.mp hwords _ hmem
      simp [hs] at hword
    rw [hnone hline, hnone (hwide.newline_mem hline)]
  · rw [hwide.eq_self hline]

theorem moduleVariables_widened (h : Widens φ mask mask') :
    declarations (moduleVariables mask') = placed φ (declarations (moduleVariables mask)) := by
  rw [moduleVariables, moduleVariables, allMatches_widened (by decide) h, placed, declarations,
    declarations, List.filterMap_map, List.filterMap_filterMap, List.filterMap_filterMap,
    List.map_filterMap]
  refine List.filterMap_congr fun m _ => ?_
  simp only [Function.comp_apply, part_place h.zero, reserved_widened h]
  rw [show ((part m .statement).place φ).start = φ (part m .statement).start from rfl,
    h.isTopLevel_ofMask]
  split_ifs <;> rfl

/-! ## Declarations that end with a semicolon or a block -/

theorem blockStatements_widened {p : Pattern Part} (hp : p.moves = true) (h : Widens φ mask mask')
    (kind : Kind) {shape : Match Part → Shape Span}
    (hshape : ∀ m, shape (m.place φ) = (shape m).place (Span.place φ) φ) :
    declarations (blockStatements p kind shape mask') =
      placed φ (declarations (blockStatements p kind shape mask)) := by
  rw [blockStatements, blockStatements, topLevelMatches_widened hp h]
  refine declarations_placed fun m _ => ?_
  rw [show (m.place φ).span.stop = φ m.span.stop from rfl, (h.drop _).statementEndFrom h.mono,
    hshape]
  cases statementEndFrom m.span.stop (mask.drop m.span.stop) with
  | none => rfl
  | some stop => rfl

theorem typeDefinitions_widened (h : Widens φ mask mask') :
    declarations (typeDefinitions mask') = placed φ (declarations (typeDefinitions mask)) := by
  rw [typeDefinitions_eq, typeDefinitions_eq]
  refine blockStatements_widened (by decide) h _ fun m => ?_
  rw [Match.hasPart_place, part_place h.zero]
  rfl

theorem classes_widened (h : Widens φ mask mask') :
    declarations (classes mask') = placed φ (declarations (classes mask)) := by
  refine blockStatements_widened (by decide) h _ fun m => ?_
  rw [Match.hasPart_place, part_place h.zero]
  rfl

/-! ## Services, functions and resources -/

theorem serviceOpening_widened (h : Widens φ mask mask') (m : Match Part) :
    serviceOpening? mask' (m.place φ) = (serviceOpening? mask m).map φ := by
  obtain ⟨hstep, hafter⟩ := (h.drop m.span.stop).behind_trimLeft
  unfold serviceOpening?
  simp only [Match.hasPart_place, show (m.place φ).span.stop = φ m.span.stop from rfl,
    (h.drop m.span.stop).blockStartFrom, hafter.head?_eq_some (c := '{') (by decide), ← hstep]
  split_ifs <;> rfl

theorem serviceOutcome_widened (h : Widens φ mask mask') {m : Match Part}
    (hm : m.span.stop ≤ mask.length) :
    (serviceOutcome mask' (m.place φ)).declaration? =
      (serviceOutcome mask m).declaration?.map (·.place (Span.place φ) φ) := by
  unfold serviceOutcome
  rw [serviceOpening_widened h]
  cases hopening : serviceOpening? mask m with
  | none => rfl
  | some opening =>
      obtain ⟨gap, more, hdrop, rfl⟩ := serviceOpening_bounds hm hopening
      simp only [Option.map_some]
      rw [h.blockEndFrom hdrop]
      cases Bracket.blockEndFrom (m.span.stop + gap.length + 1)
          (mask.drop (m.span.stop + gap.length + 1)) with
      | none => rfl
      | some stop =>
          simp only [Option.map_some]
          rw [Match.part_place, Match.part_place, Match.hasPart_place]
          refine congrArg some (congrArg (Declaration.mk _) (congrArg Shape.service ?_))
          rw [Service.place, Service.mk.injEq]
          refine ⟨?_, ?_, rfl⟩
          · rw [Option.map_or]
          · split_ifs <;> rfl

theorem services_widened (h : Widens φ mask mask') :
    declarations (services mask') = placed φ (declarations (services mask)) := by
  rw [services, services, topLevelMatches_widened (by decide) h]
  refine declarations_placed fun m hm => serviceOutcome_widened h ?_
  exact (bounds_of_found (found_of_mem_topLevel hm)).2.1

theorem serviceBlocks_widened (h : Widens φ mask mask') :
    serviceBlocks mask' = (serviceBlocks mask).map (Span.place φ) := by
  rw [serviceBlocks, serviceBlocks, services_widened h, placed, List.filterMap_map,
    List.map_filterMap]
  refine List.filterMap_congr fun d _ => ?_
  rw [Function.comp_apply, Declaration.place_headerEnd, Option.map_map, Option.map_map]
  rfl

theorem place_injective (hmono : StrictMono φ) : Function.Injective (Span.place φ) := by
  rintro ⟨start, stop⟩ ⟨start', stop'⟩ heq
  obtain ⟨hstart, hstop⟩ := Span.mk.inj heq
  exact Span.mk.injEq .. ▸ ⟨hmono.injective hstart, hmono.injective hstop⟩

@[simp] theorem callable_place (m : Match Part) (parts : CallableParts) :
    callable (m.place φ) (parts.place φ) = (callable m parts).place (Span.place φ) φ := by
  rw [callable, callable, Match.parts_place]
  rfl

theorem functionOutcome_widened (h : Widens φ mask mask') (m : Match Part) :
    (functionOutcome mask' (m.place φ)).declaration? =
      (functionOutcome mask m).declaration?.map (·.place (Span.place φ) φ) := by
  unfold functionOutcome
  rw [show (m.place φ).span.stop = φ m.span.stop from rfl, callableParts_widened h,
    Match.hasPart_place, part_place h.zero]
  cases callableParts mask m.span.stop with
  | error e => rfl
  | ok parts =>
      simp only [Except.map, callable_place]
      rfl

theorem functions_widened (h : Widens φ mask mask') :
    declarations (functions mask') = placed φ (declarations (functions mask)) := by
  rw [functions, functions, allMatches_widened (by decide) h]
  refine declarations_placed fun m _ => ?_
  have hmember : ((BlockMap.ofMask mask').enclosing? (m.place φ).span.start).any
      (serviceBlocks mask').contains =
        ((BlockMap.ofMask mask).enclosing? m.span.start).any (serviceBlocks mask).contains := by
    rw [show (m.place φ).span.start = φ m.span.start from rfl, h.enclosing_ofMask,
      serviceBlocks_widened h, Option.any_map]
    refine congrArg (Option.any · _) (funext fun block => ?_)
    rw [Bool.eq_iff_iff, List.contains_iff_mem, List.contains_iff_mem,
      List.mem_map_of_injective (place_injective h.mono)]
  simp only [hmember]
  split_ifs
  · rfl
  · exact functionOutcome_widened h m

/-- The body of a declaration moves with the mask. -/
theorem body_placed (h : Widens φ mask mask') {d : Declaration Span} (hd : HasBody mask d) :
    (d.place (Span.place φ) φ).body? = d.body?.map (Span.place φ) := by
  obtain ⟨opening, hopening, -, hbody⟩ := hd
  obtain ⟨hbrace, hbrace'⟩ := hbody.braces
  have hle := hbody.bounds.1
  have hlast := h.pred (by omega) (by decide) hbrace'
  rw [Declaration.body?, Declaration.body?, Declaration.place_headerEnd, hopening]
  show some (⟨φ opening + 1, φ d.span.stop - 1⟩ : Span) =
    some ⟨φ (opening + 1), φ (d.span.stop - 1)⟩
  rw [h.succ (by decide) hbrace, hlast]

/-- The resources in a region move with the mask. -/
theorem resources_widened (h : Widens φ mask mask') (owner : Service Span) {body : Span}
    (hbody : body.start ≤ mask.length) :
    declarations (resources mask' (owner.place (Span.place φ) φ) (body.place φ)) =
      placed φ (declarations (resources mask owner body)) := by
  rw [resources, resources, matchesIn_widened (by decide) h hbody, placed, declarations,
    declarations, List.filterMap_map, List.filterMap_filterMap, List.filterMap_filterMap,
    List.map_filterMap]
  refine List.filterMap_congr fun m _ => ?_
  simp only [Function.comp_apply, show (m.place φ).span = m.span.place φ from rfl,
    show (m.span.place φ).start = φ m.span.start from rfl,
    show (m.span.place φ).stop = φ m.span.stop from rfl, h.isTopLevel_ofRegion,
    callableParts_widened h, part_place h.zero]
  cases hparts : callableParts mask m.span.stop with
  | error e =>
      simp only [Except.map]
      split_ifs <;> rfl
  | ok parts =>
      have hinside : φ parts.stop > φ body.stop ↔ parts.stop > body.stop := h.mono.lt_iff_lt
      simp only [Except.map, show (parts.place φ).stop = φ parts.stop from rfl,
        show (body.place φ).stop = φ body.stop from rfl, hinside, callable_place]
      split_ifs <;> rfl

/-- The resources of a service move with the mask. -/
theorem resourcesOf_widened (h : Widens φ mask mask') {d : Declaration Span}
    (hd : d ∈ declarations (services mask)) :
    declarations (resourcesOf mask' (.declared (d.place (Span.place φ) φ))) =
      placed φ (declarations (resourcesOf mask (.declared d))) := by
  have hbody := services_hasBody hd
  have hplaced := body_placed h hbody
  obtain ⟨opening, hopening, -, hencloses⟩ := hbody
  have hlt := hencloses.bounds
  obtain ⟨header, hshape, -⟩ := service_bounds hd
  obtain ⟨span, shape⟩ := d
  obtain rfl : shape = .service header := hshape
  obtain rfl : header.opening = opening := Option.some.inj hopening
  have hregion : (⟨φ header.opening + 1, φ span.stop - 1⟩ : Span) =
      Span.place φ ⟨header.opening + 1, span.stop - 1⟩ := Option.some.inj hplaced
  show declarations (resources mask' (header.place (Span.place φ) φ)
    ⟨φ header.opening + 1, φ span.stop - 1⟩) = _
  rw [hregion]
  refine resources_widened h header ?_
  simp only at hlt
  show header.opening + 1 ≤ mask.length
  omega

/-! ## Imports -/

theorem importsLike_widened (h : Widens φ mask mask') :
    importsLike mask' = placed φ (importsLike mask) := by
  rw [importsLike, importsLike, topLevelMatches_widened (by decide) h, placed, List.map_map,
    List.map_map]
  rfl

/-- The imports of the wider mask are those that have two characters between the word and the
semicolon there. -/
theorem imports_widened (h : Widens φ mask mask') :
    declarations (imports mask') =
      placed φ ((importsLike mask).filter fun d => !isBareImport (d.span.place φ)) := by
  rw [imports_eq, importsLike_widened h, placed, List.filter_map]
  rfl

end Locate

end SourceChunks
