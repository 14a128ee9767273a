import Mathlib
import SourceChunks.Proofs.Declaration.Overlap
import SourceChunks.Proofs.Declaration.Spans

/-!
# Declarations that are told whole

A type definition or class ends with its first semicolon or its first block, and the block is
taken with the brace that closes it.  A value ends with its first semicolon, whether or not a
block is open there.  So the one is told whole unless a brace is closed in it before one is
opened, and the other only as far as its braces are balanced.

* `StandsWhole`: a stretch between two places at the top level, with balanced braces.
* `standsWhole_iff_balanced`: what begins at the top level stands whole if it is balanced.
* `exists_of_blockStatement`: a header without braces, and what ends the declaration.
* `Assigns.level_slice`: the braces of a declaration with a value are those of the value.
* `declarations_whole`: which declarations stand whole.
-/

namespace SourceChunks

/-- A span begins and ends at the top level of a mask, and its braces are balanced. -/
structure StandsWhole (mask : List Char) (span : Span) : Prop where
  start_top : (BlockMap.ofMask mask).isTopLevel span.start = true
  stop_top : (BlockMap.ofMask mask).isTopLevel span.stop = true
  balanced : Balanced '{' '}' (span.slice mask)

instance (mask : List Char) (span : Span) : Decidable (StandsWhole mask span) :=
  decidable_of_iff
    ((BlockMap.ofMask mask).isTopLevel span.start = true ∧
      (BlockMap.ofMask mask).isTopLevel span.stop = true ∧ Balanced '{' '}' (span.slice mask))
    ⟨fun ⟨hstart, hstop, hbalanced⟩ => ⟨hstart, hstop, hbalanced⟩,
      fun h => ⟨h.start_top, h.stop_top, h.balanced⟩⟩

section

variable {mask : List Char} {span : Span}

/-- Where no block is open before a span, those behind it are opened in it. -/
theorem blockDepth_stop (hstart : (BlockMap.ofMask mask).isTopLevel span.start = true)
    (hlt : span.start < span.stop) (hle : span.stop ≤ mask.length) :
    blockDepth 0 (mask.take span.stop) = blockDepth 0 (span.slice mask) := by
  have hrest : mask.drop span.start ≠ [] := by
    rw [Ne, List.drop_eq_nil_iff]
    omega
  have htop := BlockMap.isTopLevel_iff (mask.take span.start) hrest
  rw [List.take_append_drop, List.length_take_of_le (by omega)] at htop
  have hsplit : mask.take span.stop = mask.take span.start ++ span.slice mask :=
    Span.slice_split (Nat.zero_le _) hlt.le mask
  rw [hsplit, blockDepth_append, htop.mp hstart]

theorem isTopLevel_stop (hdepth : blockDepth 0 (mask.take span.stop) = 0)
    (hle : span.stop ≤ mask.length) : (BlockMap.ofMask mask).isTopLevel span.stop = true := by
  have htop := BlockMap.isTopLevel_of_blockDepth hdepth (mask.drop span.stop)
  rwa [List.take_append_drop, List.length_take_of_le hle] at htop

/-- What begins at the top level stands whole exactly if its braces are balanced. -/
theorem standsWhole_iff_balanced (hstart : (BlockMap.ofMask mask).isTopLevel span.start = true)
    (hlt : span.start < span.stop) (hle : span.stop ≤ mask.length) :
    StandsWhole mask span ↔ Balanced '{' '}' (span.slice mask) := by
  refine ⟨fun h => h.balanced, fun h => ⟨hstart, isTopLevel_stop ?_ hle, h⟩⟩
  rw [blockDepth_stop hstart hlt hle]
  exact blockDepth_of_level (h.level_eq (by decide) 0)

end

/-! ## Declarations that end with a semicolon or a block -/

/-- The end of a declaration closes what it opens. -/
theorem StatementEnd.level_eq {ending : List Char} (h : StatementEnd ending) (depth : Nat) :
    level '{' '}' depth ending = some depth := by
  cases h with
  | semicolon => exact level_of_notMem (by decide) (by decide) depth
  | block hinside =>
      simp [hinside.level_eq (show '{' ≠ '}' by decide)]
  | @blockSemicolon inside blank hinside hblank =>
      have hbrace : ∀ c, Text.isBlank c = false → c ≠ ';' → c ∉ blank ++ [';'] := by
        intro c hc hne hmem
        rcases List.mem_append.mp hmem with hmem | hmem
        · rw [hblank c hmem] at hc
          contradiction
        · exact hne (List.mem_singleton.mp hmem)
      have hbehind := level_of_notMem (hbrace '{' (by decide) (by decide))
        (hbrace '}' (by decide) (by decide)) depth
      simpa [hinside.level_eq (show '{' ≠ '}' by decide)] using hbehind

/-- In front of the end of a declaration, only a brace that closes none can do harm. -/
theorem StatementEnd.balanced_iff {lead ending : List Char} (h : StatementEnd ending)
    (hopen : '{' ∉ lead) :
    Balanced '{' '}' (lead ++ ending) ↔ '}' ∉ (lead ++ ending).takeWhile (· != '{') := by
  refine ⟨fun hbalanced => hbalanced.notMem_takeWhile, fun hclose => ?_⟩
  have hpasses : ∀ x ∈ lead, (x != '{') = true := by
    intro x hx
    rw [bne_iff_ne]
    rintro rfl
    exact hopen hx
  rw [List.takeWhile_append_of_pos hpasses] at hclose
  have hlead : '}' ∉ lead := fun hmem => hclose (List.mem_append_left _ hmem)
  rw [balanced_iff_level (by decide), level_append, level_of_notMem hopen hlead]
  exact h.level_eq 0

namespace Locate

variable {mask : List Char} {d : Declaration Span} {p : Pattern Part} {kind : Kind}
  {shape : Match Part → Shape Span}

/-- What comes before the end of a declaration opens no block. -/
theorem exists_of_blockStatement (hp : p.avoids ['{', '}'] = true)
    (hd : d ∈ declarations (blockStatements p kind shape mask)) :
    ∃ front lead ending behind, mask = front ++ ((lead ++ ending) ++ behind) ∧
      blockDepth 0 front = 0 ∧ '{' ∉ lead ∧ StatementEnd ending ∧
      d.span = ⟨front.length, front.length + (lead ++ ending).length⟩ := by
  obtain ⟨m, hm, stop, hend, rfl⟩ := exists_statementEnd_of_mem hd
  obtain ⟨front, rest, e, rfl, hdepth, he, rfl⟩ := found_of_mem_topLevelMatches hm
  obtain ⟨header, hlead, hheader⟩ := Pattern.passes_of_mem_ends (Patterns.reads_noBrace hp) he
  have hrest : rest = header ++ e.rest := hlead.rest_eq
  have hoffset : e.offset = front.length + header.length := hlead.offset_eq
  have hbehind : (front ++ rest).drop e.offset = e.rest := by
    rw [hrest, hoffset, ← List.append_assoc, ← List.length_append, List.drop_left]
  simp only [hbehind] at hend
  obtain ⟨gap, ending, behind, hgap, hopen, -, hending, rfl⟩ := exists_of_statementEnd hend
  refine ⟨front, header ++ gap, ending, behind, ?_, hdepth, ?_, hending, ?_⟩
  · rw [hrest, hgap]
    simp
  · exact List.mem_append.not.mpr (not_or.mpr ⟨fun hmem => (hheader _ hmem).1 rfl, hopen⟩)
  · simp only [hoffset, List.length_append, Span.mk.injEq, true_and]
    omega

/-- A declaration that ends with a semicolon or a block stands whole unless a brace is closed
in it before one is opened. -/
theorem standsWhole_blockStatement (hp : p.avoids ['{', '}'] = true)
    (hd : d ∈ declarations (blockStatements p kind shape mask)) :
    (BlockMap.ofMask mask).isTopLevel d.span.start = true ∧
      (BlockMap.ofMask mask).isTopLevel d.span.stop = true ∧
      (StandsWhole mask d.span ↔ '}' ∉ (d.span.slice mask).takeWhile (· != '{')) := by
  obtain ⟨front, lead, ending, behind, rfl, hdepth, hopen, hending, hspan⟩ :=
    exists_of_blockStatement hp hd
  have hdepth' : blockDepth 0 (front ++ (lead ++ ending)) = 0 := by
    rw [blockDepth_append, hdepth, blockDepth_append, blockDepth_eq_zero hopen]
    exact blockDepth_of_level (hending.level_eq 0)
  have hstart := BlockMap.isTopLevel_of_blockDepth hdepth ((lead ++ ending) ++ behind)
  have hstop := BlockMap.isTopLevel_of_blockDepth hdepth' behind
  rw [List.append_assoc, List.length_append] at hstop
  have hslice : (⟨front.length, front.length + (lead ++ ending).length⟩ : Span).slice
      (front ++ ((lead ++ ending) ++ behind)) = lead ++ ending :=
    Span.slice_of_split rfl rfl rfl
  have hbalanced := hending.balanced_iff hopen
  rw [← hslice] at hbalanced
  rw [hspan]
  exact ⟨hstart, hstop, fun h => hbalanced.mp h.balanced,
    fun hclose => ⟨hstart, hstop, hbalanced.mpr hclose⟩⟩

end Locate

/-! ## Declarations with a value -/

namespace Assigns

variable {mask : List Char} {span : Span} {equals : Nat}

theorem stop_le (h : Assigns mask span equals) : span.stop ≤ mask.length := by
  have hlt := (List.getElem?_eq_some_iff.mp h.semicolon_at).1
  omega

/-- A declaration is a header and an equals sign, the value, and a semicolon. -/
theorem slice_eq (h : Assigns mask span equals) :
    span.slice mask = ((⟨span.start, equals⟩ : Span).slice mask ++ ['=']) ++
      ((⟨equals + 1, span.stop - 1⟩ : Span).slice mask ++ [';']) := by
  have hstart := h.start_le
  have hlt := h.equals_lt
  have hlast := Span.slice_singleton h.semicolon_at
  rw [show span.stop - 1 + 1 = span.stop by omega] at hlast
  rw [← hlast, ← Span.slice_singleton h.equals_at, ← Span.slice_split hstart (Nat.le_succ _),
    ← Span.slice_split (by omega) (Nat.sub_le _ _), ← Span.slice_split (by omega) (by omega)]

/-- All braces of a declaration are in its value. -/
theorem exists_around_value (h : Assigns mask span equals) :
    ∃ front rest, (∀ x ∈ front, x ≠ '{' ∧ x ≠ '}') ∧ (∀ x ∈ rest, x ≠ '{' ∧ x ≠ '}') ∧
      span.slice mask =
        front ++ ((⟨equals + 1, span.stop - 1⟩ : Span).slice mask ++ rest) := by
  refine ⟨_, _, fun x hx => ?_, fun x hx => by rw [List.mem_singleton.mp hx]; decide, h.slice_eq⟩
  rcases List.mem_append.mp hx with hx | hx
  · obtain ⟨i, hle, hlt, hi⟩ := Span.mem_slice_iff.mp hx
    have hstops := h.header i hle hlt x hi
    constructor
    · rintro rfl
      exact hstops (by decide)
    · rintro rfl
      exact hstops (by decide)
  · rw [List.mem_singleton.mp hx]
    decide

theorem blockDepth_slice (h : Assigns mask span equals) :
    blockDepth 0 (span.slice mask) =
      blockDepth 0 ((⟨equals + 1, span.stop - 1⟩ : Span).slice mask) := by
  obtain ⟨front, rest, hfront, hrest, hslice⟩ := h.exists_around_value
  rw [hslice, blockDepth_append, blockDepth_eq_self hfront, blockDepth_append]
  exact blockDepth_eq_self hrest _

theorem balanced_slice_iff (h : Assigns mask span equals) :
    Balanced '{' '}' (span.slice mask) ↔
      Balanced '{' '}' ((⟨equals + 1, span.stop - 1⟩ : Span).slice mask) := by
  obtain ⟨front, rest, hfront, hrest, hslice⟩ := h.exists_around_value
  rw [hslice, balanced_iff_level (by decide), balanced_iff_level (by decide),
    level_between hfront hrest]

/-- What stands between the equals sign and a semicolon is the value exactly if it holds none. -/
theorem stop_eq_iff (h : Assigns mask span equals) {value rest : List Char}
    (hvalue : mask.drop (equals + 1) = value ++ ';' :: rest) :
    span.stop = equals + 1 + value.length + 1 ↔ ';' ∉ value := by
  have hat : ∀ i, mask[equals + 1 + i]? = (value ++ ';' :: rest)[i]? := fun i => by
    rw [← hvalue, List.getElem?_drop]
  have hlt := h.equals_lt
  constructor
  · intro hstop hmem
    obtain ⟨i, hi⟩ := List.mem_iff_getElem?.mp hmem
    have hlength := (List.getElem?_eq_some_iff.mp hi).1
    refine h.value (equals + 1 + i) (by omega) (by omega) ?_
    rw [hat, List.getElem?_append_left hlength, hi]
  · intro hnone
    have hsemicolon : mask[equals + 1 + value.length]? = some ';' := by
      rw [hat, List.getElem?_append_right le_rfl, Nat.sub_self]
      rfl
    have hle := h.stop_le_of_semicolon (by have := h.start_le; omega) hsemicolon
    by_contra hne
    -- The semicolon at the end of the declaration would stand in what holds none.
    have hin := h.semicolon_at
    rw [show span.stop - 1 = equals + 1 + (span.stop - 1 - (equals + 1)) by omega, hat,
      List.getElem?_append_left (by omega)] at hin
    exact hnone (List.mem_of_getElem? hin)

end Assigns

namespace Locate

/-- Declarations with a value begin at the top level. -/
theorem assigns_of_mem {mask : List Char} {d : Declaration Span}
    (hd : d ∈ declarations (moduleVariables mask) ++ declaredByKeyword mask) :
    (BlockMap.ofMask mask).isTopLevel d.span.start = true ∧ ∃ equals, Assigns mask d.span equals := by
  rcases List.mem_append.mp hd with hd | hd
  · obtain ⟨type, name, equals, -, hheader, -⟩ := variableHeader_of_mem hd
    obtain ⟨m, -, hsome⟩ := List.mem_filterMap.mp (mem_declarations.mp hd)
    simp only [Option.ite_none_left_eq_some, Option.some.injEq, Outcome.declared.injEq] at hsome
    obtain ⟨-, htop, rfl⟩ := hsome
    exact ⟨by simpa using htop, equals, hheader.assigns⟩
  · obtain ⟨equals, hassigns, -⟩ := keywordHeader_of_mem hd
    refine ⟨?_, equals, hassigns⟩
    rcases List.mem_append.mp hd with hd | hd
    · obtain ⟨m, hm, rfl⟩ := exists_match_of_mem hd
      exact (List.mem_filter.mp hm).2
    · obtain ⟨m, hm, rfl⟩ := exists_match_of_mem hd
      exact (List.mem_filter.mp hm).2

/-- Which declarations stand whole.

* A type definition or class begins and ends at the top level.  Its first block is taken with
  all that is in it, so it stands whole unless a brace is closed in it before one is opened.
* A variable or constant begins at the top level, and behind it those blocks are open that its
  value leaves open.  It stands whole exactly if the braces of its value are balanced.  But a
  value goes only up to the first semicolon: one that has balanced braces, in front of a
  semicolon, is told as the whole value exactly if there is no semicolon in it. -/
theorem declarations_whole (text : List Char) :
    (∀ d ∈ declarations (typeDefinitions (mask text)) ++ declarations (classes (mask text)),
      (BlockMap.ofMask (mask text)).isTopLevel d.span.start = true ∧
        (BlockMap.ofMask (mask text)).isTopLevel d.span.stop = true ∧
        (StandsWhole (mask text) d.span ↔
          '}' ∉ (d.span.slice (mask text)).takeWhile (· != '{'))) ∧
    ∀ d ∈ declarations (moduleVariables (mask text)) ++ declaredByKeyword (mask text),
      (BlockMap.ofMask (mask text)).isTopLevel d.span.start = true ∧
        ∃ equals, Assigns (mask text) d.span equals ∧
          blockDepth 0 ((mask text).take d.span.stop) =
            blockDepth 0 ((⟨equals + 1, d.span.stop - 1⟩ : Span).slice (mask text)) ∧
          (StandsWhole (mask text) d.span ↔
            Balanced '{' '}' ((⟨equals + 1, d.span.stop - 1⟩ : Span).slice (mask text))) ∧
          ∀ value rest, (mask text).drop (equals + 1) = value ++ ';' :: rest →
            Balanced '{' '}' value →
            (d.span.stop = equals + 1 + value.length + 1 ↔ ';' ∉ value) := by
  constructor
  · intro d hd
    rcases List.mem_append.mp hd with hd | hd
    · exact standsWhole_blockStatement (by decide) hd
    · exact standsWhole_blockStatement (by decide) hd
  · intro d hd
    obtain ⟨hstart, equals, hassigns⟩ := assigns_of_mem hd
    have hle := hassigns.start_le
    have hlt := hassigns.equals_lt
    refine ⟨hstart, equals, hassigns, ?_, ?_, fun value rest hvalue _ => hassigns.stop_eq_iff hvalue⟩
    · rw [blockDepth_stop hstart (by omega) hassigns.stop_le, hassigns.blockDepth_slice]
    · rw [standsWhole_iff_balanced hstart (by omega) hassigns.stop_le, hassigns.balanced_slice_iff]

/-- A type definition with a semicolon in its block. -/
def recordType : List Char :=
  "type R record \x7bint a;\x7d;".toList

theorem declarations_whole_recordType :
    ∃ d ∈ declarations (typeDefinitions (mask recordType)), StandsWhole (mask recordType) d.span := by
  have hd : ⟨⟨0, 23⟩, .typeDefinition false ⟨5, 6⟩⟩ ∈
      declarations (typeDefinitions (mask recordType)) := by decide +kernel
  obtain ⟨-, -, hwhole⟩ := (declarations_whole recordType).1 _ (List.mem_append_left _ hd)
  exact ⟨_, hd, hwhole.mpr (by decide +kernel)⟩

/-- A variable with a semicolon in the block of its value. -/
def functionValue : List Char :=
  "var f = function () \x7b return; \x7d;".toList

/-- A value is cut at a semicolon in a block. -/
theorem functionValue_cut :
    ∃ d ∈ declarations (moduleVariables (mask functionValue)),
      ¬ StandsWhole (mask functionValue) d.span := by
  decide +kernel

end Locate

end SourceChunks
