import Mathlib
import SourceChunks.Proofs.Source.Blocks

/-!
# Balanced brackets

A text has balanced brackets of a kind if no part at its beginning closes more of them
than it opens, and the whole closes as many as it opens.  Whatever follows such a text, a
bracket in it is closed in it, and its outermost blocks stay what they are.

* `Balanced`: by counting; `level`: by keeping the number of open brackets.
* `exists_closingFrom`, `closingFrom_append_of_some`: an open bracket of a balanced text is
  closed in it, whatever follows.
* `blocks_append`: the outermost blocks of two texts, of which the first has balanced braces.
* `enclosing_left`, `enclosing_right`: the block around a place in either of the two.
-/

namespace SourceChunks

/-- No beginning of a text closes more brackets than it opens, and the text closes as many
as it opens. -/
def Balanced (opening closing : Char) (text : List Char) : Prop :=
  (∀ front, front <+: text → front.count closing ≤ front.count opening) ∧
    text.count opening = text.count closing

instance (opening closing : Char) (text : List Char) : Decidable (Balanced opening closing text) :=
  decidable_of_iff
    ((∀ front ∈ text.inits, front.count closing ≤ front.count opening) ∧
      text.count opening = text.count closing)
    (by simp only [List.mem_inits, Balanced])

/-- The number of open brackets behind a text, if none is closed that is not open. -/
def level (opening closing : Char) : (depth : Nat) → List Char → Option Nat
  | depth, [] => some depth
  | depth, c :: rest =>
      if c = opening then level opening closing (depth + 1) rest
      else if c = closing then
        match depth with
        | 0 => none
        | depth + 1 => level opening closing depth rest
      else level opening closing depth rest

section

variable {opening closing : Char}

@[simp] theorem level_nil (depth : Nat) : level opening closing depth [] = some depth := by
  rw [level]

@[simp] theorem level_cons (depth : Nat) (c : Char) (rest : List Char) :
    level opening closing depth (c :: rest) =
      (depthAfter? opening closing depth c).bind (level opening closing · rest) := by
  by_cases hopen : c = opening
  · simp [level, hopen]
  · by_cases hclose : c = closing
    · subst hclose
      cases depth with
      | zero => simp [level, hopen]
      | succ depth => simp [level, hopen]
    · simp [level, hopen, hclose]

@[simp] theorem level_append (depth : Nat) (front rest : List Char) :
    level opening closing depth (front ++ rest) =
      (level opening closing depth front).bind (level opening closing · rest) := by
  induction front generalizing depth with
  | nil => simp
  | cons c front ih => simp [ih, Option.bind_assoc]

/-- Where the brackets of a text come out even, they do behind every place in it. -/
theorem exists_level_of_append {depth : Nat} {front rest : List Char}
    (h : level opening closing depth (front ++ rest) = some 0) :
    ∃ depth', level opening closing depth' rest = some 0 := by
  rw [level_append] at h
  obtain ⟨depth', -, hrest⟩ := Option.bind_eq_some_iff.mp h
  exact ⟨depth', hrest⟩

theorem level_of_notMem {text : List Char} (hopen : opening ∉ text) (hclose : closing ∉ text)
    (depth : Nat) : level opening closing depth text = some depth := by
  induction text with
  | nil => rfl
  | cons c text ih =>
      obtain ⟨hc, hopen⟩ := not_or.mp (List.mem_cons.not.mp hopen)
      obtain ⟨hc', hclose⟩ := not_or.mp (List.mem_cons.not.mp hclose)
      simpa [Ne.symm hc, Ne.symm hc'] using ih hopen hclose

theorem level_eq_of_counts (hne : opening ≠ closing) {depth : Nat} {text : List Char}
    (h : ∀ front, front <+: text → front.count closing ≤ depth + front.count opening) :
    level opening closing depth text =
      some (depth + text.count opening - text.count closing) := by
  -- The bound for the prefixes of the whole text gives one for those behind its first character.
  induction text generalizing depth with
  | nil => simp
  | cons c text ih =>
      have hcons : ∀ front, front <+: text →
          [c].count closing + front.count closing ≤
            depth + ([c].count opening + front.count opening) := by
        intro front hfront
        rw [← List.count_append, ← List.count_append]
        exact h (c :: front) (List.cons_prefix_cons.mpr ⟨rfl, hfront⟩)
      have hfirst := hcons [] List.nil_prefix
      rw [List.count_nil, List.count_nil] at hfirst
      -- So many brackets are open behind the character.
      obtain ⟨depth', hdepth'⟩ : ∃ depth', depth + [c].count opening = depth' + [c].count closing :=
        ⟨depth + [c].count opening - [c].count closing, by omega⟩
      have hnext : ∀ front, front <+: text → front.count closing ≤ depth' + front.count opening := by
        intro front hfront
        have hle := hcons front hfront
        omega
      rw [level_cons, (depthAfter_eq_some_iff hne).mpr hdepth', Option.bind_some, ih hnext,
        ← List.singleton_append, List.count_append, List.count_append]
      congr 1
      omega

/-- Behind a balanced text, as many brackets are open as before it. -/
theorem Balanced.level_eq {text : List Char} (h : Balanced opening closing text)
    (hne : opening ≠ closing) (depth : Nat) : level opening closing depth text = some depth := by
  have hcounts : ∀ front, front <+: text → front.count closing ≤ depth + front.count opening :=
    fun front hfront => (h.1 front hfront).trans (Nat.le_add_left _ _)
  rw [level_eq_of_counts hne hcounts, h.2, Nat.add_sub_cancel]

/-- Brackets around a text count only if there are any. -/
theorem level_between {front rest : List Char} (hfront : ∀ x ∈ front, x ≠ opening ∧ x ≠ closing)
    (hrest : ∀ x ∈ rest, x ≠ opening ∧ x ≠ closing) (depth : Nat) (text : List Char) :
    level opening closing depth (front ++ (text ++ rest)) = level opening closing depth text := by
  have hnone : ∀ s : List Char, (∀ x ∈ s, x ≠ opening ∧ x ≠ closing) →
      ∀ depth, level opening closing depth s = some depth := fun s hs =>
    level_of_notMem (fun hmem => (hs _ hmem).1 rfl) (fun hmem => (hs _ hmem).2 rfl)
  rw [level_append, hnone front hfront, Option.bind_some, level_append]
  cases level opening closing depth text with
  | none => rfl
  | some depth' => exact hnone rest hrest depth'

/-- In a balanced text, no bracket is closed before one is opened. -/
theorem Balanced.notMem_takeWhile {text : List Char} (h : Balanced opening closing text) :
    closing ∉ text.takeWhile (· != opening) := by
  have hcount := h.1 _ (List.takeWhile_prefix (· != opening))
  have hnone : (text.takeWhile (· != opening)).count opening = 0 :=
    List.count_eq_zero.mpr fun hmem => by simpa using List.mem_takeWhile_imp hmem
  rw [hnone, Nat.le_zero] at hcount
  exact List.count_eq_zero.mp hcount

/-! ## Closing brackets -/

theorem closingFrom_append_of_some {depth offset stop : Nat} {text : List Char}
    (h : Bracket.closingFrom opening closing depth offset text = some stop) (more : List Char) :
    Bracket.closingFrom opening closing depth offset (text ++ more) = some stop := by
  induction text generalizing depth offset with
  | nil => contradiction
  | cons c text ih =>
      cases hnext : depthAfter? opening closing depth c with
      | none => simpa [hnext] using h
      | some depth' =>
          have hrest : Bracket.closingFrom opening closing depth' (offset + 1) text = some stop := by
            simpa [hnext] using h
          simpa [hnext] using ih hrest

/-- A bracket that is open where the brackets come out even is closed. -/
theorem exists_closingFrom {depth depth' : Nat} (offset : Nat)
    {text : List Char} (hlevel : level opening closing depth' text = some 0) (hdepth : depth < depth') :
    ∃ stop, Bracket.closingFrom opening closing depth offset text = some stop := by
  -- The search counts fewer open brackets than there are, so it comes to its end first.
  induction text generalizing depth depth' offset with
  | nil =>
      obtain rfl : depth' = 0 := by simpa using hlevel
      contradiction
  | cons c text ih =>
      rw [level_cons] at hlevel
      obtain ⟨more, hmore, hlevel⟩ := Option.bind_eq_some_iff.mp hlevel
      cases hnext : depthAfter? opening closing depth c with
      | none => exact ⟨offset + 1, by simp [hnext]⟩
      | some less =>
          obtain ⟨stop, hstop⟩ := ih (offset + 1) hlevel (depthAfter_lt hdepth hmore less hnext)
          exact ⟨stop, by simpa [hnext] using hstop⟩

/-- A bracket is closed in front of a text that has none. -/
theorem stop_le_of_closingFrom {depth offset stop : Nat} {text rest : List Char}
    (hclose : closing ∉ rest)
    (h : Bracket.closingFrom opening closing depth offset (text ++ rest) = some stop) :
    stop ≤ offset + text.length := by
  induction text generalizing depth offset with
  | nil =>
      -- The bracket would be closed in the rest, which has no bracket that closes.
      exfalso
      rw [List.nil_append] at h
      induction rest generalizing depth offset with
      | nil => contradiction
      | cons c rest ih =>
          obtain ⟨hc, hrest⟩ := not_or.mp (List.mem_cons.not.mp hclose)
          by_cases hopen : c = opening
          · exact ih hrest (by simpa [hopen] using h)
          · exact ih hrest (by simpa [hopen, Ne.symm hc] using h)
  | cons c text ih =>
      rw [List.cons_append, closingFrom_cons] at h
      rw [List.length_cons]
      cases hnext : depthAfter? opening closing depth c with
      | none =>
          obtain rfl : offset + 1 = stop := by simpa [hnext] using h
          omega
      | some depth' =>
          have hle := ih (by simpa [hnext] using h)
          omega

end

/-! ## Blocks of two texts -/

theorem blockDepth_of_level {depth depth' : Nat} {text : List Char}
    (h : level '{' '}' depth text = some depth') : blockDepth depth text = depth' := by
  induction text generalizing depth with
  | nil => simpa using h
  | cons c text ih =>
      rw [level_cons] at h
      obtain ⟨next, hnext, hrest⟩ := Option.bind_eq_some_iff.mp h
      rw [← List.singleton_append, blockDepth_append, blockDepth_of_depthAfter hnext, ih hrest]

theorem outermostFrom_shift (n stop opened depth offset : Nat) (text : List Char) :
    outermostFrom (stop + n) (opened + n) depth (offset + n) text =
      (outermostFrom stop opened depth offset text).map (·.shift n) := by
  induction text generalizing opened depth offset with
  | nil =>
      by_cases hdepth : depth = 0
      · simp [outermostFrom, hdepth]
      · simp [outermostFrom, hdepth, Span.shift]
  | cons c text ih =>
      have hnext : offset + n + 1 = offset + 1 + n := by omega
      have hopened : (if depth = 0 then offset + n else opened + n) =
          (if depth = 0 then offset else opened) + n := by
        split_ifs
        · rfl
        · rfl
      by_cases hopen : c = '{'
      · simp [outermostFrom, hopen, hnext, hopened, ih]
      · by_cases hclose : c = '}'
        · by_cases hone : depth = 1
          · simp [outermostFrom, hclose, hone, hnext, ih, Span.shift]
          · simp [outermostFrom, hclose, hone, hnext, ih]
        · simp [outermostFrom, hopen, hclose, hnext, ih]

namespace BlockMap

/-- The outermost blocks of two texts, of which the first has balanced braces. -/
theorem blocks_append {text : List Char} (htext : level '{' '}' 0 text = some 0)
    (more : List Char) :
    (ofMask (text ++ more)).blocks =
      (ofMask text).blocks ++ (ofMask more).blocks.map (·.shift text.length) := by
  have hdepth := blockDepth_of_level htext
  -- No block is open behind the first text, so that all of its blocks are closed in it.
  have hfirst : (ofMask text).blocks = closedFrom 0 0 0 text := by
    rw [blocks_ofMask]
    conv_lhs => rw [← List.append_nil text]
    rw [outermostFrom_append, hdepth, outermostFrom, if_pos rfl, List.append_nil]
  have hshift := outermostFrom_shift text.length more.length 0 0 0 more
  rw [hfirst, blocks_ofMask, blocks_ofMask, outermostFrom_append, hdepth, ← hshift,
    List.length_append, Nat.add_comm text.length, outermostFrom_opened _ _ (0 + text.length)]

theorem mem_blocks_stop_le {text : List Char} (htext : level '{' '}' 0 text = some 0) {block : Span}
    (h : block ∈ (ofMask text).blocks) : block.stop ≤ text.length := by
  rw [blocks_ofMask] at h
  conv at h => rw [← List.append_nil text]
  rw [outermostFrom_append, blockDepth_of_level htext, outermostFrom, if_pos rfl,
    List.append_nil] at h
  have hstop := stop_le_of_mem_closedFrom h
  rwa [Nat.zero_add] at hstop

/-- The block around a place in the first of two texts. -/
theorem enclosing_left {text : List Char} (htext : level '{' '}' 0 text = some 0)
    (more : List Char) {offset : Nat} (hoffset : offset ≤ text.length) :
    (ofMask (text ++ more)).enclosing? offset = (ofMask text).enclosing? offset := by
  rw [enclosing_ofMask, enclosing_ofMask, blocks_append htext, List.find?_append]
  -- The blocks of the second text begin at its beginning or further on.
  have hnone : ((ofMask more).blocks.map (·.shift text.length)).find?
      (fun block => block.start < offset && offset < block.stop) = none := by
    refine List.find?_eq_none.mpr fun block hblock => ?_
    obtain ⟨inner, -, rfl⟩ := List.mem_map.mp hblock
    have hstart : (inner.shift text.length).start = inner.start + text.length := rfl
    simp only [Bool.and_eq_true, decide_eq_true_eq, hstart]
    omega
  rw [hnone, Option.or_none]

/-- The block around a place in the second of two texts. -/
theorem enclosing_right {text : List Char} (htext : level '{' '}' 0 text = some 0)
    (more : List Char) (offset : Nat) :
    (ofMask (text ++ more)).enclosing? (offset + text.length) =
      ((ofMask more).enclosing? offset).map (·.shift text.length) := by
  rw [enclosing_ofMask, enclosing_ofMask, blocks_append htext, List.find?_append, List.find?_map]
  -- The blocks of the first text end in it.
  have hnone : (ofMask text).blocks.find? (fun block =>
      block.start < offset + text.length && offset + text.length < block.stop) = none := by
    refine List.find?_eq_none.mpr fun block hblock => ?_
    have hstop := mem_blocks_stop_le htext hblock
    simp only [Bool.and_eq_true, decide_eq_true_eq]
    omega
  rw [hnone, Option.none_or]
  congr 2
  funext block
  have hstart : (block.shift text.length).start = block.start + text.length := rfl
  have hstop : (block.shift text.length).stop = block.stop + text.length := rfl
  simp only [Function.comp_apply, hstart, hstop, Nat.add_lt_add_iff_right]

theorem isTopLevel_left {text : List Char} (htext : level '{' '}' 0 text = some 0)
    (more : List Char) {offset : Nat} (hoffset : offset ≤ text.length) :
    (ofMask (text ++ more)).isTopLevel offset = (ofMask text).isTopLevel offset := by
  rw [isTopLevel, isTopLevel, enclosing_left htext more hoffset]

theorem isTopLevel_right {text : List Char} (htext : level '{' '}' 0 text = some 0)
    (more : List Char) (offset : Nat) :
    (ofMask (text ++ more)).isTopLevel (offset + text.length) = (ofMask more).isTopLevel offset := by
  rw [isTopLevel, isTopLevel, enclosing_right htext, Option.isNone_map]

/-- The blocks of a region of a text, behind some more characters. -/
theorem ofRegion_shift (front text : List Char) (region : Span) :
    (ofRegion (front ++ text) (region.shift front.length)).blocks =
      (ofRegion text region).blocks.map (·.shift front.length) := by
  show outermostFrom _ _ 0 _ ((region.shift front.length).slice (front ++ text)) = _
  rw [Span.slice_shift]
  exact outermostFrom_shift front.length region.stop region.start 0 region.start _

theorem isTopLevel_ofRegion_shift (front text : List Char) (region : Span) (offset : Nat) :
    (ofRegion (front ++ text) (region.shift front.length)).isTopLevel (offset + front.length) =
      (ofRegion text region).isTopLevel offset := by
  rw [isTopLevel, isTopLevel, enclosing_ofRegion, enclosing_ofRegion, ofRegion_shift, List.find?_map,
    Option.isNone_map]
  congr 2
  funext block
  have hstart : (block.shift front.length).start = block.start + front.length := rfl
  have hstop : (block.shift front.length).stop = block.stop + front.length := rfl
  simp only [Function.comp_apply, hstart, hstop, Nat.add_lt_add_iff_right]

end BlockMap

end SourceChunks
