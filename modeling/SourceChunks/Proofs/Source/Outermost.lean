import Mathlib
import SourceChunks.Proofs.Source.Blocks

/-!
# What a block map lists

A block map is made in one pass that counts the open braces of a region, and is asked by
bisection.  Both agree with what can be said of a single place: a place is at the top level
exactly if no block is open there, and a block is listed exactly if it begins with a brace at
the top level; it ends where the search for the closing brace finds it, or with the region.

* `blockDepth_slice_succ`: one more character of a region.
* `bounds_of_mem_blocks`: the blocks of a region lie in it.
* `exists_inside_iff`: the places inside of blocks, by the number of open ones.
* `top_level_of_region`: the block map of a region, asked for a place.
* `openings`, `outermostFrom_eq_map`: the braces that open the outermost blocks.
* `blocks_of_openings`: the blocks of a region, each found from its brace.
-/

namespace SourceChunks

variable {text : List Char} {region : Span}

/-! ## Places of a region -/

/-- The depth behind one more character of a region. -/
theorem blockDepth_slice_succ {start offset : Nat} {c : Char} (hle : start ≤ offset)
    (hc : text[offset]? = some c) :
    blockDepth 0 (Span.slice ⟨start, offset + 1⟩ text) =
      blockDepth (blockDepth 0 (Span.slice ⟨start, offset⟩ text)) [c] := by
  obtain ⟨rest, hrest⟩ := List.head?_eq_some_iff.mp (List.head?_drop.trans hc)
  have hslice : Span.slice ⟨start, offset + [c].length⟩ text =
      Span.slice ⟨start, offset⟩ text ++ [c] :=
    Span.slice_add hle hrest
  rw [← blockDepth_append, ← hslice]
  rfl

namespace BlockMap

/-! ## Top level -/

/-- The blocks of a region lie in it and are not empty. -/
theorem bounds_of_mem_blocks {block : Span} (hblock : block ∈ (ofRegion text region).blocks) :
    region.start ≤ block.start ∧ block.start < block.stop ∧ block.stop ≤ region.stop := by
  have hnonempty := (inSequence_ofRegion text region).nonempty block hblock
  have hstart : region.start ≤ block.start := by
    rcases le_start_of_mem_outermostFrom hblock with ⟨hzero, -⟩ | hstart
    · exact absurd rfl hzero
    · exact hstart
  refine ⟨hstart, hnonempty, ?_⟩
  -- A block is closed in the region, or it ends with the region.
  rw [ofRegion, ← List.append_nil (region.slice text), outermostFrom_append] at hblock
  rcases List.mem_append.mp hblock with hclosed | hopen
  · have hstop := stop_le_of_mem_closedFrom hclosed
    rw [Span.slice, List.length_take] at hstop
    omega
  · rw [outermostFrom] at hopen
    split_ifs at hopen
    · contradiction
    · rw [List.mem_singleton.mp hopen]

/-- A place in a region is inside of a block exactly if one is open there. -/
theorem exists_inside_iff {offset : Nat} (hstop : region.stop ≤ text.length)
    (hstart : region.start ≤ offset) (hoffset : offset < region.stop) :
    (∃ block ∈ (ofRegion text region).blocks, block.start < offset ∧ offset < block.stop) ↔
      blockDepth 0 (Span.slice ⟨region.start, offset⟩ text) ≠ 0 := by
  obtain ⟨rest, hrest, hslice⟩ : ∃ rest ≠ [],
      region.slice text = Span.slice ⟨region.start, offset⟩ text ++ rest := by
    refine ⟨Span.slice ⟨offset, region.stop⟩ text, ?_, ?_⟩
    · have hlength := Span.slice_length ⟨offset, region.stop⟩ text hstop
      exact List.ne_nil_of_length_pos (hlength ▸ Nat.sub_pos_of_lt hoffset)
    · have hsplit : region.stop - region.start = offset - region.start + (region.stop - offset) := by
        omega
      have hdrop : region.start + (offset - region.start) = offset := by omega
      rw [Span.slice, Span.slice, Span.slice, hsplit, List.take_add, List.drop_drop, hdrop]
  have hplace : region.start + (Span.slice ⟨region.start, offset⟩ text).length = offset := by
    rw [Span.slice_length _ _ (hoffset.le.trans hstop)]
    exact Nat.add_sub_cancel' hstart
  have hlength : offset + rest.length ≤ region.stop := by
    have heq := congrArg List.length hslice
    rw [List.length_append, Span.slice_length _ _ hstop] at heq
    omega
  rw [ofRegion, hslice]
  generalize Span.slice ⟨region.start, offset⟩ text = passed at hplace
  rw [outermostFrom_append, hplace]
  constructor
  · rintro ⟨block, hblock, hbefore, hbehind⟩ hzero
    rcases List.mem_append.mp hblock with hclosed | hlater
    · have hle := stop_le_of_mem_closedFrom hclosed
      omega
    · rcases le_start_of_mem_outermostFrom hlater with ⟨hopen, -⟩ | hlater
      · exact hopen hzero
      · omega
  · intro hopen
    obtain ⟨stop, more, heq, hlt⟩ := exists_outermostFrom (openedBehind region.start 0 region.start
      passed) hopen hlength hrest
    have hopened : openedBehind region.start 0 region.start passed < region.start + passed.length :=
      openedBehind_lt (fun h => absurd rfl h) hopen
    rw [hplace] at hopened
    exact ⟨_, List.mem_append_right _ (heq ▸ List.mem_cons_self), hopened, hlt⟩

/-- A place in a region is at the top level of its block map exactly if no block is open there,
and every other place is; the blocks come one behind the other, lie in the region and are not
empty; and the block around a place is the listed one that it is strictly inside of, so that
there is at most one. -/
theorem top_level_of_region (hstop : region.stop ≤ text.length) :
    (∀ offset, region.start ≤ offset → offset < region.stop →
      ((ofRegion text region).isTopLevel offset = true ↔
        blockDepth 0 (Span.slice ⟨region.start, offset⟩ text) = 0)) ∧
    (∀ offset, offset < region.start ∨ region.stop ≤ offset →
      (ofRegion text region).isTopLevel offset = true) ∧
    (ofRegion text region).blocks.Pairwise (·.stop ≤ ·.start) ∧
    (∀ block ∈ (ofRegion text region).blocks,
      region.start ≤ block.start ∧ block.start < block.stop ∧ block.stop ≤ region.stop) ∧
    (∀ offset block, (ofRegion text region).enclosing? offset = some block ↔
      block ∈ (ofRegion text region).blocks ∧ block.start < offset ∧ offset < block.stop) := by
  have hsequence := inSequence_ofRegion text region
  have htop : ∀ offset, (ofRegion text region).isTopLevel offset = true ↔
      ¬ ∃ block ∈ (ofRegion text region).blocks, block.start < offset ∧ offset < block.stop := by
    intro offset
    rw [isTopLevel, Option.isNone_iff_eq_none, Option.eq_none_iff_forall_ne_some, not_exists]
    exact forall_congr' fun block => not_congr (enclosing_eq_some_iff hsequence)
  refine ⟨fun offset hstart hoffset => ?_, fun offset hout => ?_, hsequence.apart,
    fun block hblock => bounds_of_mem_blocks hblock,
    fun offset block => enclosing_eq_some_iff hsequence⟩
  · rw [htop, exists_inside_iff hstop hstart hoffset, not_not]
  · rw [htop]
    rintro ⟨block, hblock, hbefore, hbehind⟩
    obtain ⟨hstart, -, hstop⟩ := bounds_of_mem_blocks hblock
    omega

/-- A text with a closing brace too many, nested blocks, and a block that is not closed. -/
def strayAndUnclosed : List Char :=
  "x\x7b\x7da\x7bb\x7bc\x7d\x7dd\x7be\x7bf\x7dg\x7d".toList

theorem top_level_of_region_strayAndUnclosed :
    16 ≤ strayAndUnclosed.length ∧
      (ofRegion strayAndUnclosed ⟨2, 16⟩).isTopLevel 3 = true ∧
      (ofRegion strayAndUnclosed ⟨2, 16⟩).isTopLevel 7 = false ∧
      (ofRegion strayAndUnclosed ⟨2, 16⟩).isTopLevel 10 = true ∧
      (ofRegion strayAndUnclosed ⟨2, 16⟩).enclosing? 15 = some ⟨11, 16⟩ := by
  obtain ⟨htop, -, -, -, henclosing⟩ := @top_level_of_region strayAndUnclosed ⟨2, 16⟩ (by decide)
  refine ⟨by decide, ?_, ?_, ?_, ?_⟩
  · exact (htop 3 (by decide) (by decide)).mpr (by decide)
  · exact Bool.eq_false_iff.mpr (mt (htop 7 (by decide) (by decide)).mp (by decide))
  · exact (htop 10 (by decide) (by decide)).mpr (by decide)
  · exact (henclosing 15 ⟨11, 16⟩).mpr (by decide)

/-! ## Blocks and their braces -/

variable {stop opened depth offset : Nat} {rest : List Char}

/-- Whether an outermost block of a region opens at a place: an opening brace stands there, and no
block is open. -/
def opensBlock (text : List Char) (region : Span) (place : Nat) : Bool :=
  text[place]? = some '{' && blockDepth 0 (Span.slice ⟨region.start, place⟩ text) = 0

/-- The places of a region at which an outermost block opens, in increasing order. -/
def openings (text : List Char) (region : Span) : List Nat :=
  (List.range' region.start (region.stop - region.start)).filter (opensBlock text region)

/-- The block that opens at a place, up to the brace that closes it in the region or to the end of
the region. -/
def blockFrom (text : List Char) (region : Span) (opening : Nat) : Span :=
  ⟨opening, (Bracket.blockEndFrom (opening + 1)
    ((text.take region.stop).drop (opening + 1))).getD region.stop⟩

/-- What is left of a region begins with the character at its place in the text. -/
theorem getElem?_of_drop_take {c : Char} {more : List Char}
    (h : (text.take stop).drop offset = c :: more) :
    text[offset]? = some c ∧ (text.take stop).drop (offset + 1) = more := by
  constructor
  · have hc : ((text.take stop).drop offset)[0]? = some c := by rw [h]; rfl
    rw [List.getElem?_drop, Nat.add_zero, List.getElem?_take] at hc
    split_ifs at hc
    exact hc
  · rw [← List.drop_drop, h]
    rfl

/-- In the rest of a region, the block that is open ends where the search for its end says, and
behind it come the blocks that open in the rest. -/
theorem outermostFrom_eq_map (hstart : region.start ≤ offset)
    (hrest : (text.take region.stop).drop offset = rest)
    (hdepth : blockDepth 0 (Span.slice ⟨region.start, offset⟩ text) = depth) :
    outermostFrom region.stop opened depth offset rest =
      (if depth = 0 then []
        else [⟨opened, (Bracket.closingFrom '{' '}' (depth - 1) offset rest).getD region.stop⟩]) ++
      ((List.range' offset rest.length).filter (opensBlock text region)).map
        (blockFrom text region) := by
  -- By the characters of the rest, where the depth is the one that is counted in the text.
  induction rest generalizing opened depth offset with
  | nil =>
      rw [outermostFrom]
      by_cases hzero : depth = 0
      · simp [hzero]
      · simp [hzero, Bracket.closingFrom]
  | cons c rest ih =>
      obtain ⟨hc, hmore⟩ := getElem?_of_drop_take hrest
      have hnext : blockDepth 0 (Span.slice ⟨region.start, offset + 1⟩ text) =
          if c = '{' then depth + 1 else if c = '}' then depth - 1 else depth := by
        rw [blockDepth_slice_succ hstart hc, hdepth]
        rfl
      have hopens : opensBlock text region offset = (c = '{' && depth = 0) := by
        rw [opensBlock, hc, hdepth]
        simp
      have hstart' : region.start ≤ offset + 1 := hstart.trans (Nat.le_succ offset)
      rw [List.length_cons, List.range'_succ]
      by_cases hopen : c = '{'
      · rw [if_pos hopen] at hnext
        rw [outermostFrom, if_pos hopen, ih hstart' hmore hnext, if_neg (Nat.succ_ne_zero depth)]
        cases depth with
        | zero =>
            have hblock : blockFrom text region offset =
                ⟨offset, (Bracket.closingFrom '{' '}' 0 (offset + 1) rest).getD region.stop⟩ := by
              rw [blockFrom, hmore, Bracket.blockEndFrom]
            simp [hopens, hopen, hblock]
        | succ depth => simp [hopens, hopen]
      · rw [if_neg hopen] at hnext
        rw [List.filter_cons_of_neg (by simp [hopens, hopen])]
        by_cases hclose : c = '}'
        · rw [if_pos hclose] at hnext
          subst hclose
          rcases depth with _ | _ | depth
          · simpa [outermostFrom] using @ih opened _ _ hstart' hmore hnext
          · simpa [outermostFrom] using @ih opened _ _ hstart' hmore hnext
          · simpa [outermostFrom] using @ih opened _ _ hstart' hmore hnext
        · rw [if_neg hclose] at hnext
          cases depth with
          | zero => simp [outermostFrom, hopen, hclose, ih hstart' hmore hnext]
          | succ depth => simp [outermostFrom, hopen, hclose, ih hstart' hmore hnext]

/-- The blocks of a region are those that its braces open where no block is open. -/
theorem blocks_eq_map (hstop : region.stop ≤ text.length) :
    (ofRegion text region).blocks = (openings text region).map (blockFrom text region) := by
  have hslice : (text.take region.stop).drop region.start = region.slice text := List.drop_take
  have hnone : blockDepth 0 (Span.slice ⟨region.start, region.start⟩ text) = 0 := by
    rw [Span.slice, Nat.sub_self, List.take_zero]
    rfl
  rw [ofRegion, outermostFrom_eq_map (Nat.le_refl _) hslice hnone, if_pos rfl, List.nil_append,
    Span.slice_length _ _ hstop]
  rfl

/-- From an opening brace of a region, the search for its end looks at what is left of the
region. -/
theorem blockEnd_of_mem_openings {opening : Nat} (h : opening ∈ openings text region) :
    Bracket.blockEnd? (text.take region.stop) opening = .ok (Bracket.blockEndFrom (opening + 1)
      ((text.take region.stop).drop (opening + 1))) := by
  obtain ⟨hrange, hopens⟩ := List.mem_filter.mp h
  obtain ⟨hbrace, -⟩ := Bool.and_eq_true_iff.mp hopens
  have hlt : opening < region.stop := by
    have hmem := List.mem_range'_1.mp hrange
    omega
  have hat : (text.take region.stop)[opening]? = some '{' := by
    rw [List.getElem?_take_of_lt hlt]
    exact of_decide_eq_true hbrace
  obtain ⟨hlength, hchar⟩ := List.getElem?_eq_some_iff.mp hat
  rw [Bracket.blockEnd?, Bracket.closing?, List.drop_eq_getElem_cons hlength, hchar]
  rfl

/-- Only the last block of a region can end with it. -/
theorem stop_lt_of_mem_dropLast {block : Span}
    (hblock : block ∈ (ofRegion text region).blocks.dropLast) : block.stop < region.stop := by
  have hne : (ofRegion text region).blocks ≠ [] :=
    List.ne_nil_of_mem (List.mem_of_mem_dropLast hblock)
  have hapart := (inSequence_ofRegion text region).apart
  rw [← List.dropLast_append_getLast hne, List.pairwise_append] at hapart
  have hle := hapart.2.2 block hblock _ (List.mem_singleton.mpr rfl)
  obtain ⟨-, hlast, hend⟩ := bounds_of_mem_blocks (List.getLast_mem hne)
  exact hle.trans_lt (hlast.trans_le hend)

/-- The blocks of a region begin, in increasing order, at the opening braces where no block is
open.  Each ends where the search from its brace finds the end in the text up to the end of the
region, or with the region if the search finds none, which it does at most for the last one. -/
theorem blocks_of_openings (hstop : region.stop ≤ text.length) :
    List.Forall₂ (fun opening (block : Span) => block.start = opening ∧
        ∃ found, Bracket.blockEnd? (text.take region.stop) opening = .ok found ∧
          block.stop = found.getD region.stop)
      (openings text region) (ofRegion text region).blocks ∧
    ∀ block ∈ (ofRegion text region).blocks.dropLast,
      Bracket.blockEnd? (text.take region.stop) block.start = .ok (some block.stop) := by
  constructor
  · rw [blocks_eq_map hstop, List.forall₂_map_right_iff, List.forall₂_same]
    exact fun opening h => ⟨rfl, _, blockEnd_of_mem_openings h, rfl⟩
  · intro block hblock
    obtain ⟨opening, hopening, rfl⟩ : ∃ opening ∈ openings text region,
        blockFrom text region opening = block := by
      rw [blocks_eq_map hstop] at hblock
      exact List.mem_map.mp (List.mem_of_mem_dropLast hblock)
    -- A block that is never closed would end with the region.
    have hlt := stop_lt_of_mem_dropLast hblock
    show Bracket.blockEnd? (text.take region.stop) opening = _
    rw [blockEnd_of_mem_openings hopening]
    cases hfound : Bracket.blockEndFrom (opening + 1)
        ((text.take region.stop).drop (opening + 1)) with
    | none =>
        rw [blockFrom, hfound] at hlt
        exact absurd hlt (Nat.lt_irrefl _)
    | some stop => rw [blockFrom, hfound, Option.getD_some]

theorem blocks_of_openings_strayAndUnclosed :
    16 ≤ strayAndUnclosed.length ∧
      List.Forall₂ (fun opening (block : Span) => block.start = opening ∧
          ∃ found, Bracket.blockEnd? (strayAndUnclosed.take 16) opening = .ok found ∧
            block.stop = found.getD 16)
        [4, 11] [⟨4, 10⟩, ⟨11, 16⟩] ∧
      Bracket.blockEnd? (strayAndUnclosed.take 16) 4 = .ok (some 10) := by
  obtain ⟨hblocks, hclosed⟩ := @blocks_of_openings strayAndUnclosed ⟨2, 16⟩ (by decide)
  have hopenings : openings strayAndUnclosed ⟨2, 16⟩ = [4, 11] := by decide
  have hlisted : (ofRegion strayAndUnclosed ⟨2, 16⟩).blocks = [⟨4, 10⟩, ⟨11, 16⟩] := by decide
  rw [hopenings, hlisted] at hblocks
  rw [hlisted] at hclosed
  exact ⟨by decide, hblocks, hclosed ⟨4, 10⟩ List.mem_cons_self⟩

end BlockMap

end SourceChunks
