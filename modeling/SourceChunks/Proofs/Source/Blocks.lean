import Mathlib
import SourceChunks.Source.BlockMap
import SourceChunks.Source.Bracket

/-!
# Depth and outermost blocks

How many blocks are open behind some characters, where a closing brace without an opening
one does not count, tells where the outermost blocks begin and which places are at the top
level.  The block that is found from its brace is the one that the block map lists.

* `blockDepth`: the number of open blocks.
* `outermostFrom_append`, `outermostFrom_cons`: the blocks of a text in two parts.
* `InSequence`, `inSequence_ofRegion`: the blocks of a region come one behind the other.
* `enclosing_eq_some_iff`: so bisection finds the one that a place is strictly inside of.
* `isTopLevel_iff`: a place is at the top level exactly if no block is open there.
* `depthAfter?`: what a character does to the number of open brackets.
* `closingFrom_cons`: the search for a closing bracket keeps this number.
* `mem_blocks_of_closing`: a block that begins where none is open, and that is closed, is
  listed; `enclosing_of_closing`: it encloses what is strictly inside of it.
* `blockDepth_of_mem_blocks`: a listed block begins where none is open.
-/

namespace SourceChunks

/-- The number of open blocks behind some characters. -/
@[simp] def blockDepth : (depth : Nat) → List Char → Nat
  | depth, [] => depth
  | depth, c :: rest =>
      blockDepth (if c = '{' then depth + 1 else if c = '}' then depth - 1 else depth) rest

@[simp] theorem blockDepth_append (depth : Nat) (front rest : List Char) :
    blockDepth depth (front ++ rest) = blockDepth (blockDepth depth front) rest := by
  induction front generalizing depth with
  | nil => rfl
  | cons c front ih => exact ih _

/-- Behind the same characters, no more blocks are open where no more were. -/
theorem blockDepth_le {depth more : Nat} (h : depth ≤ more) (text : List Char) :
    blockDepth depth text ≤ blockDepth more text := by
  induction text generalizing depth more with
  | nil => exact h
  | cons c text ih =>
      apply ih
      split_ifs
      · omega
      · omega
      · exact h

theorem blockDepth_eq_self {text : List Char} (h : ∀ c ∈ text, c ≠ '{' ∧ c ≠ '}') (depth : Nat) :
    blockDepth depth text = depth := by
  induction text generalizing depth with
  | nil => rfl
  | cons c text ih =>
      obtain ⟨hopen, hclose⟩ := h c List.mem_cons_self
      simpa [hopen, hclose] using ih (fun x hx => h x (List.mem_cons_of_mem c hx)) depth

/-- Where nothing is opened, nothing is open. -/
theorem blockDepth_eq_zero {text : List Char} (h : '{' ∉ text) : blockDepth 0 text = 0 := by
  induction text with
  | nil => rfl
  | cons c text ih =>
      obtain ⟨hopen, htext⟩ := not_or.mp (List.mem_cons.not.mp h)
      simpa [Ne.symm hopen] using ih htext

/-! ## Blocks of a text in two parts -/

/-- The blocks of some characters that are closed within them. -/
@[simp] def closedFrom : (opened depth offset : Nat) → List Char → List Span
  | _, _, _, [] => []
  | opened, depth, offset, c :: rest =>
      if c = '{' then
        closedFrom (if depth = 0 then offset else opened) (depth + 1) (offset + 1) rest
      else if c = '}' then
        if depth = 1 then ⟨opened, offset + 1⟩ :: closedFrom opened 0 (offset + 1) rest
        else closedFrom opened (depth - 1) (offset + 1) rest
      else closedFrom opened depth (offset + 1) rest

/-- Where the latest outermost block behind some characters was opened. -/
@[simp] def openedBehind : (opened depth offset : Nat) → List Char → Nat
  | opened, _, _, [] => opened
  | opened, depth, offset, c :: rest =>
      if c = '{' then
        openedBehind (if depth = 0 then offset else opened) (depth + 1) (offset + 1) rest
      else if c = '}' then openedBehind opened (depth - 1) (offset + 1) rest
      else openedBehind opened depth (offset + 1) rest

theorem outermostFrom_append (stop opened depth offset : Nat) (front rest : List Char) :
    outermostFrom stop opened depth offset (front ++ rest) =
      closedFrom opened depth offset front ++
        outermostFrom stop (openedBehind opened depth offset front) (blockDepth depth front)
          (offset + front.length) rest := by
  induction front generalizing opened depth offset with
  | nil => rfl
  | cons c front ih =>
      have hoffset : offset + (c :: front).length = offset + 1 + front.length := by
        rw [List.length_cons]
        omega
      rw [List.cons_append, outermostFrom, hoffset]
      by_cases hopen : c = '{'
      · simp [hopen, ih]
      · by_cases hclose : c = '}'
        · by_cases hdepth : depth = 1
          · simp [hclose, hdepth, ih]
          · simp [hclose, hdepth, ih]
        · simp [hopen, hclose, ih]

/-- Where no block is open, it does not matter where the last one was opened. -/
theorem outermostFrom_opened (stop opened opened' offset : Nat) (text : List Char) :
    outermostFrom stop opened 0 offset text = outermostFrom stop opened' 0 offset text := by
  induction text generalizing offset with
  | nil => rfl
  | cons c text ih =>
      by_cases hopen : c = '{'
      · simp [outermostFrom, hopen]
      · simp [outermostFrom, hopen, ih (offset + 1)]

theorem openedBehind_lt {opened depth offset : Nat} {front : List Char}
    (hopened : depth ≠ 0 → opened < offset) (hdepth : blockDepth depth front ≠ 0) :
    openedBehind opened depth offset front < offset + front.length := by
  -- While a block is open, the place where it was opened has been passed.
  induction front generalizing opened depth offset with
  | nil => exact hopened hdepth
  | cons c front ih =>
      rw [blockDepth] at hdepth
      rw [openedBehind, List.length_cons, Nat.add_comm front.length, ← Nat.add_assoc]
      by_cases hopen : c = '{'
      · rw [if_pos hopen] at hdepth ⊢
        refine ih (fun _ => ?_) hdepth
        split_ifs with hzero
        · omega
        · exact Nat.lt_succ_of_lt (hopened hzero)
      · rw [if_neg hopen] at hdepth ⊢
        by_cases hclose : c = '}'
        · rw [if_pos hclose] at hdepth ⊢
          exact ih (fun h => Nat.lt_succ_of_lt (hopened (by omega))) hdepth
        · rw [if_neg hclose] at hdepth ⊢
          exact ih (fun h => Nat.lt_succ_of_lt (hopened h)) hdepth

theorem stop_le_of_mem_closedFrom {opened depth offset : Nat} {front : List Char} {block : Span}
    (h : block ∈ closedFrom opened depth offset front) : block.stop ≤ offset + front.length := by
  induction front generalizing opened depth offset with
  | nil => contradiction
  | cons c front ih =>
      rw [closedFrom] at h
      rw [List.length_cons, Nat.add_comm front.length, ← Nat.add_assoc]
      by_cases hopen : c = '{'
      · rw [if_pos hopen] at h
        exact ih h
      · rw [if_neg hopen] at h
        by_cases hclose : c = '}'
        · rw [if_pos hclose] at h
          by_cases hone : depth = 1
          · rw [if_pos hone] at h
            rcases List.mem_cons.mp h with rfl | h
            · exact Nat.le_add_right _ _
            · exact ih h
          · rw [if_neg hone] at h
            exact ih h
        · rw [if_neg hclose] at h
          exact ih h

/-- One character closes an outermost block if it is a brace and no other block is open. -/
theorem mem_closedFrom_singleton {opened depth offset : Nat} {c : Char} {block : Span} :
    block ∈ closedFrom opened depth offset [c] ↔
      c = '}' ∧ depth = 1 ∧ block = ⟨opened, offset + 1⟩ := by
  by_cases hopen : c = '{'
  · simp [hopen]
  · by_cases hclose : c = '}'
    · by_cases hone : depth = 1
      · simp [hclose, hone]
      · simp [hclose, hone]
    · simp [hopen, hclose]

/-- A block that is open behind a character was open before it, or the character opens it. -/
theorem openedBehind_singleton {depth : Nat} {c : Char} (opened offset : Nat)
    (h : blockDepth depth [c] ≠ 0) :
    (depth ≠ 0 ∧ openedBehind opened depth offset [c] = opened) ∨
      (depth = 0 ∧ openedBehind opened depth offset [c] = offset) := by
  by_cases hdepth : depth = 0
  · by_cases hopen : c = '{'
    · exact .inr ⟨hdepth, by simp [hopen, hdepth]⟩
    · exact absurd (by simp [hopen, hdepth]) h
  · exact .inl ⟨hdepth, by simp [hdepth]⟩

/-- The blocks of a text are one that its first character closes and those behind it. -/
theorem outermostFrom_cons (stop opened depth offset : Nat) (c : Char) (rest : List Char) :
    outermostFrom stop opened depth offset (c :: rest) =
      closedFrom opened depth offset [c] ++
        outermostFrom stop (openedBehind opened depth offset [c]) (blockDepth depth [c])
          (offset + 1) rest :=
  outermostFrom_append stop opened depth offset [c] rest

/-- A block begins where the open one was opened, if one is open, and further on otherwise. -/
theorem le_start_of_mem_outermostFrom {stop opened depth offset : Nat} {text : List Char}
    {block : Span} (h : block ∈ outermostFrom stop opened depth offset text) :
    (depth ≠ 0 ∧ block.start = opened) ∨ offset ≤ block.start := by
  -- The first block that is listed may be the open one; all others begin further on.
  induction text generalizing opened depth offset with
  | nil =>
      rw [outermostFrom] at h
      split_ifs at h with hdepth
      · contradiction
      · rw [List.mem_singleton.mp h]
        exact .inl ⟨hdepth, rfl⟩
  | cons c text ih =>
      rw [outermostFrom_cons] at h
      rcases List.mem_append.mp h with h | h
      · obtain ⟨-, rfl, rfl⟩ := mem_closedFrom_singleton.mp h
        exact .inl ⟨Nat.one_ne_zero, rfl⟩
      · rcases ih h with ⟨hdepth, hstart⟩ | hstart
        · rcases openedBehind_singleton opened offset hdepth with ⟨hopen, heq⟩ | ⟨-, heq⟩
          · exact .inl ⟨hopen, hstart.trans heq⟩
          · exact .inr (hstart.trans heq).ge
        · exact .inr (Nat.le_of_succ_le hstart)

/-- Where blocks are open, the outermost of them is the first one that ends. -/
theorem exists_outermostFrom {stop depth offset : Nat} {text : List Char} (opened : Nat)
    (hdepth : depth ≠ 0) (hstop : offset + text.length ≤ stop) (htext : text ≠ []) :
    ∃ stop' more, outermostFrom stop opened depth offset text = ⟨opened, stop'⟩ :: more ∧
      offset < stop' := by
  induction text generalizing depth offset with
  | nil => contradiction
  | cons c text ih =>
      rw [List.length_cons] at hstop
      -- A block that is still open behind the next character ends later or with the text.
      have hnext : ∀ depth, depth ≠ 0 → ∃ stop' more,
          outermostFrom stop opened depth (offset + 1) text = ⟨opened, stop'⟩ :: more ∧
            offset < stop' := by
        intro depth hdepth
        by_cases hmore : text = []
        · subst hmore
          exact ⟨stop, [], by rw [outermostFrom, if_neg hdepth], by omega⟩
        · obtain ⟨stop', more, heq, hlt⟩ :=
            ih hdepth (show offset + 1 + text.length ≤ stop by omega) hmore
          exact ⟨stop', more, heq, by omega⟩
      rw [outermostFrom]
      by_cases hopen : c = '{'
      · rw [if_pos hopen, if_neg hdepth]
        exact hnext _ (by omega)
      · rw [if_neg hopen]
        by_cases hclose : c = '}'
        · rw [if_pos hclose]
          by_cases hone : depth = 1
          · rw [if_pos hone]
            exact ⟨offset + 1, _, rfl, by omega⟩
          · rw [if_neg hone]
            exact hnext _ (by omega)
        · rw [if_neg hclose]
          exact hnext _ hdepth

/-! ## The order of blocks -/

/-- Behind an item that does not come before a place, none does. -/
theorem not_of_mem_dropWhile {α : Type} {isBefore : α → Bool} {items : List α}
    (h : items.Pairwise fun x y => isBefore y = true → isBefore x = true) :
    ∀ y ∈ items.dropWhile isBefore, isBefore y = false := by
  induction items with
  | nil => simp
  | cons x items ih =>
      obtain ⟨hx, hitems⟩ := List.pairwise_cons.mp h
      by_cases hbefore : isBefore x = true
      · rw [List.dropWhile_cons_of_pos hbefore]
        exact ih hitems
      · rw [List.dropWhile_cons_of_neg hbefore]
        refine List.forall_mem_cons.mpr ⟨Bool.eq_false_iff.mpr hbefore, fun y hy => ?_⟩
        exact Bool.eq_false_iff.mpr fun hbefore' => hbefore (hx y hy hbefore')

/-- Blocks that are not empty, and of which each ends before the next one begins. -/
structure InSequence (blocks : List Span) : Prop where
  apart : blocks.Pairwise (·.stop ≤ ·.start)
  nonempty : ∀ block ∈ blocks, block.start < block.stop

theorem InSequence.cons {block : Span} {blocks : List Span} (hblock : block.start < block.stop)
    (hapart : ∀ block' ∈ blocks, block.stop ≤ block'.start) (h : InSequence blocks) :
    InSequence (block :: blocks) where
  apart := List.pairwise_cons.mpr ⟨hapart, h.apart⟩
  nonempty := List.forall_mem_cons.mpr ⟨hblock, h.nonempty⟩

theorem inSequence_outermostFrom {stop opened depth offset : Nat} {text : List Char}
    (hopened : depth ≠ 0 → opened < offset) (hstop : offset + text.length ≤ stop) :
    InSequence (outermostFrom stop opened depth offset text) := by
  induction text generalizing opened depth offset with
  | nil =>
      rw [List.length_nil] at hstop
      rw [outermostFrom]
      split_ifs with hdepth
      · exact ⟨.nil, by simp⟩
      · exact .cons ((hopened hdepth).trans_le hstop) (by simp) ⟨.nil, by simp⟩
  | cons c text ih =>
      rw [List.length_cons] at hstop
      have hstop' : offset + 1 + text.length ≤ stop := by omega
      have hopened' : blockDepth depth [c] ≠ 0 →
          openedBehind opened depth offset [c] < offset + 1 := openedBehind_lt hopened
      have hbehind := ih hopened' hstop'
      rw [outermostFrom_cons]
      by_cases hclosed : c = '}' ∧ depth = 1
      · obtain ⟨rfl, rfl⟩ := hclosed
        refine .cons (Nat.lt_succ_of_lt (hopened Nat.one_ne_zero)) (fun block hblock => ?_) hbehind
        rcases le_start_of_mem_outermostFrom hblock with ⟨hzero, -⟩ | hstart
        · exact absurd rfl hzero
        · exact hstart
      · have hnone : closedFrom opened depth offset [c] = [] :=
          List.eq_nil_iff_forall_not_mem.mpr fun block hblock =>
            have ⟨hc, hone, _⟩ := mem_closedFrom_singleton.mp hblock
            hclosed ⟨hc, hone⟩
        rwa [hnone]

namespace BlockMap

/-- Blocks that all begin behind a place, or all end before it, are not around it. -/
theorem find_eq_none {blocks : List Span} {offset : Nat}
    (h : ∀ block ∈ blocks, offset ≤ block.start ∨ block.stop ≤ offset) :
    blocks.find? (fun block => block.start < offset && offset < block.stop) = none := by
  refine List.find?_eq_none.mpr fun block hblock => ?_
  have hout := h block hblock
  simp only [Bool.and_eq_true, decide_eq_true_eq]
  omega

/-- Of some blocks in sequence, only the last one that does not begin behind a place can be
around it. -/
theorem find_of_apart {front behind : List Span} {offset : Nat}
    (hapart : (front ++ behind).Pairwise (·.stop ≤ ·.start))
    (hfront : ∀ block ∈ front, block.start ≤ offset)
    (hbehind : ∀ block ∈ behind, offset ≤ block.start) :
    (match front.length with
      | 0 => none
      | before + 1 => (front ++ behind)[before]?.filter
          fun block => block.start < offset && offset < block.stop) =
      (front ++ behind).find? fun block => block.start < offset && offset < block.stop := by
  have hnone := find_eq_none fun block hblock => .inl (hbehind block hblock)
  rw [List.find?_append, hnone, Option.or_none]
  rcases front.eq_nil_or_concat' with rfl | ⟨others, last, rfl⟩
  · rfl
  · have hothers : ∀ block ∈ others, block.stop ≤ offset := by
      intro block hblock
      have hle := (List.pairwise_append.mp (List.pairwise_append.mp hapart).1).2.2 block hblock
        last (List.mem_singleton.mpr rfl)
      exact hle.trans (hfront last (by simp))
    have hlast : (others ++ [last] ++ behind)[others.length]? = some last := by simp
    rw [List.length_append, List.length_singleton, List.find?_append,
      find_eq_none fun block hblock => .inr (hothers block hblock), Option.none_or]
    simp only [hlast, List.find?_singleton, Option.filter_some]

/-- If its blocks are in sequence, bisection finds the block around a place. -/
theorem enclosing_eq_find {map : BlockMap} (h : InSequence map.blocks) (offset : Nat) :
    map.enclosing? offset =
      map.blocks.find? fun block => block.start < offset && offset < block.stop := by
  have hbefore : map.blocks.Pairwise fun block block' =>
      decide (block'.start ≤ offset) = true → decide (block.start ≤ offset) = true := by
    refine h.apart.imp_of_mem fun {block block'} hblock _ hle hstart => ?_
    rw [decide_eq_true_eq] at hstart ⊢
    exact ((h.nonempty block hblock).le.trans hle).trans hstart
  have hsplit := List.takeWhile_append_dropWhile
    (p := fun block : Span => decide (block.start ≤ offset)) (l := map.blocks)
  have hfront : ∀ block ∈ map.blocks.takeWhile (·.start ≤ offset), block.start ≤ offset :=
    fun block hblock => by simpa using List.mem_takeWhile_imp hblock
  have hbehind : ∀ block ∈ map.blocks.dropWhile (·.start ≤ offset), offset ≤ block.start :=
    fun block hblock => (Nat.lt_of_not_le
      (of_decide_eq_false (not_of_mem_dropWhile hbefore block hblock))).le
  have hfind := find_of_apart (hsplit.symm ▸ h.apart) hfront hbehind
  rw [hsplit] at hfind
  rw [enclosing?, bisect_eq hbefore]
  exact hfind

/-- A place is strictly inside of the block around it, and of no other one. -/
theorem enclosing_eq_some_iff {map : BlockMap} (h : InSequence map.blocks) {offset : Nat}
    {block : Span} : map.enclosing? offset = some block ↔
      block ∈ map.blocks ∧ block.start < offset ∧ offset < block.stop := by
  rw [enclosing_eq_find h]
  constructor
  · intro hfind
    have hinside := List.find?_some hfind
    rw [Bool.and_eq_true, decide_eq_true_eq, decide_eq_true_eq] at hinside
    exact ⟨List.mem_of_find?_eq_some hfind, hinside⟩
  · rintro ⟨hblock, hstart, hstop⟩
    obtain ⟨front, behind, hsplit⟩ := List.append_of_mem hblock
    have hapart := h.apart
    rw [hsplit] at hapart ⊢
    -- What stands in front of the block in the list ends before it.
    have hfront : ∀ block' ∈ front, block'.stop ≤ offset := fun block' hblock' =>
      ((List.pairwise_append.mp hapart).2.2 block' hblock' block List.mem_cons_self).trans hstart.le
    rw [List.find?_append, find_eq_none fun block' hblock' => .inr (hfront block' hblock'),
      Option.none_or, List.find?_cons_of_pos (by simpa using ⟨hstart, hstop⟩)]

/-- The blocks of a region are in sequence. -/
theorem inSequence_ofRegion (mask : List Char) (region : Span) :
    InSequence (ofRegion mask region).blocks := by
  by_cases hle : region.start ≤ region.stop
  · refine inSequence_outermostFrom (fun h => absurd rfl h) ?_
    rw [Span.slice, List.length_take]
    omega
  · rw [ofRegion, Span.slice, Nat.sub_eq_zero_of_le (Nat.le_of_not_le hle), List.take_zero]
    exact ⟨.nil, by simp [outermostFrom]⟩

theorem inSequence_ofMask (mask : List Char) : InSequence (ofMask mask).blocks :=
  inSequence_ofRegion mask ⟨0, mask.length⟩

/-- The block around a place is the one that it is strictly inside of. -/
theorem enclosing_ofRegion (mask : List Char) (region : Span) (offset : Nat) :
    (ofRegion mask region).enclosing? offset = (ofRegion mask region).blocks.find?
      fun block => block.start < offset && offset < block.stop :=
  enclosing_eq_find (inSequence_ofRegion mask region) offset

theorem enclosing_ofMask (mask : List Char) (offset : Nat) :
    (ofMask mask).enclosing? offset = (ofMask mask).blocks.find?
      fun block => block.start < offset && offset < block.stop :=
  enclosing_ofRegion mask ⟨0, mask.length⟩ offset

/-! ## The top level -/

theorem blocks_ofMask (text : List Char) :
    (ofMask text).blocks = outermostFrom text.length 0 0 0 text := by
  show outermostFrom text.length 0 0 0 ((text.drop 0).take (text.length - 0)) = _
  rw [List.drop_zero, Nat.sub_zero, List.take_length]

/-- The blocks that end before some place do not enclose it. -/
theorem find_closedFrom_append (front : List Char) (more : List Span) :
    (closedFrom 0 0 0 front ++ more).find?
        (fun block => block.start < front.length && front.length < block.stop) =
      more.find? fun block => block.start < front.length && front.length < block.stop := by
  rw [List.find?_append, List.find?_eq_none.mpr, Option.none_or]
  intro block hblock
  have hstop := stop_le_of_mem_closedFrom hblock
  rw [Nat.zero_add] at hstop
  simp only [Bool.and_eq_true, decide_eq_true_eq]
  omega

/-- A place where no block is open is at the top level. -/
theorem isTopLevel_of_blockDepth {front : List Char} (hdepth : blockDepth 0 front = 0)
    (rest : List Char) : (ofMask (front ++ rest)).isTopLevel front.length = true := by
  rw [isTopLevel, enclosing_ofMask, blocks_ofMask, outermostFrom_append, Nat.zero_add,
    find_closedFrom_append, List.find?_eq_none.mpr]
  · rfl
  · intro block hblock
    simp only [Bool.and_eq_true, decide_eq_true_eq]
    rcases le_start_of_mem_outermostFrom hblock with ⟨hopen, -⟩ | hstart
    · exact absurd hdepth hopen
    · omega

/-- A place is at the top level exactly if no block is open there. -/
theorem isTopLevel_iff (front : List Char) {rest : List Char} (hrest : rest ≠ []) :
    (ofMask (front ++ rest)).isTopLevel front.length = true ↔ blockDepth 0 front = 0 := by
  constructor
  · rw [isTopLevel, enclosing_ofMask, blocks_ofMask, outermostFrom_append, Nat.zero_add,
      find_closedFrom_append]
    intro hnone
    by_contra hdepth
    -- The block that is open here began before this place and ends behind it.
    obtain ⟨stop', more, heq, hlt⟩ := exists_outermostFrom (openedBehind 0 0 0 front) hdepth
      (show front.length + rest.length ≤ (front ++ rest).length by simp) hrest
    have hopened : openedBehind 0 0 0 front < 0 + front.length :=
      openedBehind_lt (fun h => absurd rfl h) hdepth
    rw [Nat.zero_add] at hopened
    rw [heq, List.find?_cons_of_pos (by simpa using ⟨hopened, hlt⟩)] at hnone
    contradiction
  · exact fun hdepth => isTopLevel_of_blockDepth hdepth rest

end BlockMap

/-! ## The number of open brackets -/

/-- The number of open brackets behind a character; none if it closes a bracket that is not
open.  A bracket that opens and closes alike only opens. -/
def depthAfter? (opening closing : Char) (depth : Nat) (c : Char) : Option Nat :=
  if c = opening then some (depth + 1)
  else if c = closing then
    match depth with
    | 0 => none
    | depth + 1 => some depth
  else some depth

section

variable {opening closing c : Char} {depth depth' : Nat}

@[simp] theorem depthAfter_opening : depthAfter? opening closing depth opening = some (depth + 1) :=
  if_pos rfl

@[simp] theorem depthAfter_closing_zero (hne : closing ≠ opening) :
    depthAfter? opening closing 0 closing = none := by
  rw [depthAfter?, if_neg hne, if_pos rfl]

@[simp] theorem depthAfter_closing_succ (hne : closing ≠ opening) :
    depthAfter? opening closing (depth + 1) closing = some depth := by
  rw [depthAfter?, if_neg hne, if_pos rfl]

@[simp] theorem depthAfter_other (hopen : c ≠ opening) (hclose : c ≠ closing) :
    depthAfter? opening closing depth c = some depth := by
  simp [depthAfter?, hopen, hclose]

theorem depthAfter_eq_none_iff :
    depthAfter? opening closing depth c = none ↔ c ≠ opening ∧ c = closing ∧ depth = 0 := by
  by_cases hopen : c = opening
  · simp [hopen]
  · by_cases hclose : c = closing
    · subst hclose
      cases depth with
      | zero => simp [hopen]
      | succ depth => simp [hopen]
    · simp [hopen, hclose]

/-- The brackets that are open before a character and behind it, by counting. -/
theorem depthAfter_eq_some_iff (hne : opening ≠ closing) :
    depthAfter? opening closing depth c = some depth' ↔
      depth + [c].count opening = depth' + [c].count closing := by
  by_cases hopen : c = opening
  · subst hopen
    simp [hne]
  · by_cases hclose : c = closing
    · subst hclose
      cases depth with
      | zero => simp [hopen]
      | succ depth => simp [hopen]
    · simp [hopen, hclose]

theorem blockDepth_of_depthAfter (h : depthAfter? '{' '}' depth c = some depth') :
    blockDepth depth [c] = depth' := by
  by_cases hopen : c = '{'
  · simpa [hopen] using h
  · by_cases hclose : c = '}'
    · subst hclose
      cases depth with
      | zero => simp at h
      | succ depth => simpa using h
    · simpa [hopen, hclose] using h

/-- Where fewer brackets are open, fewer are open behind a character. -/
theorem depthAfter_lt {more more' : Nat} (hmore : depth < more)
    (h : depthAfter? opening closing more c = some more') :
    ∀ depth', depthAfter? opening closing depth c = some depth' → depth' < more' := by
  intro depth' hdepth'
  by_cases hopen : c = opening
  · simp only [hopen, depthAfter_opening, Option.some.injEq] at h hdepth'
    omega
  · by_cases hclose : c = closing
    · subst hclose
      cases depth with
      | zero => simp [hopen] at hdepth'
      | succ depth =>
          obtain ⟨more, rfl⟩ := Nat.exists_eq_add_of_lt (Nat.zero_lt_of_lt hmore)
          simp only [Nat.zero_add, depthAfter_closing_succ hopen, Option.some.injEq] at h hdepth'
          omega
    · simp only [depthAfter_other hopen hclose, Option.some.injEq] at h hdepth'
      omega

end

/-! ## Blocks that are found from their braces -/

/-- The search ends behind a bracket that closes one more than it has found open. -/
@[simp] theorem closingFrom_cons (opening closing : Char) (depth offset : Nat) (c : Char)
    (rest : List Char) :
    Bracket.closingFrom opening closing depth offset (c :: rest) =
      (depthAfter? opening closing depth c).elim (some (offset + 1))
        (Bracket.closingFrom opening closing · (offset + 1) rest) := by
  by_cases hopen : c = opening
  · simp [Bracket.closingFrom, hopen]
  · by_cases hclose : c = closing
    · subst hclose
      cases depth with
      | zero => simp [Bracket.closingFrom, hopen]
      | succ depth => simp [Bracket.closingFrom, hopen]
    · simp [Bracket.closingFrom, hopen, hclose]

theorem closingFrom_bounds {opening closing : Char} {depth offset stop : Nat} {rest : List Char}
    (h : Bracket.closingFrom opening closing depth offset rest = some stop) :
    offset < stop ∧ stop ≤ offset + rest.length := by
  induction rest generalizing depth offset with
  | nil => contradiction
  | cons c rest ih =>
      rw [closingFrom_cons] at h
      rw [List.length_cons]
      cases hnext : depthAfter? opening closing depth c with
      | none =>
          obtain rfl : offset + 1 = stop := by simpa [hnext] using h
          constructor <;> omega
      | some depth' =>
          obtain ⟨hlt, hle⟩ := ih (by simpa [hnext] using h)
          constructor <;> omega

/-- A block that is closed ends in a block map where its closing brace is found. -/
theorem outermostFrom_of_closing {stop opened depth offset stop' : Nat} {rest : List Char}
    (h : Bracket.closingFrom '{' '}' depth offset rest = some stop') :
    outermostFrom stop opened (depth + 1) offset rest =
      ⟨opened, stop'⟩ :: outermostFrom stop opened 0 stop' (rest.drop (stop' - offset)) := by
  -- Both count the open braces, the block map one more than the search for the end.
  induction rest generalizing depth offset with
  | nil => contradiction
  | cons c rest ih =>
      have hdrop : ∀ depth, Bracket.closingFrom '{' '}' depth (offset + 1) rest = some stop' →
          (c :: rest).drop (stop' - offset) = rest.drop (stop' - (offset + 1)) := by
        intro depth h
        have hlt := (closingFrom_bounds h).1
        rw [show stop' - offset = stop' - (offset + 1) + 1 by omega, List.drop_succ_cons]
      by_cases hopen : c = '{'
      · subst hopen
        have hrest : Bracket.closingFrom '{' '}' (depth + 1) (offset + 1) rest = some stop' := by
          simpa using h
        simp [outermostFrom, ih hrest, hdrop _ hrest]
      · by_cases hclose : c = '}'
        · subst hclose
          cases depth with
          | zero =>
              obtain rfl : offset + 1 = stop' := by simpa using h
              simp [outermostFrom]
          | succ depth =>
              have hrest : Bracket.closingFrom '{' '}' depth (offset + 1) rest = some stop' := by
                simpa using h
              simp [outermostFrom, ih hrest, hdrop _ hrest]
        · have hrest : Bracket.closingFrom '{' '}' depth (offset + 1) rest = some stop' := by
            simpa [hopen, hclose] using h
          simp [outermostFrom, hopen, hclose, ih hrest, hdrop _ hrest]

namespace BlockMap

theorem exists_blocks_of_closing {front rest : List Char} {stop : Nat}
    (hdepth : blockDepth 0 front = 0) (h : Bracket.blockEndFrom (front.length + 1) rest = some stop) :
    ∃ more, (ofMask (front ++ '{' :: rest)).blocks =
      closedFrom 0 0 0 front ++ ⟨front.length, stop⟩ :: more := by
  rw [blocks_ofMask, outermostFrom_append, hdepth, Nat.zero_add, outermostFrom, if_pos rfl,
    if_pos rfl, outermostFrom_of_closing h]
  exact ⟨_, rfl⟩

/-- A block that begins where none is open, and that is closed, is listed. -/
theorem mem_blocks_of_closing {front rest : List Char} {stop : Nat}
    (hdepth : blockDepth 0 front = 0) (h : Bracket.blockEndFrom (front.length + 1) rest = some stop) :
    ⟨front.length, stop⟩ ∈ (ofMask (front ++ '{' :: rest)).blocks := by
  obtain ⟨more, hblocks⟩ := exists_blocks_of_closing hdepth h
  rw [hblocks]
  exact List.mem_append_right _ List.mem_cons_self

/-- Such a block encloses everything strictly inside of it. -/
theorem enclosing_of_closing {front rest : List Char} {stop offset : Nat}
    (hdepth : blockDepth 0 front = 0) (h : Bracket.blockEndFrom (front.length + 1) rest = some stop)
    (hstart : front.length < offset) (hstop : offset < stop) :
    (ofMask (front ++ '{' :: rest)).enclosing? offset = some ⟨front.length, stop⟩ := by
  obtain ⟨more, hblocks⟩ := exists_blocks_of_closing hdepth h
  rw [enclosing_ofMask, hblocks, List.find?_append, List.find?_eq_none.mpr, Option.none_or,
    List.find?_cons_of_pos (by simpa using ⟨hstart, hstop⟩)]
  intro block hblock
  have hle := stop_le_of_mem_closedFrom hblock
  simp only [Bool.and_eq_true, decide_eq_true_eq]
  omega

end BlockMap

/-- A block in the rest of a text begins where none is open, if the open one does. -/
theorem blockDepth_of_mem_outermostFrom {stop opened : Nat} {front rest : List Char} {block : Span}
    (hopened : blockDepth 0 front ≠ 0 → blockDepth 0 ((front ++ rest).take opened) = 0)
    (h : block ∈ outermostFrom stop opened (blockDepth 0 front) front.length rest) :
    blockDepth 0 ((front ++ rest).take block.start) = 0 := by
  -- The next character moves to the front, behind which the depth is known.
  induction rest generalizing front opened with
  | nil =>
      rw [outermostFrom] at h
      split_ifs at h with hdepth
      · contradiction
      · rw [List.mem_singleton.mp h]
        exact hopened hdepth
  | cons c rest ih =>
      have hsplit : front ++ c :: rest = front ++ [c] ++ rest := by simp
      rw [outermostFrom_cons] at h
      rw [hsplit] at hopened ⊢
      rcases List.mem_append.mp h with h | h
      · obtain ⟨-, hone, rfl⟩ := mem_closedFrom_singleton.mp h
        exact hopened (by omega)
      · have hlength : front.length + 1 = (front ++ [c]).length := by simp
        rw [← blockDepth_append, hlength] at h
        refine ih (fun hdepth => ?_) h
        rw [blockDepth_append] at hdepth
        rcases openedBehind_singleton opened front.length hdepth with ⟨hopen, heq⟩ | ⟨hzero, heq⟩
        · rw [heq]
          exact hopened hopen
        · rwa [heq, List.append_assoc, List.take_left]

/-- A listed block begins where none is open. -/
theorem BlockMap.blockDepth_of_mem_blocks {text : List Char} {block : Span}
    (h : block ∈ (ofMask text).blocks) : blockDepth 0 (text.take block.start) = 0 := by
  rw [blocks_ofMask] at h
  have hstart : block ∈ outermostFrom text.length 0 (blockDepth 0 []) ([] : List Char).length text := h
  exact blockDepth_of_mem_outermostFrom (fun hne => absurd rfl hne) hstart

end SourceChunks
