import Mathlib
import SourceChunks.Proofs.Source.Balance

/-!
# Matching brackets and what is between them

The search for the bracket that closes an open one ends at the first place where as many are
closed as were opened, so what it passes over is balanced.  In a region whose inside never
closes more blocks than it opens, a place is outside all blocks exactly if the text before it
is balanced.

* `balanced_iff_level`: counting brackets and keeping their number say the same.
* `exists_of_closingFrom`, `closingFrom_of_level`: what stands between a bracket and the one that
  closes it.
* `Sheltered`, `Sheltered.blockStartFrom_append`: the brace behind an expression that has braces and
  semicolons in parentheses and square brackets only.
* `Encloses`: a brace, a balanced inside, and the brace that closes it.
* `isTopLevel_ofRegion_iff`: the top level of a region, by the number of open blocks.
* `balanced_of_blockDepth`: what is before a place at the top level of a balanced inside.
-/

namespace SourceChunks

section

variable {opening closing : Char}

/-! ## Levels and counts -/

/-- Where the number of open brackets is kept without ever going below zero, no beginning of
the text closes more than there are. -/
theorem counts_of_level (hne : opening ≠ closing) {depth depth' : Nat} {text : List Char}
    (h : level opening closing depth text = some depth') :
    (∀ front, front <+: text → front.count closing ≤ depth + front.count opening) ∧
      depth + text.count opening = depth' + text.count closing := by
  induction text generalizing depth with
  | nil =>
      obtain rfl : depth = depth' := by simpa using h
      constructor
      · intro front hfront
        simp [List.prefix_nil.mp hfront]
      · simp
  | cons c text ih =>
      rw [level_cons] at h
      obtain ⟨next, hnext, hrest⟩ := Option.bind_eq_some_iff.mp h
      rw [depthAfter_eq_some_iff hne] at hnext
      obtain ⟨hfronts, hcount⟩ := ih hrest
      have hcons : ∀ (x : Char) (front : List Char),
          (c :: front).count x = [c].count x + front.count x := by
        intro x front
        rw [← List.singleton_append, List.count_append]
      refine ⟨fun front hfront => ?_, ?_⟩
      · -- A beginning is empty, or the next character and a beginning of what is behind it.
        rcases List.prefix_cons_iff.mp hfront with rfl | ⟨front', rfl, hfront'⟩
        · simp
        · have hle := hfronts front' hfront'
          rw [hcons closing, hcons opening]
          omega
      · rw [hcons closing, hcons opening]
        omega

/-- A text is balanced exactly if the brackets in it come out even. -/
theorem balanced_iff_level (hne : opening ≠ closing) {text : List Char} :
    Balanced opening closing text ↔ level opening closing 0 text = some 0 := by
  constructor
  · exact fun h => h.level_eq hne 0
  · intro h
    obtain ⟨hfronts, hcount⟩ := counts_of_level hne h
    simp only [Nat.zero_add] at hfronts hcount
    exact ⟨hfronts, hcount⟩

/-- What stands between an open bracket and the one that closes it. -/
theorem exists_of_closingFrom {depth offset stop : Nat} {rest : List Char}
    (h : Bracket.closingFrom opening closing depth offset rest = some stop) :
    ∃ inside behind, rest = inside ++ closing :: behind ∧ stop = offset + inside.length + 1 ∧
      level opening closing depth inside = some 0 := by
  -- What is passed over changes the number of open brackets as the search counts them.
  induction rest generalizing depth offset with
  | nil => contradiction
  | cons c rest ih =>
      rw [closingFrom_cons] at h
      cases hnext : depthAfter? opening closing depth c with
      | none =>
          obtain rfl : offset + 1 = stop := by simpa [hnext] using h
          obtain ⟨-, rfl, rfl⟩ := depthAfter_eq_none_iff.mp hnext
          exact ⟨[], rest, rfl, rfl, rfl⟩
      | some depth' =>
          obtain ⟨inside, behind, rfl, rfl, hinside⟩ := ih (by simpa [hnext] using h)
          refine ⟨c :: inside, behind, rfl, ?_, by simpa [hnext] using hinside⟩
          rw [List.length_cons]
          omega

/-- Behind an inside in which all brackets come out even, the closing bracket is the one that
closes the open one. -/
theorem closingFrom_of_level (hne : opening ≠ closing) {depth : Nat} (offset : Nat)
    {inside : List Char} (h : level opening closing depth inside = some 0) (behind : List Char) :
    Bracket.closingFrom opening closing depth offset (inside ++ closing :: behind) =
      some (offset + inside.length + 1) := by
  induction inside generalizing depth offset with
  | nil =>
      obtain rfl : depth = 0 := by simpa using h
      simp [hne.symm]
  | cons c inside ih =>
      have hlength : offset + (c :: inside).length + 1 = offset + 1 + inside.length + 1 := by
        rw [List.length_cons]
        omega
      rw [level_cons] at h
      obtain ⟨next, hnext, hrest⟩ := Option.bind_eq_some_iff.mp h
      rw [List.cons_append, closingFrom_cons, hnext, Option.elim_some, hlength]
      exact ih _ hrest

end

/-! ## The brace behind an expression -/

/-- The number of parentheses and square brackets that a text opens. -/
def openings (text : List Char) : Nat :=
  text.countP fun c => c = '(' || c = '['

/-- The number of parentheses and square brackets that a text closes. -/
def closings (text : List Char) : Nat :=
  text.countP fun c => c = ')' || c = ']'

/-- Behind some open parentheses and square brackets, a text closes no more than are open, and in
the end all of them; and it has braces and semicolons only where some are open. -/
structure Sheltered (depth : Nat) (text : List Char) : Prop where
  closings_le : ∀ front, front <+: text → closings front ≤ depth + openings front
  even : depth + openings text = closings text
  inside : ∀ front, front <+: text → (front.getLast? = some '{' ∨ front.getLast? = some ';') →
    closings front < depth + openings front

instance (depth : Nat) (text : List Char) : Decidable (Sheltered depth text) :=
  decidable_of_iff
    ((∀ front ∈ text.inits, closings front ≤ depth + openings front) ∧
      depth + openings text = closings text ∧
      ∀ front ∈ text.inits, (front.getLast? = some '{' ∨ front.getLast? = some ';') →
        closings front < depth + openings front)
    (by
      simp only [List.mem_inits]
      exact ⟨fun ⟨hle, heven, hinside⟩ => ⟨hle, heven, hinside⟩,
        fun h => ⟨h.closings_le, h.even, h.inside⟩⟩)

theorem openings_cons (c : Char) (text : List Char) :
    openings (c :: text) = openings [c] + openings text := by
  simp only [openings, List.countP_cons, List.countP_nil]
  omega

theorem closings_cons (c : Char) (text : List Char) :
    closings (c :: text) = closings [c] + closings text := by
  simp only [closings, List.countP_cons, List.countP_nil]
  omega

namespace Sheltered

variable {depth : Nat} {c : Char} {text : List Char}

/-- The rest of such a text is one behind as many as are open there. -/
theorem tail (h : Sheltered depth (c :: text)) {depth' : Nat}
    (hdepth : depth' + closings [c] = depth + openings [c]) : Sheltered depth' text := by
  have hlonger : ∀ {front}, front <+: text → c :: front <+: c :: text :=
    fun hfront => List.cons_prefix_cons.mpr ⟨rfl, hfront⟩
  refine ⟨fun front hfront => ?_, ?_, fun front hfront hlast => ?_⟩
  · have hle := h.closings_le _ (hlonger hfront)
    rw [openings_cons, closings_cons] at hle
    omega
  · have heven := h.even
    rw [openings_cons, closings_cons] at heven
    omega
  · have hlast' : (c :: front).getLast? = front.getLast? := by
      cases front with
      | nil => simp at hlast
      | cons x front => rw [List.getLast?_cons_cons]
    have hlt := h.inside _ (hlonger hfront) (by rwa [hlast'])
    rw [openings_cons, closings_cons] at hlt
    omega

theorem closings_head_le (h : Sheltered depth (c :: text)) :
    closings [c] ≤ depth + openings [c] :=
  h.closings_le [c] (List.cons_prefix_cons.mpr ⟨rfl, List.nil_prefix⟩)

/-- No brace and no semicolon stands outside all parentheses and square brackets. -/
theorem pos_of_stop (h : Sheltered depth (c :: text)) (hc : c = '{' ∨ c = ';') : 0 < depth := by
  have hlt := h.inside [c] (List.cons_prefix_cons.mpr ⟨rfl, List.nil_prefix⟩)
    (hc.imp (congrArg some) (congrArg some))
  have hopenings : openings [c] = 0 := by rcases hc with rfl | rfl <;> decide
  omega

/-- The brace behind such a text is the first one outside parentheses and square brackets. -/
theorem blockStartFrom_append (h : Sheltered depth text) (offset : Nat) (rest : List Char) :
    Bracket.blockStartFrom depth offset (text ++ '{' :: rest) = some (offset + text.length) := by
  induction text generalizing depth offset with
  | nil =>
      obtain rfl : depth = 0 := h.even
      rfl
  | cons c text ih =>
      have hlength : offset + (c :: text).length = offset + 1 + text.length := by
        rw [List.length_cons]
        omega
      rw [List.cons_append, Bracket.blockStartFrom, hlength]
      split_ifs with hopen hclose hbrace hsemicolon
      · have hcounts : openings [c] = 1 ∧ closings [c] = 0 := by
          simp only [Bool.or_eq_true, decide_eq_true_eq] at hopen
          rcases hopen with rfl | rfl <;> decide
        exact ih (h.tail (by omega)) _
      · have hcounts : openings [c] = 0 ∧ closings [c] = 1 := by
          simp only [Bool.or_eq_true, decide_eq_true_eq] at hclose
          rcases hclose with rfl | rfl <;> decide
        have hle := h.closings_head_le
        exact ih (h.tail (by omega)) _
      · -- A brace in the text stands where something is open.
        simp only [Bool.and_eq_true, decide_eq_true_eq] at hbrace
        have hpos := h.pos_of_stop (.inl hbrace.2)
        omega
      · simp only [Bool.and_eq_true, decide_eq_true_eq] at hsemicolon
        have hpos := h.pos_of_stop (.inr hsemicolon.2)
        omega
      · have hcounts : openings [c] = 0 ∧ closings [c] = 0 := by
          simp only [Bool.or_eq_true, decide_eq_true_eq] at hopen hclose
          simp [openings, closings, hopen, hclose]
        exact ih (h.tail (by omega)) _

end Sheltered

/-! ## Bodies -/

/-- The brace at one place of a mask is closed by the brace in front of another place, and
what stands between the two is balanced. -/
def Encloses (mask : List Char) (opening stop : Nat) : Prop :=
  ∃ front inside behind, mask = front ++ '{' :: (inside ++ '}' :: behind) ∧
    front.length = opening ∧ opening + inside.length + 2 = stop ∧ Balanced '{' '}' inside

theorem encloses_of_blockEnd {mask front rest : List Char} {stop : Nat}
    (hmask : mask = front ++ '{' :: rest)
    (h : Bracket.blockEndFrom (front.length + 1) rest = some stop) :
    Encloses mask front.length stop := by
  obtain ⟨inside, behind, rfl, rfl, hinside⟩ := exists_of_closingFrom h
  exact ⟨front, inside, behind, hmask, rfl, by omega, (balanced_iff_level (by decide)).mpr hinside⟩

theorem Encloses.bounds {mask : List Char} {opening stop : Nat} (h : Encloses mask opening stop) :
    opening + 1 < stop ∧ stop ≤ mask.length := by
  obtain ⟨front, inside, behind, rfl, rfl, rfl, -⟩ := h
  simp only [List.length_append, List.length_cons]
  constructor <;> omega

theorem Encloses.braces {mask : List Char} {opening stop : Nat} (h : Encloses mask opening stop) :
    mask[opening]? = some '{' ∧ mask[stop - 1]? = some '}' := by
  obtain ⟨front, inside, behind, rfl, rfl, rfl, -⟩ := h
  have hlast : front.length + inside.length + 2 - 1 = front.length + (inside.length + 1) := by omega
  rw [hlast]
  constructor
  · simp
  · simp

/-! ## The top level of a region -/

/-- A place in a region is at its top level exactly if no block is open there. -/
theorem isTopLevel_ofRegion_iff (front passed rest behind : List Char) (hrest : rest ≠ []) :
    (BlockMap.ofRegion (front ++ (passed ++ rest ++ behind))
        ⟨front.length, front.length + (passed ++ rest).length⟩).isTopLevel
          (front.length + passed.length) = true ↔ blockDepth 0 passed = 0 := by
  -- The blocks of a region are those of a text that holds nothing else, further on.
  have hregion : (⟨front.length, front.length + (passed ++ rest).length⟩ : Span) =
      Span.shift ⟨0, (passed ++ rest).length⟩ front.length := by
    simp [Span.shift, Nat.add_comm]
  have hslice : BlockMap.ofRegion (passed ++ rest ++ behind) ⟨0, (passed ++ rest).length⟩ =
      BlockMap.ofMask (passed ++ rest) := by
    have htake : (passed ++ rest ++ behind).take (passed ++ rest).length = passed ++ rest :=
      List.take_left
    simp only [BlockMap.ofRegion, BlockMap.ofMask, Span.slice, List.drop_zero, Nat.sub_zero, htake,
      List.take_length]
  rw [hregion, Nat.add_comm front.length passed.length, BlockMap.isTopLevel_ofRegion_shift, hslice]
  exact BlockMap.isTopLevel_iff passed hrest

/-- Before a place at the top level of a balanced inside, the text is balanced. -/
theorem balanced_of_blockDepth {inside passed : List Char} (hinside : Balanced '{' '}' inside)
    (hpassed : passed <+: inside) (hdepth : blockDepth 0 passed = 0) : Balanced '{' '}' passed := by
  have hfronts : ∀ front, front <+: passed → front.count '}' ≤ 0 + front.count '{' := by
    intro front hfront
    rw [Nat.zero_add]
    exact hinside.1 front (hfront.trans hpassed)
  -- No brace is closed that is not open, so the depth is the number of open braces.
  have hlevel := level_eq_of_counts (by decide) hfronts
  rw [← blockDepth_of_level hlevel, hdepth] at hlevel
  exact (balanced_iff_level (by decide)).mpr hlevel

end SourceChunks
