import Mathlib
import SourceChunks.Pattern.Search

/-!
# What a pattern passes over

Every end of a pattern lies ahead of the place where the pattern begins, and what the
pattern marks on the way lies between the two.

* `Cursor.Leads`: one place leads to another over some characters.
* `Pattern.Reads`: the classes of a pattern hold only characters of some sort, which
  `Pattern.avoids` can tell.
* `mem_ends_one`: the only end of a class, if the next character is of the class.
* `passes_of_mem_ends`: a pattern passes over characters of its classes to its ends.
* `Pattern.Marks`: a pattern marks a part with a label, whatever it passes over.
* `found_of_mem_allMatches`, `found_of_mem_matchesIn`: a match that a search finds is an end
  of its pattern.
-/

namespace SourceChunks

variable {L : Type}

namespace Cursor

/-- One place leads to another over some characters: they stand between the two, and so
do the parts that were marked on the way. -/
structure Leads (passed : List Char) (c d : Cursor L) : Prop where
  rest_eq : c.rest = passed ++ d.rest
  offset_eq : d.offset = c.offset + passed.length
  before_eq : d.before = passed.getLast?.or c.before
  marks_eq : ∃ more, d.marks = more ++ c.marks ∧
    ∀ mark ∈ more, c.offset ≤ mark.2.start ∧ mark.2.start ≤ mark.2.stop ∧ mark.2.stop ≤ d.offset

theorem Leads.refl (c : Cursor L) : Leads [] c c where
  rest_eq := rfl
  offset_eq := rfl
  before_eq := rfl
  marks_eq := ⟨[], rfl, by simp⟩

theorem Leads.trans {passed more : List Char} {c d e : Cursor L} (h : Leads passed c d)
    (h' : Leads more d e) : Leads (passed ++ more) c e where
  rest_eq := by rw [h.rest_eq, h'.rest_eq, List.append_assoc]
  offset_eq := by rw [h'.offset_eq, h.offset_eq, List.length_append, Nat.add_assoc]
  before_eq := by
    rw [h'.before_eq, h.before_eq, List.getLast?_append, Option.or_assoc]
  marks_eq := by
    obtain ⟨first, hfirst, hfirst'⟩ := h.marks_eq
    obtain ⟨second, hsecond, hsecond'⟩ := h'.marks_eq
    refine ⟨second ++ first, by rw [hsecond, hfirst, List.append_assoc], fun mark hmark => ?_⟩
    have hoffset := h.offset_eq
    have hoffset' := h'.offset_eq
    rcases List.mem_append.mp hmark with hmem | hmem
    · obtain ⟨hstart, hle, hstop⟩ := hsecond' mark hmem
      exact ⟨by omega, hle, hstop⟩
    · obtain ⟨hstart, hle, hstop⟩ := hfirst' mark hmem
      exact ⟨hstart, hle, by omega⟩

theorem Leads.withMark {passed : List Char} {c d : Cursor L} (h : Leads passed c d) (label : L) :
    Leads passed c (d.withMark label c.offset) where
  rest_eq := h.rest_eq
  offset_eq := h.offset_eq
  before_eq := h.before_eq
  marks_eq := by
    obtain ⟨more, hmore, hmore'⟩ := h.marks_eq
    have hoffset := h.offset_eq
    refine ⟨(label, ⟨c.offset, d.offset⟩) :: more, by rw [Cursor.withMark, hmore]; rfl, ?_⟩
    intro mark hmark
    rcases List.mem_cons.mp hmark with rfl | hmem
    · exact ⟨le_refl _, by show c.offset ≤ d.offset; omega, le_refl _⟩
    · exact hmore' mark hmem

/-- The place behind the next character. -/
def advance (c : Cursor L) (x : Char) (rest : List Char) : Cursor L :=
  ⟨some x, rest, c.offset + 1, c.marks⟩

theorem leads_advance {c : Cursor L} {x : Char} {rest : List Char} (h : c.rest = x :: rest) :
    Leads [x] c (c.advance x rest) where
  rest_eq := h
  offset_eq := rfl
  before_eq := rfl
  marks_eq := ⟨[], rfl, by simp⟩

/-- One place leads to another over characters of some sort. -/
def Passes (sort : Char → Prop) (c d : Cursor L) : Prop :=
  ∃ passed, Leads passed c d ∧ ∀ x ∈ passed, sort x

theorem Passes.refl {sort : Char → Prop} (c : Cursor L) : Passes sort c c :=
  ⟨[], .refl c, by simp⟩

theorem Passes.trans {sort : Char → Prop} {c d e : Cursor L} (h : Passes sort c d)
    (h' : Passes sort d e) : Passes sort c e := by
  obtain ⟨passed, hlead, hsort⟩ := h
  obtain ⟨more, hlead', hsort'⟩ := h'
  refine ⟨passed ++ more, hlead.trans hlead', fun x hx => ?_⟩
  rcases List.mem_append.mp hx with hx | hx
  · exact hsort x hx
  · exact hsort' x hx

theorem passes_advance {sort : Char → Prop} {c : Cursor L} {x : Char} {rest : List Char}
    (h : c.rest = x :: rest) (hx : sort x) : Passes sort c (c.advance x rest) :=
  ⟨[x], leads_advance h, by simpa using hx⟩

theorem runEnds_nearer (accepts : Char → Bool) (marks : List (L × Span)) (nearer : List (Cursor L))
    (before : Option Char) (offset : Nat) (rest : List Char) :
    runEnds accepts marks nearer before offset rest =
      runEnds accepts marks [] before offset rest ++ nearer := by
  induction rest generalizing nearer before offset with
  | nil => rfl
  | cons x rest ih =>
      rw [runEnds, runEnds]
      split_ifs
      · rw [ih, ih [_], List.append_assoc, List.singleton_append]
      · rfl

end Cursor

namespace Pattern

/-! ## Ends, one class at a time -/

@[simp] theorem ends_seq (p q : Pattern L) (c : Cursor L) :
    ends (p ++ q) c = (ends p c).flatMap (ends q) :=
  rfl

theorem ends_one_cons (accepts : Char → Bool) {c : Cursor L} {x : Char} {rest : List Char}
    (h : c.rest = x :: rest) :
    ends (one accepts) c = if accepts x then [c.advance x rest] else [] := by
  rw [ends, h]
  rfl

@[simp] theorem ends_run_nil (accepts : Char → Bool) {c : Cursor L} (h : c.rest = []) :
    ends (run accepts) c = [c] := by
  obtain ⟨before, rest, offset, marks⟩ := c
  obtain rfl : rest = [] := h
  rfl

theorem ends_run_cons (accepts : Char → Bool) {c : Cursor L} {x : Char} {rest : List Char}
    (h : c.rest = x :: rest) :
    ends (run accepts) c =
      if accepts x then ends (run accepts) (c.advance x rest) ++ [c] else [c] := by
  obtain ⟨before, more, offset, marks⟩ := c
  obtain rfl : more = x :: rest := h
  rw [ends, Cursor.runEnds]
  split_ifs
  · rw [Cursor.runEnds_nearer]
    rfl
  · rfl

/-! ## What is passed over -/

/-- Every character that a pattern may pass over is of some sort. -/
def Reads (sort : Char → Prop) : Pattern L → Prop
  | empty => True
  | one accepts => ∀ x, accepts x = true → sort x
  | run accepts => ∀ x, accepts x = true → sort x
  | seq p q => Reads sort p ∧ Reads sort q
  | either p q => Reads sort p ∧ Reads sort q
  | many p => Reads sort p
  | mark _ p => Reads sort p
  | edge => True
  | lineStart => True
  | ahead _ => True
  | notAhead _ => True

theorem reads_literal {sort : Char → Prop} {text : List Char} (h : ∀ x ∈ text, sort x) :
    (literal (L := L) text).Reads sort := by
  induction text with
  | nil => trivial
  | cons c text ih =>
      refine ⟨fun x hx => ?_, ih fun x hx => h x (List.mem_cons_of_mem c hx)⟩
      rw [beq_iff_eq.mp hx]
      exact h c List.mem_cons_self

/-- Whatever holds between a place and the ends of a round holds of several rounds. -/
theorem of_mem_roundEnds {R : Cursor L → Cursor L → Prop} (hrefl : ∀ c, R c c)
    (htrans : ∀ {c d e}, R c d → R d e → R c e) {step : Cursor L → List (Cursor L)}
    (hstep : ∀ c, ∀ d ∈ step c, R c d) {fuel : Nat} {c d : Cursor L}
    (hd : d ∈ roundEnds step fuel c) : R c d := by
  -- A round leads to some place, and the other rounds lead on from there.
  induction fuel generalizing c with
  | zero =>
      rw [List.mem_singleton.mp hd]
      exact hrefl c
  | succ fuel ih =>
      rcases List.mem_append.mp hd with hmore | hstay
      · obtain ⟨e, he, hd⟩ := List.mem_flatMap.mp hmore
        exact htrans (hstep c e he) (ih hd)
      · rw [List.mem_singleton.mp hstay]
        exact hrefl c

theorem passes_of_mem_run {sort : Char → Prop} {accepts : Char → Bool}
    (h : ∀ x, accepts x = true → sort x) {rest : List Char} {c d : Cursor L} (hrest : c.rest = rest)
    (hd : d ∈ ends (run accepts) c) : Cursor.Passes sort c d := by
  induction rest generalizing c with
  | nil =>
      rw [ends_run_nil accepts hrest] at hd
      rw [List.mem_singleton.mp hd]
      exact .refl c
  | cons x rest ih =>
      rw [ends_run_cons accepts hrest] at hd
      split_ifs at hd with hx
      · rcases List.mem_append.mp hd with hd | hd
        · exact (Cursor.passes_advance hrest (h x hx)).trans (ih rfl hd)
        · rw [List.mem_singleton.mp hd]
          exact .refl c
      · rw [List.mem_singleton.mp hd]
        exact .refl c

theorem eq_of_mem_ite {P : Prop} [Decidable P] {c d : Cursor L}
    (hd : d ∈ if P then [c] else []) : P ∧ d = c := by
  split_ifs at hd with h
  · exact ⟨h, List.mem_singleton.mp hd⟩
  · contradiction

/-- A class takes the next character, if it is of the class. -/
theorem mem_ends_one {accepts : Char → Bool} {c d : Cursor L} :
    d ∈ ends (one accepts) c ↔
      ∃ x rest, c.rest = x :: rest ∧ accepts x = true ∧ d = c.advance x rest := by
  cases hrest : c.rest with
  | nil => simp [ends, hrest]
  | cons x rest =>
      by_cases hx : accepts x = true
      · simp [ends_one_cons accepts hrest, hx]
      · simp [ends_one_cons accepts hrest, hx]

/-- A pattern passes over characters of its classes to each of its ends. -/
theorem passes_of_mem_ends {sort : Char → Prop} {p : Pattern L} (hp : p.Reads sort)
    {c d : Cursor L} (hd : d ∈ ends p c) : Cursor.Passes sort c d := by
  -- By the structure of the pattern: parts in a row pass over what each of them does.
  induction p generalizing c d with
  | empty => rw [List.mem_singleton.mp hd]; exact .refl c
  | one accepts =>
      obtain ⟨x, rest, hrest, hx, rfl⟩ := mem_ends_one.mp hd
      exact Cursor.passes_advance hrest (hp x hx)
  | run accepts => exact passes_of_mem_run hp rfl hd
  | seq p q ihp ihq =>
      obtain ⟨e, he, hd⟩ := List.mem_flatMap.mp hd
      exact (ihp hp.1 he).trans (ihq hp.2 hd)
  | either p q ihp ihq =>
      rcases List.mem_append.mp hd with hd | hd
      · exact ihp hp.1 hd
      · exact ihq hp.2 hd
  | many p ih =>
      exact of_mem_roundEnds (R := Cursor.Passes sort) .refl .trans (fun _ _ he => ih hp he) hd
  | mark label p ih =>
      obtain ⟨e, he, rfl⟩ := List.mem_map.mp hd
      obtain ⟨passed, hlead, hsort⟩ := ih hp he
      exact ⟨passed, hlead.withMark label, hsort⟩
  | edge => rw [(eq_of_mem_ite hd).2]; exact .refl c
  | lineStart => rw [(eq_of_mem_ite hd).2]; exact .refl c
  | ahead p _ =>
      rw [ends] at hd
      split_ifs at hd
      · contradiction
      · rw [List.mem_singleton.mp hd]; exact .refl c
  | notAhead p _ => rw [(eq_of_mem_ite hd).2]; exact .refl c

/-- Whether no class of a pattern holds one of some characters. -/
def avoids (xs : List Char) : Pattern L → Bool
  | empty => true
  | one accepts => xs.all fun x => !accepts x
  | run accepts => xs.all fun x => !accepts x
  | seq p q => avoids xs p && avoids xs q
  | either p q => avoids xs p && avoids xs q
  | many p => avoids xs p
  | mark _ p => avoids xs p
  | edge => true
  | lineStart => true
  | ahead _ => true
  | notAhead _ => true

/-- What a pattern passes over can be told from what its classes do not hold. -/
theorem reads_of_avoids {sort : Char → Prop} {xs : List Char} (hsort : ∀ x, x ∉ xs → sort x)
    {p : Pattern L} (h : p.avoids xs = true) : p.Reads sort := by
  have hclass : ∀ {accepts : Char → Bool}, (xs.all fun x => !accepts x) = true →
      ∀ x, accepts x = true → sort x := by
    intro accepts hall x hx
    refine hsort x fun hmem => ?_
    have hnot := List.all_eq_true.mp hall x hmem
    rw [hx] at hnot
    contradiction
  induction p with
  | empty => trivial
  | one accepts => exact hclass h
  | run accepts => exact hclass h
  | seq p q ihp ihq =>
      obtain ⟨hp, hq⟩ := Bool.and_eq_true_iff.mp h
      exact ⟨ihp hp, ihq hq⟩
  | either p q ihp ihq =>
      obtain ⟨hp, hq⟩ := Bool.and_eq_true_iff.mp h
      exact ⟨ihp hp, ihq hq⟩
  | many p ih => exact ih h
  | mark label p ih => exact ih h
  | edge => trivial
  | lineStart => trivial
  | ahead p _ => trivial
  | notAhead p _ => trivial

/-! ## What is marked -/

/-- A pattern marks a part with a label, whatever it passes over. -/
def Marks (label : L) : Pattern L → Prop
  | empty => False
  | one _ => False
  | run _ => False
  | seq p q => Marks label p ∨ Marks label q
  | either p q => Marks label p ∧ Marks label q
  | many _ => False
  | mark other p => other = label ∨ Marks label p
  | edge => False
  | lineStart => False
  | ahead _ => False
  | notAhead _ => False

instance decidableMarks [DecidableEq L] (label : L) : (p : Pattern L) → Decidable (p.Marks label)
  | empty => isFalse id
  | one _ => isFalse id
  | run _ => isFalse id
  | seq p q => @instDecidableOr _ _ (decidableMarks label p) (decidableMarks label q)
  | either p q => @instDecidableAnd _ _ (decidableMarks label p) (decidableMarks label q)
  | many _ => isFalse id
  | mark other p => @instDecidableOr _ _ (inferInstanceAs (Decidable (other = label)))
      (decidableMarks label p)
  | edge => isFalse id
  | lineStart => isFalse id
  | ahead _ => isFalse id
  | notAhead _ => isFalse id

theorem reads_true (p : Pattern L) : p.Reads fun _ => True := by
  induction p with
  | empty => trivial
  | one accepts => exact fun x _ => trivial
  | run accepts => exact fun x _ => trivial
  | seq p q ihp ihq => exact ⟨ihp, ihq⟩
  | either p q ihp ihq => exact ⟨ihp, ihq⟩
  | many p ih => exact ih
  | mark label p ih => exact ih
  | edge => trivial
  | lineStart => trivial
  | ahead p _ => trivial
  | notAhead p _ => trivial

/-- A pattern leads to each of its ends. -/
theorem leads_of_mem_ends {p : Pattern L} {c d : Cursor L} (hd : d ∈ ends p c) :
    ∃ passed, Cursor.Leads passed c d := by
  obtain ⟨passed, hlead, -⟩ := passes_of_mem_ends p.reads_true hd
  exact ⟨passed, hlead⟩

/-- Marks are kept on the way to an end. -/
theorem mem_marks_of_mem_ends {p : Pattern L} {c d : Cursor L} (hd : d ∈ ends p c) {mark : L × Span}
    (hmark : mark ∈ c.marks) : mark ∈ d.marks := by
  obtain ⟨passed, hlead⟩ := leads_of_mem_ends hd
  obtain ⟨more, hmore, -⟩ := hlead.marks_eq
  rw [hmore]
  exact List.mem_append_right more hmark

theorem exists_mark_of_mem_ends {label : L} {p : Pattern L} (hp : p.Marks label) {c d : Cursor L}
    (hd : d ∈ ends p c) : ∃ span, (label, span) ∈ d.marks := by
  induction p generalizing c d with
  | seq p q ihp ihq =>
      obtain ⟨e, he, hd⟩ := List.mem_flatMap.mp hd
      rcases hp with hp | hq
      · obtain ⟨span, hspan⟩ := ihp hp he
        exact ⟨span, mem_marks_of_mem_ends hd hspan⟩
      · exact ihq hq hd
  | either p q ihp ihq =>
      rcases List.mem_append.mp hd with hd | hd
      · exact ihp hp.1 hd
      · exact ihq hp.2 hd
  | mark other p ih =>
      obtain ⟨e, he, rfl⟩ := List.mem_map.mp hd
      rcases hp with rfl | hp
      · exact ⟨_, List.mem_cons_self⟩
      · obtain ⟨span, hspan⟩ := ih hp he
        exact ⟨span, List.mem_cons_of_mem _ hspan⟩
  | _ => exact absurd hp id

/-! ## Searching -/

/-- A match at a place is the best end of the pattern there. -/
theorem matchAt_eq (p : Pattern L) (before : Option Char) (offset : Nat) (rest : List Char) :
    p.matchAt before offset rest =
      (ends p ⟨before, rest, offset, []⟩).head?.map fun stop =>
        ⟨⟨offset, stop.offset⟩, stop.marks⟩ := by
  rw [matchAt, firstEnd_eq_findSome_ends]
  cases ends p ⟨before, rest, offset, []⟩ with
  | nil => rfl
  | cons d ds => rfl

/-- A match that begins at a place of a text is an end of its pattern there. -/
def Found (p : Pattern L) (text : List Char) (m : Match L) : Prop :=
  ∃ front rest d, text = front ++ rest ∧ rest ≠ [] ∧
    d ∈ ends p ⟨front.getLast?, rest, front.length, []⟩ ∧ m = ⟨⟨front.length, d.offset⟩, d.marks⟩

theorem found_of_matchAt {p : Pattern L} {front rest : List Char} (hrest : rest ≠ []) {m : Match L}
    (hm : p.matchAt front.getLast? front.length rest = some m) : p.Found (front ++ rest) m := by
  rw [matchAt_eq] at hm
  obtain ⟨d, hd, rfl⟩ := Option.map_eq_some_iff.mp hm
  exact ⟨front, rest, d, rfl, hrest, List.mem_of_mem_head? hd, rfl⟩

theorem found_of_mem_matchesFrom {p : Pattern L} {skip : Nat} {front rest : List Char} {m : Match L}
    (hm : m ∈ p.matchesFrom skip front.getLast? front.length rest) : p.Found (front ++ rest) m := by
  -- The next character moves to the front, so that the front is what was passed so far.
  induction rest generalizing skip front with
  | nil => cases skip <;> exact absurd hm (by simp [matchesFrom])
  | cons c rest ih =>
      have hsplit : front ++ c :: rest = front ++ [c] ++ rest := by simp
      have hnext : ∀ skip, m ∈ p.matchesFrom skip (some c) (front.length + 1) rest →
          p.Found (front ++ c :: rest) m := by
        intro skip hm
        have hfront : m ∈ p.matchesFrom skip (front ++ [c]).getLast? (front ++ [c]).length rest := by
          rw [List.getLast?_concat, List.length_append]
          exact hm
        rw [hsplit]
        exact ih hfront
      cases skip with
      | succ skip => exact hnext skip hm
      | zero =>
          rw [matchesFrom] at hm
          cases hmatch : p.matchAt front.getLast? front.length (c :: rest) with
          | none =>
              rw [hmatch] at hm
              exact hnext 0 hm
          | some found =>
              rw [hmatch] at hm
              rcases List.mem_cons.mp hm with rfl | hm
              · exact found_of_matchAt (List.cons_ne_nil c rest) hmatch
              · exact hnext _ hm

theorem found_of_mem_allMatches {p : Pattern L} {text : List Char} {m : Match L}
    (hm : m ∈ p.allMatches text) : p.Found text m := by
  have hstart : m ∈ p.matchesFrom 0 ([] : List Char).getLast? ([] : List Char).length text := hm
  exact found_of_mem_matchesFrom hstart

/-- The character before a place is the last one of what is before it. -/
theorem getLast?_take_eq {text : List Char} {n : Nat} (hn : n ≤ text.length) :
    (text.take n).getLast? = if n = 0 then none else text[n - 1]? := by
  rw [List.getLast?_take]
  split_ifs with hzero
  · rfl
  · rw [List.getElem?_eq_getElem (by omega)]
    rfl

/-- A match in a region of a text is a match in the text up to the end of the region. -/
theorem found_of_mem_matchesIn {p : Pattern L} {text : List Char} {region : Span} {m : Match L}
    (hle : region.start ≤ region.stop) (hstop : region.stop ≤ text.length)
    (hm : m ∈ p.matchesIn text region) : p.Found (text.take region.stop) m := by
  have hsplit : text.take region.stop = text.take region.start ++ region.slice text := by
    rw [Span.slice, ← List.take_add, Nat.add_sub_cancel' hle]
  have hlength : (text.take region.start).length = region.start :=
    List.length_take_of_le (hle.trans hstop)
  -- The search in the region looks at the character before it, if there is one.
  have hbefore := getLast?_take_eq (hle.trans hstop)
  have hm' : m ∈ p.matchesFrom 0 (text.take region.start).getLast?
      (text.take region.start).length (region.slice text) := by
    rw [hbefore, hlength]
    exact hm
  rw [hsplit]
  exact found_of_mem_matchesFrom hm'

end Pattern

end SourceChunks
